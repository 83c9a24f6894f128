import WhereClause.Proofs.Handouts

/-!
# Templates

A template is a text with places in it for placeholders that are made up. A place says how many
identifiers after the first one its binder was given its own, and the number in that binder. Filled,
a place holds the name that is made up when counting starts at some identifier.

How long a filled place is depends on where counting starts, but which places are found in a filled
template does not: replacing a placeholder in a filled template is replacing a place in the
template.

* `fill_replace`: replacing one placeholder.
* `fill_rewrite`: replacing several, one after the other.
* `fill_injective`: under one stem, different places have different names.
-/

namespace WhereClause

structure Slot where
  own : Nat
  number : Nat
  deriving DecidableEq

inductive Piece
  | char (c : Char)
  | slot (slot : Slot)
  deriving DecidableEq

abbrev Template := List Piece

/-- The name of a place, without its colon, under a stem when counting starts at an identifier. -/
def Slot.fragment (stem : String) (first : Nat) (slot : Slot) : String :=
  stem ++ toString (first + slot.own) ++ "_" ++ toString (slot.number : Int)

def Slot.name (stem : String) (first : Nat) (slot : Slot) : String :=
  ":" ++ slot.fragment stem first

def Piece.fill (stem : String) (first : Nat) : Piece → List Char
  | char c => [c]
  | slot s => (s.name stem first).toList

/-! ## Replacing beside a name -/

namespace Text

variable {token : List Char} (replacement : List Char)

theorem replaceToken_cons {c : Char} {s : List Char}
    (other : ∀ rest, c :: s = token ++ rest → endsWord rest = false) :
    replaceToken token replacement (c :: s) = c :: replaceToken token replacement s := by
  unfold replaceToken
  rw [replaceFrom.eq_def]
  simp only
  rw [if_neg]
  rw [Bool.and_eq_true, List.isPrefixOf_iff_prefix]
  rintro ⟨⟨rest, split⟩, ends⟩
  rw [← split, List.drop_left, other rest split.symm] at ends
  cases ends

theorem replaceToken_clear {name : List Char} (clear : Clear token name) {after : List Char}
    (ends : endsWord after = true) :
    replaceToken token replacement (name ++ after) =
      name ++ replaceToken token replacement after := by
  suffices inside : ∀ before inside, name = before ++ inside →
      replaceToken token replacement (inside ++ after) =
        inside ++ replaceToken token replacement after from inside [] name rfl
  intro before inside
  induction inside generalizing before with
  | nil => exact fun _ => rfl
  | cons c inside ih =>
      intro split
      rw [List.cons_append, replaceToken_cons replacement, List.cons_append,
        ih (before ++ [c]) (by simp [split])]
      exact fun rest found => clear before (c :: inside) after rest split nofun ends found

theorem replaceToken_here (present : token ≠ []) {after : List Char}
    (ends : endsWord after = true) :
    replaceToken token replacement (token ++ after) =
      replacement ++ replaceToken token replacement after := by
  obtain ⟨c, later, rfl⟩ := List.exists_cons_of_ne_nil present
  unfold replaceToken
  rw [List.cons_append, replaceFrom, if_pos]
  · rw [replaceFrom_pending]
  · have drop : (c :: (later ++ after)).drop (c :: later).length = after := List.drop_left
    rw [drop, ends, Bool.and_true, List.isPrefixOf_iff_prefix]
    exact List.prefix_append (c :: later) after

theorem clear_singleton {c : Char} {name : List Char} (notMem : c ∉ name) : Clear [c] name := by
  intro before inside after rest split present _ found
  obtain ⟨d, inside, rfl⟩ := List.exists_cons_of_ne_nil present
  obtain rfl : d = c := (List.cons_eq_cons.mp found).1
  exact absurd (by simp [split]) notMem

end Text

namespace Slot

theorem toList_name (stem : String) (first : Nat) (slot : Slot) :
    (slot.name stem first).toList =
      Text.madeUp stem.toList (toString (first + slot.own)).toList slot.number := by
  simp [name, fragment, Text.madeUp, Text.numeral]

theorem isDigit_identifier (n : Nat) : ∀ c ∈ (toString n).toList, c.isDigit = true := by
  intro c member
  rw [Nat.toString_eq_repr, Nat.toList_repr] at member
  exact Text.isDigit_of_toDigits member

end Slot

namespace Template

/-- The stem can stand in a filled template: it can be told from what is replaced there. -/
structure Stem (stem : String) : Prop where
  colon : ':' ∉ stem.toList
  mark : '?' ∉ stem.toList

def fill (stem : String) (first : Nat) (t : Template) : List Char :=
  t.flatMap (Piece.fill stem first)

def ofText (s : List Char) : Template := s.map .char

/-- No word goes on at the start. -/
def ends : Template → Bool
  | [] => true
  | .char c :: _ => !Text.isWordChar c
  | .slot _ :: _ => true

/-- No word goes on after a place, and no colon stands outside the places. -/
def Formed : Template → Prop
  | [] => True
  | .char c :: rest => c ≠ ':' ∧ Formed rest
  | .slot _ :: rest => ends rest = true ∧ Formed rest

/-- The templates one after the other, with a text between them. -/
def between (glue : List Char) : List Template → Template
  | [] => []
  | [t] => t
  | t :: next :: rest => t ++ (ofText glue ++ between glue (next :: rest))

/-- Replaces a piece where no word goes on after it. -/
def replace (target : Piece) (text : Template) : Template → Template
  | [] => []
  | p :: rest =>
    if p = target ∧ ends rest = true then text ++ replace target text rest
    else p :: replace target text rest

variable {stem : String} {first : Nat}

@[simp] theorem fill_nil : fill stem first [] = [] := rfl

@[simp] theorem fill_cons (p : Piece) (t : Template) :
    fill stem first (p :: t) = p.fill stem first ++ fill stem first t := rfl

@[simp] theorem fill_append (t u : Template) :
    fill stem first (t ++ u) = fill stem first t ++ fill stem first u :=
  List.flatMap_append

@[simp] theorem fill_ofText (s : List Char) : fill stem first (ofText s) = s := by
  induction s with
  | nil => rfl
  | cons c s ih => rw [ofText, List.map_cons, fill_cons, ← ofText, ih]; rfl

theorem endsWord_fill (stem : String) (first : Nat) (t : Template) :
    Text.endsWord (fill stem first t) = ends t := by
  cases t with
  | nil => rfl
  | cons p t =>
      cases p with
      | char c => rfl
      | slot s =>
          rw [fill_cons, Piece.fill, Slot.toList_name]
          rfl

theorem formed_append {t u : Template} (formed : Formed t) (later : Formed u)
    (ends' : ends u = true) : Formed (t ++ u) := by
  induction t with
  | nil => exact later
  | cons p t ih =>
      cases p with
      | char c => exact ⟨formed.1, ih formed.2⟩
      | slot s =>
          refine ⟨?_, ih formed.2⟩
          cases t with
          | nil => exact ends'
          | cons q t => cases q <;> exact formed.1

theorem formed_ofText {s : List Char} (noColon : ':' ∉ s) : Formed (ofText s) := by
  induction s with
  | nil => trivial
  | cons c s ih =>
      exact ⟨(List.ne_of_not_mem_cons noColon).symm, ih (List.not_mem_of_not_mem_cons noColon)⟩

theorem formed_ofText_append {s : List Char} (noColon : ':' ∉ s) {t : Template}
    (formed : Formed t) : Formed (ofText s ++ t) := by
  induction s with
  | nil => exact formed
  | cons c s ih =>
      exact ⟨(List.ne_of_not_mem_cons noColon).symm, ih (List.not_mem_of_not_mem_cons noColon)⟩

theorem fill_between (stem : String) (first : Nat) (glue : String) (parts : List Template) :
    String.ofList (fill stem first (between glue.toList parts)) =
      glue.intercalate (parts.map fun t => String.ofList (fill stem first t)) := by
  induction parts with
  | nil => rfl
  | cons t rest ih =>
      cases rest with
      | nil => rw [between, List.map_singleton, String.intercalate_singleton]
      | cons next rest =>
          rw [List.map_cons] at ih
          rw [List.map_cons, List.map_cons, String.intercalate_cons_cons, ← ih, between]
          simp [← String.toList_inj]

theorem formed_between {glue : List Char} (noColon : ':' ∉ glue)
    (opens : ∀ t, ends (ofText glue ++ t) = true) {parts : List Template}
    (formed : ∀ t ∈ parts, Formed t) : Formed (between glue parts) := by
  induction parts with
  | nil => trivial
  | cons t rest ih =>
      obtain ⟨here, later⟩ := List.forall_mem_cons.mp formed
      cases rest with
      | nil => exact here
      | cons next rest =>
          exact formed_append here (formed_ofText_append noColon (ih later)) (opens _)

theorem ends_append {t u : Template} (ends' : ends t = true) (later : ends u = true) :
    ends (t ++ u) = true := by
  cases t with
  | nil => exact later
  | cons p t => cases p <;> exact ends'

theorem ends_replace {target : Piece} {text : Template} (start : ends text = true) {t : Template}
    (ends' : ends t = true) : ends (replace target text t) = true := by
  induction t with
  | nil => exact ends'
  | cons p t ih =>
      rw [replace]
      split
      · rename_i here
        exact ends_append start (ih here.2)
      · cases p <;> exact ends'

theorem formed_replace {target : Piece} {text : Template} (formed : Formed text)
    (start : ends text = true) {t : Template} (formed' : Formed t) :
    Formed (replace target text t) := by
  induction t with
  | nil => trivial
  | cons p t ih =>
      have later : Formed (replace target text t) := by
        apply ih
        cases p with
        | char c => exact formed'.2
        | slot s => exact formed'.2
      rw [replace]
      split
      · rename_i here
        exact formed_append formed later (ends_replace start here.2)
      · cases p with
        | char c => exact ⟨formed'.1, later⟩
        | slot s => exact ⟨ends_replace start formed'.1, later⟩

/-- What is replaced: a place, or the mark of positional placeholders. -/
inductive Target : Piece → Prop
  | slot (s : Slot) : Target (.slot s)
  | mark : Target (.char '?')

theorem Target.formed {p : Piece} (target : Target p) : Formed [p] := by
  cases target with
  | slot s => exact ⟨rfl, trivial⟩
  | mark => exact ⟨by decide, trivial⟩

theorem Target.ends {p : Piece} (target : Target p) (t : Template) :
    Template.ends (p :: t) = true := by
  cases target <;> rfl

theorem clear_slot (first : Nat) (fit : Stem stem) {target : Piece} (isTarget : Target target)
    {s : Slot} (other : .slot s ≠ target) :
    Text.Clear (target.fill stem first) (s.name stem first).toList := by
  rw [Slot.toList_name]
  cases isTarget with
  | slot s' =>
      rw [Piece.fill, Slot.toList_name]
      apply Text.clear_madeUp fit.colon (Slot.isDigit_identifier _) (Slot.isDigit_identifier _)
      by_contra same
      push Not at same
      obtain ⟨identifier, number⟩ := same
      apply other
      have owns := Workspace.toString_inj (String.toList_inj.mp identifier)
      have numbers := Int.ofNat.inj number
      cases s
      cases s'
      simp only [Piece.slot.injEq, Slot.mk.injEq]
      simp only at owns numbers
      omega
  | mark =>
      have digits : '?' ∉ (toString (first + s.own)).toList :=
        Text.notMem_of_digits (by decide) (Slot.isDigit_identifier _)
      have number : '?' ∉ Text.numeral s.number :=
        Text.notMem_numeral (by decide) (by decide) s.number
      apply Text.clear_singleton
      simp only [Text.madeUp, List.mem_cons, List.mem_append, fit.mark, digits, number, or_false]
      decide

theorem fill_ne_nil (stem : String) (first : Nat) (p : Piece) : p.fill stem first ≠ [] := by
  cases p with
  | char c => exact nofun
  | slot s =>
      rw [Piece.fill, Slot.toList_name]
      exact nofun

theorem fill_replace (first : Nat) (fit : Stem stem) {target : Piece} (isTarget : Target target)
    (text : Template) {t : Template} (formed : Formed t) :
    fill stem first (replace target text t) =
      Text.replaceToken (target.fill stem first) (fill stem first text) (fill stem first t) := by
  induction t with
  | nil =>
      obtain ⟨c, rest, some'⟩ := List.exists_cons_of_ne_nil (fill_ne_nil stem first target)
      rw [replace, some']
      rfl
  | cons p t ih =>
      have later := ih (by cases p <;> exact formed.2)
      rw [replace]
      split
      · rename_i here
        obtain ⟨rfl, ends'⟩ := here
        rw [← endsWord_fill stem first] at ends'
        rw [fill_append, fill_cons, later,
          Text.replaceToken_here _ (fill_ne_nil stem first p) ends']
      · rename_i stays
        rw [fill_cons, fill_cons, later]
        cases p with
        | slot s =>
            have ends' := formed.1
            have other : Piece.slot s ≠ target := fun same => stays ⟨same, ends'⟩
            rw [← endsWord_fill stem first] at ends'
            exact (Text.replaceToken_clear _ (clear_slot first fit isTarget other) ends').symm
        | char c =>
            refine (Text.replaceToken_cons _ fun rest found => ?_).symm
            cases isTarget with
            | slot s =>
                rw [Piece.fill, Slot.toList_name] at found
                exact absurd (List.cons_eq_cons.mp found).1 formed.1
            | mark =>
                obtain ⟨rfl, rfl⟩ := List.cons_eq_cons.mp found
                rw [endsWord_fill]
                simpa using stays

theorem fill_injective (fit : Stem stem) {p q : Piece} (target : Target p) (target' : Target q)
    (same : p.fill stem first = q.fill stem first) : p = q := by
  by_contra different
  cases target' with
  | slot s =>
      have clear := clear_slot first fit target (Ne.symm different)
      rw [Piece.fill] at same
      -- A name is found in itself.
      have found := clear [] (s.name stem first).toList [] [] rfl
        (by rw [Slot.toList_name]; exact nofun) rfl (by simp [same])
      cases found
  | mark =>
      cases target with
      | slot s =>
          have start : (s.name stem first).toList = ['?'] := same
          rw [Slot.toList_name] at start
          cases start
      | mark => exact different rfl

/-- Replaces several pieces, one after the other. -/
def rewrite (replacements : List (Piece × Template)) (t : Template) : Template :=
  replacements.foldl (fun t (target, text) => replace target text t) t

/-- What takes the place of a piece can stand in a template. -/
structure Fits (replaced : Piece × Template) : Prop where
  target : Target replaced.1
  formed : Formed replaced.2
  ends : ends replaced.2 = true

/-- The placeholder to replace and the text that takes its place. -/
def fillPair (stem : String) (first : Nat) (replaced : Piece × Template) : String × String :=
  (String.ofList (replaced.1.fill stem first), String.ofList (fill stem first replaced.2))

theorem fill_rewrite (fit : Stem stem) {replacements : List (Piece × Template)}
    (fits : ∀ replaced ∈ replacements, Fits replaced) {t : Template} (formed : Formed t) :
    fill stem first (rewrite replacements t) =
      Expansion.substituteText (replacements.map (fillPair stem first)) (fill stem first t) := by
  induction replacements generalizing t with
  | nil => rfl
  | cons replaced rest ih =>
      obtain ⟨target, text⟩ := replaced
      obtain ⟨here, later⟩ := List.forall_mem_cons.mp fits
      have step := fill_replace first fit here.target text formed
      rw [List.map_cons, rewrite, List.foldl_cons, ← rewrite,
        ih later (formed_replace here.formed here.ends formed), step]
      simp only [fillPair, Expansion.substituteText, List.foldl_cons, String.toList_ofList]

end Template
end WhereClause
