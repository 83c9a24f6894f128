import Mathlib.Data.List.ReduceOption
import WhereClause.Proofs.Renaming

/-!
# Expanding positions

Positions share one placeholder, the mark, and what takes the place of a placeholder is looked up
by the placeholder alone. So in a binder that holds positions only, the last one for several
elements decides what is written for all of them, also for those that are for single values.

* `expandConditions_marks`: what is written, and when every mark gets what belongs to it, for every
  binder of every run.
-/

namespace WhereClause

namespace Text

def isMark (c : Char) (rest : List Char) : Bool := c == '?' && endsWord rest

def countMarks : List Char → Nat
  | [] => 0
  | c :: rest => countMarks rest + if isMark c rest then 1 else 0

/-- Puts one text after the other in the place of the marks. A mark for which none is left stays. -/
def fillMarks (texts : List String) : List Char → List Char
  | [] => []
  | c :: rest =>
    if isMark c rest then (texts.headD "?").toList ++ fillMarks texts.tail rest
    else c :: fillMarks texts rest

theorem replaceToken_mark (replacement : List Char) (c : Char) (rest : List Char) :
    replaceToken ['?'] replacement (c :: rest) =
      if isMark c rest then replacement ++ replaceToken ['?'] replacement rest
      else c :: replaceToken ['?'] replacement rest := by
  split
  · rename_i here
    rw [isMark, Bool.and_eq_true, beq_iff_eq] at here
    obtain ⟨rfl, ends⟩ := here
    exact replaceToken_here replacement (List.cons_ne_nil _ _) ends
  · rename_i other
    apply replaceToken_cons
    intro after found
    obtain ⟨rfl, rfl⟩ := List.cons.inj found
    simpa [isMark] using other

theorem replaceToken_mark_self (s : List Char) : replaceToken ['?'] ['?'] s = s := by
  induction s with
  | nil => rfl
  | cons c rest ih =>
      rw [replaceToken_mark, ih]
      split
      · rename_i here
        rw [isMark, Bool.and_eq_true, beq_iff_eq] at here
        rw [here.1, List.singleton_append]
      · rfl

theorem fillMarks_replicate (text : String) {n : Nat} {s : List Char} (enough : countMarks s ≤ n) :
    fillMarks (List.replicate n text) s = replaceToken ['?'] text.toList s := by
  induction s generalizing n with
  | nil => rfl
  | cons c rest ih =>
      rw [countMarks] at enough
      rw [fillMarks, replaceToken_mark]
      split
      · rename_i here
        rw [if_pos here] at enough
        obtain ⟨n, rfl⟩ : ∃ m, n = m + 1 := ⟨n - 1, by omega⟩
        rw [List.tail_replicate, List.replicate_succ, List.headD_cons, Nat.add_sub_cancel,
          ih (by omega)]
      · rw [ih (by omega)]

/-- A number is known from what it is written as, up to a comma. -/
theorem numeral_inj_comma {m n : Int} {s t : List Char} (after : s.takeWhile (· != ',') = [])
    (after' : t.takeWhile (· != ',') = []) (same : numeral m ++ s = numeral n ++ t) : m = n := by
  have cut (k : Int) {rest : List Char} (none' : rest.takeWhile (· != ',') = []) :
      (numeral k ++ rest).takeWhile (· != ',') = numeral k := by
    rw [List.takeWhile_append_of_pos, none', List.append_nil]
    intro c member
    rw [bne_iff_ne]
    rintro rfl
    exact notMem_numeral (by decide) (by decide) k member
  apply numeral_inj
  rw [← cut m after, ← cut n after', same]

end Text

open Text

/-- Puts one text after the other in the place of the marks of all texts. -/
def fillAll (texts : List String) : List String → List String
  | [] => []
  | s :: rest =>
    String.ofList (fillMarks texts s.toList) :: fillAll (texts.drop (countMarks s.toList)) rest

def countAll : List String → Nat
  | [] => 0
  | s :: rest => countMarks s.toList + countAll rest

theorem fillAll_replicate (text : String) {n : Nat} {strings : List String}
    (enough : countAll strings ≤ n) :
    fillAll (List.replicate n text) strings =
      strings.map fun s => String.ofList (replaceToken ['?'] text.toList s.toList) := by
  induction strings generalizing n with
  | nil => rfl
  | cons s rest ih =>
      rw [countAll] at enough
      rw [fillAll, List.drop_replicate, ih (by omega), fillMarks_replicate text (by omega),
        List.map_cons]

theorem fillAll_marks (texts : List String) :
    fillAll texts (List.replicate texts.length "?") = texts := by
  induction texts with
  | nil => rfl
  | cons text rest ih =>
      have here : fillMarks (text :: rest) "?".toList = text.toList := List.append_nil _
      rw [List.length_cons, List.replicate_succ, fillAll, here, String.ofList_toList]
      exact congrArg (text :: ·) ih

theorem countAll_marks (n : Nat) : countAll (List.replicate n "?") = n := by
  have one : countMarks "?".toList = 1 := rfl
  induction n with
  | zero => rfl
  | succ n ih => rw [List.replicate_succ, countAll, ih, one, Nat.add_comm]

theorem replaceToken_marks (text : String) (n : Nat) :
    (List.replicate n "?").map (fun s => String.ofList (replaceToken ['?'] text.toList s.toList)) =
      List.replicate n text := by
  have here : replaceToken ['?'] text.toList "?".toList = text.toList := by
    show replaceToken ['?'] text.toList ['?'] = text.toList
    rw [replaceToken_mark]
    exact List.append_nil _
  rw [List.map_replicate, here, String.ofList_toList]

/-- The binder holds positions only. -/
def Binder.Positional (b : Binder) : Prop := ∀ entry ∈ b.bindings, entry.2.fragment = ""

/-- What becomes of each binding: nothing, or its renewal if it is for several elements. -/
def Forest.renewed (forest : Forest) (identifier : String) (number : Int) :
    Bindings → List (Option Renewal)
  | [] => []
  | (_, binding) :: rest =>
    if binding.isMulti {} then
      let elements := forest.elements binding.value
      some ⟨binding, Expansion.reservations {} identifier (.text binding.fragment) number elements⟩
        :: forest.renewed identifier (number + elements.length) rest
    else none :: forest.renewed identifier number rest

/-- What belongs in the place of a mark: the placeholders of the elements, or the mark itself. -/
def Renewal.ownText (fate : Option Renewal) : String :=
  fate.elim "?" fun renewal => renewal.listing.2

/-- What is written in the place of every mark. -/
def Renewal.lastText (renewals : List Renewal) : String :=
  (renewals.getLast?.map fun renewal => renewal.listing.2).getD "?"

theorem Forest.reduceOption_renewed (forest : Forest) (identifier : String) (number : Int)
    (bindings : Bindings) :
    (forest.renewed identifier number bindings).reduceOption =
      forest.renewals {} identifier number bindings := by
  induction bindings generalizing number with
  | nil => rfl
  | cons entry rest ih =>
      obtain ⟨_, binding⟩ := entry
      rw [renewed, renewals]
      split
      · rw [List.reduceOption_cons_of_some, ih]
      · rw [List.reduceOption_cons_of_none, ih]

theorem Forest.length_renewed (forest : Forest) (identifier : String) (number : Int)
    (bindings : Bindings) :
    (forest.renewed identifier number bindings).length = bindings.length := by
  induction bindings generalizing number with
  | nil => rfl
  | cons entry rest ih =>
      obtain ⟨_, binding⟩ := entry
      rw [renewed]
      split <;> rw [List.length_cons, ih, List.length_cons]

theorem Forest.none_mem_renewed (forest : Forest) (identifier : String) (number : Int)
    (bindings : Bindings) :
    none ∈ forest.renewed identifier number bindings ↔ bindings.single {} ≠ [] := by
  induction bindings generalizing number with
  | nil => simp [renewed, Bindings.single]
  | cons entry rest ih =>
      obtain ⟨_, binding⟩ := entry
      rw [renewed, Bindings.single, List.filter_cons]
      cases multi : binding.isMulti {} with
      | true =>
          rw [if_pos rfl, List.mem_cons, ih]
          simp [Bindings.single]
      | false => simp

theorem Forest.elements_eq_nil {forest : Forest} {settings : Settings} {identifier : String}
    {number : Int} {bindings : Bindings} {renewal : Renewal}
    (member : renewal ∈ forest.renewals settings identifier number bindings) :
    renewal.elements = [] ↔ forest.elements renewal.binding.value = [] := by
  obtain ⟨-, start, drawn⟩ := Forest.mem_renewals member
  rw [← List.length_eq_zero_iff, drawn, Expansion.length_reservations, List.length_eq_zero_iff]

section
variable {b : Binder} {forest : Forest} (positional : b.Positional)
include positional

theorem fragment_of_renewals {renewal : Renewal} (member : renewal ∈ b.renewals forest {}) :
    renewal.binding.fragment = "" := by
  obtain ⟨entry, inside, same⟩ := Binder.exists_of_renewals member
  rw [← same, positional entry inside]

theorem noColon_of_renewals {renewal : Renewal} (member : renewal ∈ b.renewals forest {}) :
    ':' ∉ renewal.binding.fragment.toList := by
  rw [fragment_of_renewals positional member]
  exact List.not_mem_nil

/-- What is written for several elements: nothing for none, and otherwise names, of which the first
has the number of the first element. -/
theorem listing_renewals {renewal : Renewal} (member : renewal ∈ b.renewals forest {}) :
    (renewal.elements = [] ∧ renewal.listing.2 = "") ∨
      ∃ entry ∈ renewal.entries {}, ∃ rest : List Char,
        renewal.listing.2.toList =
          (Binder.synthesized {} b.identifier entry.1).toList ++ rest ∧
        rest.takeWhile (· != ',') = [] := by
  have noNumeral : isNumeral renewal.binding.fragment = false := by
    rw [fragment_of_renewals positional member]
    decide
  have named {entry} (inside : entry ∈ renewal.entries {}) :=
    (Renewal.named_of_not_numeral member (noColon_of_renewals positional member) noNumeral inside).1
  cases entries : renewal.entries {} with
  | nil =>
      left
      rw [Renewal.listing, entries]
      exact ⟨List.map_eq_nil_iff.mp entries, rfl⟩
  | cons first rest =>
      right
      rw [Renewal.listing, entries, List.map_cons, named (entries ▸ List.mem_cons_self)]
      refine ⟨first, List.mem_cons_self, ?_⟩
      cases rest with
      | nil => exact ⟨[], by rw [List.map_nil, String.intercalate_singleton, List.append_nil], rfl⟩
      | cons second rest =>
          rw [List.map_cons, String.intercalate_cons_cons, String.toList_append,
            String.toList_append, List.append_assoc]
          exact ⟨_, rfl, rfl⟩

theorem listing_ne_mark {renewal : Renewal} (member : renewal ∈ b.renewals forest {}) :
    renewal.listing.2 ≠ "?" := by
  rcases listing_renewals positional member with ⟨-, text⟩ | ⟨entry, -, rest, text, -⟩
  · rw [text]
    decide
  · rw [ne_eq, ← String.toList_inj, text, toList_synthesized]
    exact fun same => absurd (List.cons.inj same).1 (by decide)

theorem numbers_of_listing {first second : Renewal} (member : first ∈ b.renewals forest {})
    (member' : second ∈ b.renewals forest {}) (nonempty : first.listing.2 ≠ "")
    (same : first.listing.2 = second.listing.2) :
    ∃ entry ∈ first.entries {}, ∃ other ∈ second.entries {}, entry.1 = other.1 := by
  rcases listing_renewals positional member with ⟨-, empty⟩ | ⟨entry, inside, _, text, stops⟩
  · exact absurd empty nonempty
  rcases listing_renewals positional member' with ⟨-, empty⟩ | ⟨other, inside', _, text', stops'⟩
  · exact absurd (same.trans empty) nonempty
  refine ⟨entry, inside, other, inside', numeral_inj_comma stops stops' ?_⟩
  rw [← String.toList_inj, text, text', toList_synthesized, toList_synthesized] at same
  simpa using same

variable (forest) in
/-- All texts are the same only if there is one, or if they are all empty: what is written for
elements opens with a number that no other element has. -/
theorem listings_agree_iff :
    (∀ renewal ∈ b.renewals forest {},
        renewal.listing.2 = Renewal.lastText (b.renewals forest {})) ↔
      (b.renewals forest {}).length ≤ 1 ∨
        ∀ renewal ∈ b.renewals forest {}, renewal.elements = [] := by
  have numbers {first second} (member : first ∈ b.renewals forest {})
    (member' : second ∈ b.renewals forest {}) := numbers_of_listing positional member member'
  have written {renewal} (member : renewal ∈ b.renewals forest {}) :=
    listing_renewals positional member
  have distinct := Expansion.nodup_renewals forest {} b.identifier b.count b.bindings
  rw [← Binder.renewals] at distinct
  generalize b.renewals forest {} = renewals at numbers written distinct
  constructor
  · intro same
    by_contra! both
    obtain ⟨two, full, member, present⟩ := both
    have nonempty : Renewal.lastText renewals ≠ "" := by
      rw [← same full member]
      rcases written member with ⟨absent, -⟩ | ⟨entry, -, rest, text, -⟩
      · exact absurd absent present
      · rw [ne_eq, ← String.toList_inj, text, toList_synthesized]
        exact List.cons_ne_nil _ _
    obtain _ | ⟨first, _ | ⟨second, rest⟩⟩ := renewals
    · exact absurd two (Nat.not_lt_zero 1)
    · exact absurd two (Nat.lt_irrefl 1)
    · -- The texts of two bindings open with the numbers of their first elements.
      have here := same first List.mem_cons_self
      have next := same second (List.mem_cons_of_mem _ List.mem_cons_self)
      obtain ⟨entry, inside, other, inside', equal⟩ := numbers List.mem_cons_self
        (List.mem_cons_of_mem _ List.mem_cons_self) (here ▸ nonempty) (here.trans next.symm)
      rw [List.flatMap_cons, Table.keys, List.map_append, List.nodup_append] at distinct
      exact distinct.2.2 _ (List.mem_map_of_mem inside) _ (List.mem_map_of_mem
        (List.mem_flatMap.mpr ⟨second, List.mem_cons_self, inside'⟩)) equal
  · rintro (one | absent) renewal member
    · obtain _ | ⟨only, _ | ⟨second, rest⟩⟩ := renewals
      · cases member
      · rw [List.mem_singleton.mp member]
        rfl
      · exact absurd one (by simp)
    · have empty {other} (known : other ∈ renewals) : other.listing.2 = "" := by
        rw [Renewal.listing, Renewal.entries, absent other known]
        rfl
      rw [empty member, Renewal.lastText]
      cases last : renewals.getLast? with
      | none =>
          rw [List.getLast?_eq_none_iff.mp last] at member
          cases member
      | some other => exact (empty (List.mem_of_getLast? last)).symm

/-- What belongs to the bindings is all the same if all are for single values, or if all are for
several elements, of which there are none, or for one binding only. -/
theorem ownTexts_agree_iff :
    (∀ fate ∈ forest.renewed b.identifier b.count b.bindings,
        Renewal.ownText fate = Renewal.lastText (b.renewals forest {})) ↔
      b.bindings.several {} = [] ∨ (b.bindings.single {} = [] ∧
        ((b.bindings.several {}).length = 1 ∨
          ∀ binding ∈ b.bindings.several {}, forest.elements binding.value = [])) := by
  have renewed {renewal} : some renewal ∈ forest.renewed b.identifier b.count b.bindings ↔
      renewal ∈ b.renewals forest {} := by
    rw [Binder.renewals, ← Forest.reduceOption_renewed, List.reduceOption_mem_iff]
  have plain := forest.none_mem_renewed b.identifier b.count b.bindings
  have agree := listings_agree_iff forest positional
  have several := forest.bindings_renewals {} b.identifier b.count b.bindings
  rw [← Binder.renewals] at several
  have absent : (∀ renewal ∈ b.renewals forest {}, renewal.elements = []) ↔
      ∀ binding ∈ b.bindings.several {}, forest.elements binding.value = [] := by
    rw [← several, List.forall_mem_map]
    exact forall₂_congr fun renewal => Forest.elements_eq_nil
  rw [absent] at agree
  rw [← several, List.length_map, List.map_eq_nil_iff]
  rw [← several] at agree
  constructor
  · intro same
    by_cases none' : b.renewals forest {} = []
    · exact .inl none'
    · right
      have agreed := agree.mp fun renewal member => same _ (renewed.mpr member)
      have found := List.getLast?_eq_some_getLast none'
      refine ⟨?_, agreed.imp_left fun one => ?_⟩
      · by_contra kept
        apply listing_ne_mark positional (List.getLast_mem none')
        have mark := same none (plain.mpr kept)
        rw [Renewal.lastText, found] at mark
        exact mark.symm
      · have := List.length_pos_iff.mpr none'
        omega
  · rintro (none' | ⟨kept, which⟩) fate member
    · cases fate with
      | none =>
          rw [none']
          rfl
      | some renewal =>
          rw [renewed, none'] at member
          cases member
    · cases fate with
      | none => exact absurd kept (plain.mp member)
      | some renewal => exact agree.mpr (which.imp_left le_of_eq) renewal (renewed.mp member)

theorem substituteText_positional (s : List Char) :
    Expansion.substituteText (b.expand forest {}).1.replacements s =
      replaceToken ['?'] (Renewal.lastText (b.renewals forest {})).toList s := by
  have marks : ∀ entry ∈ (b.renewals forest {}).map Renewal.listing, entry.1 = "?" := by
    intro entry member
    obtain ⟨renewal, known, rfl⟩ := List.mem_map.mp member
    rw [Renewal.listing, BindingOf.placeholder, fragment_of_renewals positional known]
    rfl
  rw [Binder.replacements_expand fun _ => noColon_of_renewals positional,
    Table.putAll_of_same marks, List.getLast?_map, Renewal.lastText]
  cases last : (b.renewals forest {}).getLast? with
  | none => exact (replaceToken_mark_self s).symm
  | some renewal =>
      have mark := marks _ (List.mem_map_of_mem (List.mem_of_getLast? last))
      show replaceToken renewal.listing.1.toList renewal.listing.2.toList s = _
      rw [mark]
      rfl

end

namespace WorkspaceM

/-- Expanding gives every mark what belongs to the binding that it stands for. -/
def FillsOwn (w : Workspace) (id : BinderId) : Prop :=
  let b := w.binder id
  let texts := (w.renewed b.identifier b.count b.bindings).map Renewal.ownText
  ∀ conditions strings, w.sequence? conditions = some (strings.map Value.text) →
    countAll strings = b.bindings.length → ∃ table after,
      run (expandConditions conditions id) w =
        (.ok ((fillAll texts strings).map Value.text, table), after)

theorem run_positional {w : Workspace} (settings : w.settings = {}) {id : BinderId}
    (numbered : (w.binder id).Numbered) (positional : (w.binder id).Positional)
    {conditions : Value} {vs : List Value} (elements : w.sequence? conditions = some vs) :
    let b := w.binder id
    let renewals := b.renewals w.toForest {}
    ∃ after, run (expandConditions conditions id) w =
      (.ok (vs.map (Value.mapText fun s =>
          String.ofList (replaceToken ['?'] (Renewal.lastText renewals).toList s.toList)),
        b.bindings.single {} ++ renewals.flatMap (Renewal.entries {})), after) := by
  have done := run_expandConditions elements id
  rw [settings] at done
  obtain ⟨after, done, -⟩ := done
  refine ⟨after, ?_⟩
  rw [done, numbered.bindings_expand]
  simp only [funext (substitute_mapText _), substituteText_positional positional]

theorem mapText_texts (f : String → String) (strings : List String) :
    (strings.map Value.text).map (Value.mapText f) = (strings.map f).map Value.text := by
  rw [List.map_map, List.map_map]
  rfl

theorem fillsOwn_iff {w : Workspace} (settings : w.settings = {}) {id : BinderId}
    (numbered : (w.binder id).Numbered) (positional : (w.binder id).Positional) :
    let b := w.binder id
    FillsOwn w id ↔ ∀ fate ∈ w.renewed b.identifier b.count b.bindings,
      Renewal.ownText fate = Renewal.lastText (b.renewals w.toForest {}) := by
  intro b
  let own := (w.renewed b.identifier b.count b.bindings).map Renewal.ownText
  have length : own.length = b.bindings.length := by rw [List.length_map, Forest.length_renewed]
  constructor
  · intro fills
    -- The marks alone are conditions, and what is put in their place are the texts themselves.
    let marks := List.replicate own.length "?"
    have elements : w.sequence? (.tuple .passing (marks.map Value.text)) =
      some (marks.map Value.text) := congrArg some (List.append_nil _)
    obtain ⟨table, after, filled⟩ := fills _ marks elements ((countAll_marks _).trans length)
    obtain ⟨after', expanded⟩ := run_positional settings numbered positional elements
    rw [expanded, mapText_texts, replaceToken_marks] at filled
    have texts := (Prod.ext_iff.mp (Except.ok.inj (Prod.ext_iff.mp filled).1)).1
    have same := List.map_injective_iff.mpr (fun _ _ => Value.text.inj)
      (texts.trans (congrArg _ (fillAll_marks own)))
    intro fate member
    have inside : Renewal.ownText fate ∈ own := List.mem_map_of_mem member
    rw [← same] at inside
    exact List.eq_of_mem_replicate inside
  · intro same conditions strings elements count
    obtain ⟨after, expanded⟩ := run_positional settings numbered positional elements
    have texts := List.eq_replicate_iff.mpr ⟨length, List.forall_mem_map.mpr same⟩
    rw [mapText_texts, ← fillAll_replicate _ count.le, ← texts] at expanded
    exact ⟨_, after, expanded⟩

/-- After every run, under the initial settings: if a binder holds positions only, then expanding
writes the placeholders for the last position with several elements in the place of every mark. So
every mark gets what belongs to its own position exactly if there are none with several elements, or
only such, of which there is one, or none has an element. -/
theorem expandConditions_marks (n : Nat) {operations : List Operation}
    (allows : Workspace.Allows .free { nextIdentifier := n } operations) {w : Workspace}
    (made : w = Workspace.after { nextIdentifier := n } operations) (settings : w.settings = {})
    {id : BinderId} (positional : (w.binder id).Positional) :
    let b := w.binder id
    let renewals := b.renewals w.toForest {}
    let several := b.bindings.several {}
    (∀ conditions vs, w.sequence? conditions = some vs → ∃ after,
      run (expandConditions conditions id) w =
        (.ok (vs.map (Value.mapText fun s =>
            String.ofList (replaceToken ['?'] (Renewal.lastText renewals).toList s.toList)),
          b.bindings.single {} ++ renewals.flatMap (Renewal.entries {})), after)) ∧
    (FillsOwn w id ↔ several = [] ∨ (b.bindings.single {} = [] ∧
      (several.length = 1 ∨ ∀ binding ∈ several, w.elements binding.value = []))) := by
  have numbered : (w.binder id).Numbered := made ▸ Workspace.numbered_after n allows id
  refine ⟨fun conditions vs => run_positional settings numbered positional, ?_⟩
  exact (fillsOwn_iff settings numbered positional).trans (ownTexts_agree_iff positional)

/-- A binder with three positions, of which two are for several elements. -/
def placingThree : List Operation :=
  [.newBinder none none,
    .register ⟨0⟩ (.text "1") (.list .passing [.int 1, .int 2]) (.text "int[]"),
    .register ⟨0⟩ (.text "2") (.int 5) (.text "int"),
    .register ⟨0⟩ (.text "3") (.list .passing [.int 3]) (.text "int[]")]

def threePlaced : Workspace := Workspace.after { nextIdentifier := 1 } placingThree

theorem allows_placingThree : Workspace.Allows .free { nextIdentifier := 1 } placingThree :=
  ⟨.inl rfl, Nat.zero_lt_one, Nat.zero_lt_one, Nat.zero_lt_one, trivial⟩

theorem positional_threePlaced : (threePlaced.binder ⟨0⟩).Positional := by
  show ∀ entry ∈ (threePlaced.binder ⟨0⟩).bindings, entry.2.fragment = ""
  decide +kernel

def markingThree : List Value := [.text "a IN (?) AND b = ?", .text "c NOT IN (?)"]

theorem expandConditions_marks_threePlaced :
    Workspace.Allows .free { nextIdentifier := 1 } placingThree ∧ threePlaced.settings = {} ∧
    (threePlaced.binder ⟨0⟩).Positional ∧ ¬ FillsOwn threePlaced ⟨0⟩ ∧
    ∃ after, run (expandConditions (.list .passing markingThree) ⟨0⟩) threePlaced =
      (.ok ([.text "a IN (:c1_5) AND b = :c1_5", .text "c NOT IN (:c1_5)"],
        [(1, ⟨"", .int 5, some "int"⟩), (3, ⟨"c1_3", .int 1, some "int"⟩),
          (4, ⟨"c1_4", .int 2, some "int"⟩), (5, ⟨"c1_5", .int 3, some "int"⟩)]), after) := by
  have elements : threePlaced.sequence? (.list .passing markingThree) = some markingThree := rfl
  have made : threePlaced = Workspace.after { nextIdentifier := 1 } placingThree := rfl
  obtain ⟨expands, fills⟩ :=
    expandConditions_marks 1 allows_placingThree made rfl positional_threePlaced
  obtain ⟨after, done⟩ := expands _ _ elements
  refine ⟨allows_placingThree, rfl, positional_threePlaced, ?_, after, done⟩
  rw [fills]
  rintro (none' | ⟨none', -⟩) <;> cases none'

end WorkspaceM
end WhereClause
