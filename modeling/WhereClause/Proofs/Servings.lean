import WhereClause.Proofs.Sketches

/-!
# Servings

The conditions of a tree under the default settings, while it is built and once it is compiled. A
membership test mentions a member of the tree's roster, and compiling serves the elements of that
member in its place. Several members in one place, which only positional ones are, are all served
the elements of the last.

* `rewriting_value`: what compiling does to a condition.
* `mem_serving`, `exists_serving`: what is served are the elements of the members, and of named
  members all of them.
-/

namespace WhereClause

/-- A text that can hold no placeholder, named or positional. -/
structure Text.Bare (s : String) : Prop where
  colon : ':' ∉ s.toList
  mark : '?' ∉ s.toList

namespace Template

variable {target place : Piece} {text before after : Template}

theorem replace_append_of_notMem (absent : target ∉ before) (t : Template) :
    replace target text (before ++ t) = before ++ replace target text t := by
  induction before with
  | nil => rfl
  | cons p before ih =>
      obtain ⟨other, later⟩ := List.ne_and_not_mem_of_not_mem_cons absent
      rw [List.cons_append, replace, if_neg fun here => other here.1.symm, ih later,
        List.cons_append]

theorem replace_of_notMem {t : Template} (absent : target ∉ t) : replace target text t = t := by
  have whole : replace target text (t ++ []) = t ++ replace target text [] :=
    replace_append_of_notMem absent []
  rwa [List.append_nil, replace, List.append_nil] at whole

theorem rewrite_of_notMem {replacements : List (Piece × Template)} {t : Template}
    (absent : ∀ replaced ∈ replacements, replaced.1 ∉ t) : rewrite replacements t = t := by
  induction replacements with
  | nil => rfl
  | cons replaced rest ih =>
      obtain ⟨here, later⟩ := List.forall_mem_cons.mp absent
      rw [rewrite, List.foldl_cons]
      simp only [replace_of_notMem here]
      exact ih later

/-- Where one place is to be replaced and nothing else, that is all that happens. -/
theorem rewrite_place {replacements : Table Piece Template}
    (distinct : (Table.keys replacements).Nodup) (given : (place, text) ∈ replacements)
    (clear : ∀ replaced ∈ replacements,
      replaced.1 ∉ before ∧ replaced.1 ∉ text ∧ replaced.1 ∉ after)
    (ends' : ends after = true) :
    rewrite replacements (before ++ place :: after) = before ++ (text ++ after) := by
  induction replacements with
  | nil => cases given
  | cons replaced rest ih =>
      obtain ⟨target, text'⟩ := replaced
      obtain ⟨here, later⟩ := List.forall_mem_cons.mp clear
      rw [Table.keys, List.map_cons, List.nodup_cons] at distinct
      rw [rewrite, List.foldl_cons]
      simp only [replace_append_of_notMem here.1]
      rcases List.mem_cons.mp given with same | member
      · -- the keys are distinct, and what is put there is left alone by the other entries
        cases same
        rw [replace, if_pos ⟨rfl, ends'⟩, replace_of_notMem here.2.2]
        apply rewrite_of_notMem
        intro other known
        simp only [List.mem_append, not_or]
        exact later other known
      · have other : place ≠ target := by
          rintro rfl
          exact distinct.1 (List.mem_map.mpr ⟨_, member, rfl⟩)
        rw [replace, if_neg fun same => other same.1, replace_of_notMem here.2.2]
        exact ih distinct.2 member later

end Template

/-! ## What is served -/

namespace Forest

variable (forest : Forest) (settings : Settings)

/-- The members, each with the seats of its elements. -/
def servings (number : Nat) : List Seat → List (Seat × List Seat)
  | [] => []
  | member :: rest =>
    let here := forest.seatsOf settings number member
    (member, here) :: servings (number + here.length) rest

theorem fst_servings (number : Nat) (members : List Seat) :
    (forest.servings settings number members).map Prod.fst = members := by
  induction members generalizing number with
  | nil => rfl
  | cons member rest ih => rw [servings, List.map_cons, ih]

theorem seating_eq (number : Nat) (members : List Seat) :
    forest.seating settings number members =
      (forest.servings settings number members).flatMap Prod.snd := by
  induction members generalizing number with
  | nil => rfl
  | cons member rest ih => rw [seating, servings, List.flatMap_cons, ih]

theorem exchanges_eq (own number : Nat) (members : List Seat) :
    forest.exchanges settings own number members =
      (forest.servings settings number members).map fun (member, seats) =>
        (member.piece own, .separated own seats) := by
  induction members generalizing number with
  | nil => rfl
  | cons member rest ih => rw [exchanges, servings, List.map_cons, ih]

end Forest

namespace Roster

variable (forest : Forest) (settings : Settings) (roster : Roster)

/-- The places of the members, each with what is served there. -/
def swaps : Table Piece (List Seat) :=
  Table.putAll ((forest.servings settings roster.count roster.members).map fun (member, seats) =>
    (member.piece roster.own, seats)) []

/-- What is served in the place of a member. -/
def serving (member : Seat) : List Seat :=
  (Table.get? (member.piece roster.own) (roster.swaps forest settings)).getD []

variable {forest settings roster}

theorem exchanged_eq : roster.exchanged forest settings =
    (roster.swaps forest settings).map (Prod.map id (Template.separated roster.own)) := by
  let pairs := (forest.servings settings roster.count roster.members).map
    fun (member, seats) => (member.piece roster.own, seats)
  have same : Table.putAll (pairs.map (Prod.map id (Template.separated roster.own))) [] =
      (Table.putAll pairs []).map (Prod.map id (Template.separated roster.own)) :=
    Table.putAll_map (p := fun _ => True) (fun _ _ _ _ same => same) (fun _ _ => trivial) [] nofun
  rw [exchanged, Forest.exchanges_eq, swaps, ← same, List.map_map]
  rfl

theorem mem_swaps (forest : Forest) (settings : Settings) {member : Seat}
    (known : member ∈ roster.members) :
    (member.piece roster.own, roster.serving forest settings member) ∈
        roster.swaps forest settings ∧
      ∃ other, (other, roster.serving forest settings member) ∈
        forest.servings settings roster.count roster.members := by
  have key : member.piece roster.own ∈ Table.keys
      ((forest.servings settings roster.count roster.members).map fun (member, seats) =>
        (member.piece roster.own, seats)) := by
    rw [← forest.fst_servings settings roster.count roster.members] at known
    obtain ⟨served, inside, rfl⟩ := List.mem_map.mp known
    exact List.mem_map.mpr ⟨_, List.mem_map_of_mem inside, rfl⟩
  obtain ⟨seats, found, given⟩ := Table.exists_get?_putAll key
  have serving : roster.serving forest settings member = seats := by
    rw [Roster.serving, swaps, found, Option.getD_some]
  obtain ⟨⟨other, _⟩, inside, same⟩ := List.mem_map.mp given
  cases congrArg Prod.snd same
  rw [serving]
  exact ⟨Table.mem_of_get? found, other, inside⟩

theorem mem_serving {member seat : Seat} (known : member ∈ roster.members)
    (served : seat ∈ roster.serving forest settings member) :
    seat ∈ roster.seats forest settings := by
  obtain ⟨-, other, inside⟩ := mem_swaps forest settings known
  rw [seats, Forest.seating_eq, List.mem_flatMap]
  exact ⟨_, inside, served⟩

theorem nodup_pieces (sound : roster.Sound settings)
    (named : ∀ member ∈ roster.members, member.named = true) :
    (roster.members.map (Seat.piece roster.own)).Nodup := by
  have pieces : roster.members.map (Seat.piece roster.own) =
      (roster.members.map Seat.number).map fun number => .slot ⟨roster.own, number⟩ := by
    rw [List.map_map]
    refine List.map_congr_left fun member known => ?_
    rw [Seat.piece, if_pos (named member known)]
    rfl
  rw [pieces]
  exact sound.distinct.map fun _ _ same => (Slot.mk.inj (Piece.slot.inj same)).2

theorem exists_serving (sound : roster.Sound settings)
    (named : ∀ member ∈ roster.members, member.named = true) {seat : Seat}
    (member : seat ∈ roster.seats forest settings) :
    ∃ m ∈ roster.members, seat ∈ roster.serving forest settings m := by
  rw [seats, Forest.seating_eq, List.mem_flatMap] at member
  obtain ⟨⟨m, served⟩, inside, member⟩ := member
  have known : m ∈ roster.members := by
    rw [← forest.fst_servings settings roster.count roster.members]
    exact List.mem_map_of_mem inside
  have keys : Table.keys ((forest.servings settings roster.count roster.members).map
      fun (member, seats) => (member.piece roster.own, seats)) =
      roster.members.map (Seat.piece roster.own) := by
    conv_rhs => rw [← forest.fst_servings settings roster.count roster.members]
    simp only [Table.keys, List.map_map]
    rfl
  have distinct := nodup_pieces sound named
  rw [← keys] at distinct
  have same : roster.swaps forest settings = (forest.servings settings roster.count
      roster.members).map fun (member, seats) => (member.piece roster.own, seats) :=
    Table.putAll_of_nodup [] distinct
  refine ⟨m, known, ?_⟩
  rw [serving, same, Table.get?_of_mem distinct (List.mem_map_of_mem inside)]
  exact member

end Roster

/-! ## Conditions -/

/-- A condition of a tree: a text, a membership test that mentions a member, or a node. -/
inductive Condition
  | raw (s : String)
  | test (key : Key) (member : Seat)
  | node (id : NodeId)

theorem Settings.regular_default : Settings.Regular {} where
  stem := ⟨by decide, by decide⟩
  mark := rfl
  separator := rfl

namespace Seat

/-- The placeholder of a seat, when counting of identifiers starts at zero. -/
def name (own : Nat) (seat : Seat) : String := (seat.piece own).text "c" 0

theorem name_of_named {seat : Seat} (named : seat.named = true) (own : Nat) :
    seat.name own = mention own seat.number := by
  rw [name, text_piece, if_pos named, mention, ← Binder.synthesized_eq {} 0 own, Nat.zero_add]

theorem nextName_eq {b : Binder} {own number : Nat} {field : String} (noColon : ':' ∉ field.toList)
    (identifier : b.identifier = toString own) (count : b.count = number) (value : Value)
    (type : Option String) :
    b.nextName {} field = name own ⟨number, !isNumeral field, value, type⟩ := by
  have next : b.nextName {} field = (pieceFor own number field).text "c" 0 :=
    nextName_eq_text Settings.regular_default noColon (by rw [identifier, Nat.zero_add]) count
  rw [next, name, piece, pieceFor]
  cases isNumeral field <;> rfl

end Seat

theorem mark_notMem_mention (own number : Nat) : '?' ∉ (mention own number).toList := by
  rw [toList_mention]
  have digits (n : Nat) : '?' ∉ Nat.toDigits 10 n :=
    Text.notMem_of_digits (by decide) fun _ => Text.isDigit_of_toDigits
  simp [digits]

namespace Condition

def value (own : Nat) : Condition → Value
  | raw s => .text s
  | test key member => .text (key.membership (member.name own))
  | node id => .node id

/-- The condition with what is served in the place of its member. -/
def served (own : Nat) (serving : Seat → List Seat) : Condition → Value
  | raw s => .text s
  | test key member =>
    .text (key.membership (", ".intercalate ((serving member).map (Seat.name own))))
  | node id => .node id

def member? : Condition → Option Seat
  | test _ member => some member
  | raw _ | node _ => none

/-- No text in the condition can hold a placeholder, and the member is positional if the field is a
number, which may be excluded. -/
def Fits (named : Prop) : Condition → Prop
  | raw s => Text.Bare s
  | test key member => Text.Bare key.field ∧ Text.Bare key.operator ∧
      member.named = !isNumeral key.field ∧ (named → member.named = true)
  | node _ => True

end Condition

section

variable {forest : Forest} {roster : Roster}

theorem target_notMem_ofText {place : Piece} (target : Template.Target place) {s : List Char}
    (mark : '?' ∉ s) : place ∉ Template.ofText s := by
  intro member
  obtain ⟨c, inside, same⟩ := List.mem_map.mp member
  cases target with
  | slot slot => cases same
  | mark =>
      cases same
      exact mark inside

theorem mem_separated {own : Nat} {seats : List Seat} {place : Piece}
    (member : place ∈ Template.separated own seats) (target : Template.Target place) :
    ∃ seat ∈ seats, place = seat.piece own := by
  induction seats with
  | nil => cases member
  | cons seat rest ih =>
      rw [Template.separated, List.map_cons] at member
      cases rest with
      | nil =>
          rw [List.map_nil, Template.between, List.mem_singleton] at member
          exact ⟨seat, List.mem_cons_self, member⟩
      | cons next rest =>
          rw [List.map_cons, Template.between, List.mem_append, List.mem_singleton,
            List.mem_append] at member
          rcases member with here | glue | later
          · exact ⟨seat, List.mem_cons_self, here⟩
          · exact absurd glue (target_notMem_ofText target (by decide))
          · obtain ⟨other, inside, same⟩ := ih (by rwa [Template.separated, List.map_cons])
            exact ⟨other, List.mem_cons_of_mem _ inside, same⟩

theorem target_notMem_separated (sound : roster.Sound {}) {member other : Seat}
    (known : member ∈ roster.members) (known' : other ∈ roster.members) :
    other.piece roster.own ∉
      Template.separated roster.own (roster.serving forest {} member) := by
  intro inside
  obtain ⟨seat, served, same⟩ := mem_separated inside other.target_piece
  obtain ⟨low, named⟩ := Roster.mem_seating (Roster.mem_serving known served)
  have below := sound.below other known'
  rw [Seat.piece, Seat.piece, if_pos named] at same
  split at same
  · have numbers : other.number = seat.number := (Slot.mk.inj (Piece.slot.inj same)).2
    omega
  · cases same

theorem mem_exchanged {replaced : Piece × Template}
    (member : replaced ∈ roster.exchanged forest {}) :
    ∃ m ∈ roster.members, replaced.1 = m.piece roster.own := by
  have given := (Table.mem_putAll member).resolve_right nofun
  rw [Forest.exchanges_eq, List.mem_map] at given
  obtain ⟨⟨m, seats⟩, inside, rfl⟩ := given
  refine ⟨m, ?_, rfl⟩
  rw [← forest.fst_servings {} roster.count roster.members]
  exact List.mem_map_of_mem inside

theorem rewriteText_bare (forest : Forest) (sound : roster.Sound {}) {s : String}
    (bare : Text.Bare s) : (roster.binder "c" 0).rewriteText forest {} s = s := by
  have rewritten := Roster.rewriteText_binder forest Settings.regular_default sound 0
    (Template.formed_ofText bare.colon)
  rw [Template.rewrite_of_notMem, Template.fill_ofText, String.ofList_toList] at rewritten
  · exact rewritten
  · intro replaced member
    exact target_notMem_ofText (Roster.fits_exchanged forest {} roster replaced member).target
      bare.mark

theorem rewriteText_test (forest : Forest) (sound : roster.Sound {}) {key : Key}
    (field : Text.Bare key.field) (operator : Text.Bare key.operator) {member : Seat}
    (known : member ∈ roster.members) :
    (roster.binder "c" 0).rewriteText forest {} (key.membership (member.name roster.own)) =
      key.membership
        (", ".intercalate ((roster.serving forest {} member).map (Seat.name roster.own))) := by
  have formed : Template.Formed (key.membershipAt (member.piece roster.own)) :=
    Key.NoColon.formed ⟨field.colon, operator.colon⟩ member.target_piece
  have rewritten := Roster.rewriteText_binder forest Settings.regular_default sound 0 formed
  have opening : '?' ∉ key.opening := by simp [Key.opening, field.mark, operator.mark]
  have given : (member.piece roster.own,
      Template.separated roster.own (roster.serving forest {} member)) ∈
      roster.exchanged forest {} := by
    rw [Roster.exchanged_eq]
    exact List.mem_map_of_mem (Roster.mem_swaps forest {} known).1
  have distinct : (Table.keys (roster.exchanged forest {})).Nodup := Table.nodup_putAll .nil
  rw [Key.membershipAt, Template.rewrite_place distinct given _ rfl,
    ← Key.membershipAt, fill_membershipAt] at rewritten
  · have places : String.ofList (Template.fill "c" 0 (.separated roster.own
        (roster.serving forest {} member))) =
        ", ".intercalate ((roster.serving forest {} member).map (Seat.name roster.own)) :=
      Roster.fill_separated "c" 0 roster.own _
    refine rewritten.trans ?_
    rw [← String.toList_inj, toList_membership, ← places]
    simp [Piece.fill]
  · intro replaced member'
    obtain ⟨other, known', same⟩ := mem_exchanged member'
    have target := (Roster.fits_exchanged forest {} roster replaced member').target
    refine ⟨target_notMem_ofText target opening, ?_, ?_⟩
    · rw [same]
      exact target_notMem_separated sound known known'
    · exact target_notMem_ofText (s := [')']) target (by decide)

/-- Compiling serves the elements of the members in their places, and changes nothing else. -/
theorem rewriting_value (forest : Forest) (sound : roster.Sound {}) {named : Prop}
    {condition : Condition} (fits : condition.Fits named)
    (known : ∀ member ∈ condition.member?, member ∈ roster.members) :
    (roster.binder "c" 0).rewriting forest {} (condition.value roster.own) =
      condition.served roster.own (roster.serving forest {}) := by
  cases condition with
  | raw s => rw [Condition.value, Binder.rewriting_raw, rewriteText_bare forest sound fits]; rfl
  | test key member =>
      rw [Condition.value, Binder.rewriting_raw,
        rewriteText_test forest sound fits.1 fits.2.1 (known member rfl)]
      rfl
  | node id => rw [Condition.value, Binder.rewriting_node]; rfl

end
end WhereClause
