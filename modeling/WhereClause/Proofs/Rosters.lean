import WhereClause.Proofs.Fields
import WhereClause.Proofs.Members
import WhereClause.Proofs.Templates

/-!
# Rosters

A roster is what the binder of a tree holds while the tree is built: the members of the membership
tests, each with its number, named or positional. Compiling gives every element of every member a
name of its own, under numbers from the count of the roster on. What this does to a text is what
replacing the places of the members does to a template, wherever counting of identifiers starts.

* `registered_binder`: registering adds a member.
* `final_binder`: the bindings of a tree once it is compiled.
* `rewriteText_binder`: what compiling does to a text.
-/

namespace WhereClause

/-! ## Names -/

/-- The settings under which names can be told from what stands around them. -/
structure Settings.Regular (settings : Settings) : Prop where
  stem : Template.Stem settings.placeholderStem
  mark : settings.positionalMark = "?"
  separator : settings.arraySeparator = ", "

def Piece.text (stem : String) (first : Nat) (p : Piece) : String :=
  String.ofList (p.fill stem first)

/-- The piece for a field whose placeholder is handed out under a number. -/
def pieceFor (own number : Nat) (field : String) : Piece :=
  if isNumeral field then .char '?' else .slot ⟨own, number⟩

section Names

variable {settings : Settings} {stem : String} {first own number : Nat} {b : Binder}

theorem Piece.text_slot (slot : Slot) :
    (Piece.slot slot).text stem first = slot.name stem first := by
  rw [Piece.text, Piece.fill, String.ofList_toList]

theorem target_pieceFor (own number : Nat) (field : String) :
    Template.Target (pieceFor own number field) := by
  unfold pieceFor
  split
  · exact .mark
  · exact .slot _

theorem Binder.synthesized_eq (settings : Settings) (first own number : Nat) :
    synthesized settings (toString (first + own)) number =
      Slot.name settings.placeholderStem first ⟨own, number⟩ := by
  simp only [synthesized, Slot.name, Slot.fragment, String.append_assoc]

theorem nextName_eq_text (regular : settings.Regular) {field : String}
    (noColon : ':' ∉ field.toList)
    (identifier : b.identifier = toString (first + own)) (count : b.count = number) :
    b.nextName settings field =
      (pieceFor own number field).text settings.placeholderStem first := by
  have head : (field.toList.head? == some ':') = false := by
    rw [beq_eq_false_iff_ne]
    exact fun start => noColon (List.mem_of_head? start)
  simp only [Binder.nextName, Binder.next, Binder.nameFor, Value.isNumeric, pieceFor, head,
    Bool.false_eq_true, if_false, identifier, count, Binder.synthesized_eq, regular.mark]
  split
  · rfl
  · rw [Piece.text_slot]

theorem underscore_fragment (stem : String) (first : Nat) (slot : Slot) :
    '_' ∈ (slot.fragment stem first).toList := by
  simp [Slot.fragment]

theorem colon_fragment (fit : Template.Stem stem) (slot : Slot) :
    ':' ∉ (slot.fragment stem first).toList := by
  have digits := Text.notMem_of_digits (c := ':') (by decide)
    (Slot.isDigit_identifier (first + slot.own))
  have number : ':' ∉ Text.numeral slot.number :=
    Text.notMem_numeral (by decide) (by decide) slot.number
  simp only [Slot.fragment, String.toList_append, List.mem_append, fit.colon, digits, false_or]
  simpa [Text.numeral] using number

theorem fragmentOf_name (slot : Slot) :
    fragmentOf (slot.name stem first) = slot.fragment stem first := by
  simp [fragmentOf, Slot.name]

theorem withoutFirst_name (slot : Slot) :
    withoutFirst (slot.name stem first) = slot.fragment stem first := by
  simp [withoutFirst, Slot.name]

end Names

/-! ## Seats -/

/-- A binding with its number in a binder; one that is not named is positional. -/
structure Seat where
  number : Nat
  named : Bool
  value : Value
  type : Option String

namespace Seat

variable (stem : String) (first own : Nat)

def piece (seat : Seat) : Piece := if seat.named then .slot ⟨own, seat.number⟩ else .char '?'

def binding (seat : Seat) : Binding :=
  ⟨if seat.named then Slot.fragment stem first ⟨own, seat.number⟩ else "", seat.value, seat.type⟩

def entry (seat : Seat) : Int × Binding := (seat.number, seat.binding stem first own)

variable {stem first own}

theorem target_piece (seat : Seat) : Template.Target (seat.piece own) := by
  unfold piece
  split
  · exact .slot _
  · exact .mark

theorem text_piece (seat : Seat) :
    (seat.piece own).text stem first =
      if seat.named then Slot.name stem first ⟨own, seat.number⟩ else "?" := by
  unfold piece
  split
  · rw [Piece.text_slot]
  · rfl

theorem isEmpty_fragment (slot : Slot) : (slot.fragment stem first).isEmpty = false := by
  rw [← Bool.not_eq_true, String.isEmpty_iff]
  intro empty
  have member := underscore_fragment stem first slot
  simp [empty] at member

theorem isNamed_binding (seat : Seat) : (seat.binding stem first own).isNamed = seat.named := by
  unfold binding BindingOf.isNamed
  cases seat.named
  · rfl
  · simp only [if_true, isEmpty_fragment, Bool.not_false]

theorem placeholder_binding {settings : Settings} (mark : settings.positionalMark = "?")
    (seat : Seat) :
    (seat.binding stem first own).placeholder settings = (seat.piece own).text stem first := by
  rw [text_piece, binding, BindingOf.placeholder]
  cases seat.named
  · exact mark
  · simp only [if_true, isEmpty_fragment, Bool.false_eq_true, if_false]
    rfl

end Seat

/-- Seats for values of one type, all named, under the numbers from one on. -/
def seatAll (type : Option String) (number : Nat) : List Value → List Seat
  | [] => []
  | v :: rest => ⟨number, true, v, type⟩ :: seatAll type (number + 1) rest

namespace Forest

variable (forest : Forest) (settings : Settings)

/-- The seats for the elements of a member. -/
def seatsOf (number : Nat) (member : Seat) : List Seat :=
  seatAll (member.type.map settings.unmarked) number (forest.elements member.value)

/-- The seats for the elements of members, one member after the other. -/
def seating (number : Nat) : List Seat → List Seat
  | [] => []
  | member :: rest =>
    let here := forest.seatsOf settings number member
    here ++ seating (number + here.length) rest

end Forest

/-- The places of seats, separated as the elements of a membership test are. -/
def Template.separated (own : Nat) (seats : List Seat) : Template :=
  between [',', ' '] (seats.map fun seat => [seat.piece own])

/-- What takes the places of members: the places of their elements. -/
def Forest.exchanges (forest : Forest) (settings : Settings) (own number : Nat) :
    List Seat → List (Piece × Template)
  | [] => []
  | member :: rest =>
    let here := forest.seatsOf settings number member
    (member.piece own, .separated own here) ::
      forest.exchanges settings own (number + here.length) rest

/-! ## The binder of a roster -/

/-- The members of a tree, under numbers below the count. -/
structure Roster where
  own : Nat
  count : Nat := 0
  members : List Seat := []

namespace Roster

/-- The binder that holds the members, when counting of identifiers starts at one. -/
def binder (stem : String) (first : Nat) (roster : Roster) : Binder where
  identifier := toString (first + roster.own)
  count := roster.count
  bindings := roster.members.map (Seat.entry stem first roster.own)
  expands := !roster.members.isEmpty

/-- Members have numbers of their own below the count, and types that say that they have several
elements. -/
structure Sound (settings : Settings) (roster : Roster) : Prop where
  below : ∀ member ∈ roster.members, member.number < roster.count
  distinct : (roster.members.map Seat.number).Nodup
  multi : ∀ member ∈ roster.members, member.type.any settings.marks = true

def join (named : Bool) (value : Value) (type : Option String) (roster : Roster) : Roster where
  own := roster.own
  count := roster.count + 1
  members := roster.members ++ [⟨roster.count, named, value, type⟩]

variable {settings : Settings} {stem : String} {roster : Roster}

theorem sound_empty (settings : Settings) (own count : Nat) :
    Sound settings ⟨own, count, []⟩ := ⟨nofun, .nil, nofun⟩

theorem Sound.join (sound : roster.Sound settings) (named : Bool) (value : Value)
    {type : Option String} (marked : type.any settings.marks = true) :
    (roster.join named value type).Sound settings where
  below member known := by
    rcases List.mem_append.mp known with before | last
    · exact (sound.below member before).trans (Nat.lt_succ_self _)
    · rw [List.mem_singleton.mp last]
      exact Nat.lt_succ_self _
  distinct := by
    rw [Roster.join, List.map_append, List.nodup_append]
    refine ⟨sound.distinct, List.nodup_singleton _, ?_⟩
    intro number before other last
    obtain ⟨member, known, rfl⟩ := List.mem_map.mp before
    rw [List.map_singleton, List.mem_singleton] at last
    rw [last]
    exact (sound.below member known).ne
  multi member known := by
    rcases List.mem_append.mp known with before | last
    · exact sound.multi member before
    · rw [List.mem_singleton.mp last]
      exact marked

/-- A member can be registered once more numbers were handed out. -/
theorem Sound.spend (sound : roster.Sound settings) (more : Nat) :
    Sound settings { roster with count := roster.count + more } :=
  ⟨fun member known => (sound.below member known).trans_le (Nat.le_add_right ..), sound.distinct,
    sound.multi⟩

theorem put_entry (sound : roster.Sound settings) (first : Nat) (binding : Binding) :
    Table.put (roster.count : Int) binding
        (roster.members.map (Seat.entry stem first roster.own)) =
      roster.members.map (Seat.entry stem first roster.own) ++
        [((roster.count : Int), binding)] := by
  apply Table.put_of_not_mem
  intro known
  obtain ⟨_, entry, same⟩ := List.mem_map.mp known
  obtain ⟨member, inside, rfl⟩ := List.mem_map.mp entry
  have less := sound.below member inside
  have equal : (member.number : Int) = roster.count := same
  omega

theorem fragmentOf_text_pieceFor (stem : String) (first own number : Nat) (field : String) :
    fragmentOf ((pieceFor own number field).text stem first) =
      if isNumeral field then "" else Slot.fragment stem first ⟨own, number⟩ := by
  unfold pieceFor
  split
  · rw [Piece.text, Piece.fill, fragmentOf, String.toList_ofList]
    rfl
  · rw [Piece.text_slot, fragmentOf_name]

/-- Registering hands out the name for the field and adds a member under the count. -/
theorem registered_binder (regular : settings.Regular) (sound : roster.Sound settings) (first : Nat)
    {field : String} (noColon : ':' ∉ field.toList) (value : Value) (type : Option String)
    (marked : type.any settings.marks = true) :
    (roster.binder settings.placeholderStem first).registered settings field value
        (.ofText? type) =
      (roster.join (!isNumeral field) value type).binder settings.placeholderStem first := by
  have name : (roster.binder settings.placeholderStem first).nextName settings field = _ :=
    nextName_eq_text regular noColon rfl rfl
  have multi (fragment : String) :
      (⟨fragment, value, type⟩ : Binding).isMulti settings = true := marked
  rw [Binder.registered_eq, name]
  dsimp only
  rw [fragmentOf_text_pieceFor]
  simp only [binder, multi, put_entry sound, Bool.or_true, join, List.map_append, List.map_cons,
    List.map_nil, Seat.entry, Seat.binding, Binder.mk.injEq]
  refine ⟨trivial, by push_cast; rfl, ?_, ?_, by simp⟩
  · cases isNumeral field <;> rfl
  · simp [Table.put, Table.erase]

/-- The binder of a comparison binds one value. -/
theorem bindings_registered_fresh (regular : settings.Regular) (first own : Nat) {field : String}
    (noColon : ':' ∉ field.toList) (value : Value) (type : Option String) :
    ((Binder.fresh (first + own)).registered settings field value (.ofText? type)).bindings =
      [(Seat.mk 0 (!isNumeral field) value type).entry settings.placeholderStem first own] := by
  have name : (Binder.fresh (first + own)).nextName settings field = _ :=
    nextName_eq_text regular noColon rfl rfl
  rw [Binder.registered_eq, name]
  dsimp only
  rw [fragmentOf_text_pieceFor, Seat.entry, Seat.binding]
  cases isNumeral field <;> rfl

/-! ## Expanding -/

section
variable {number own first : Nat} {b : Binder} {token : String} {forest : Forest}

theorem reserveEach_seatAll (regular : settings.Regular) (numeral : isNumeral token = false)
    (noColon : ':' ∉ token.toList) (type : Option String) (vs : List Value)
    (identifier : b.identifier = toString (first + own)) (count : b.count = number) :
    let made := (Expansion.reserveEach settings (.text token) vs b).1
    let seats := seatAll type number vs
    made.map (·.1.name) = seats.map (fun seat =>
        (seat.piece own).text settings.placeholderStem first) ∧
      made.map (fun (reservation, v) =>
        (reservation.number, (⟨withoutFirst reservation.name, v, type⟩ : Binding))) =
        seats.map (Seat.entry settings.placeholderStem first own) := by
  induction vs generalizing number b with
  | nil => exact ⟨rfl, rfl⟩
  | cons v rest ih =>
      have name : (b.reserve settings (.text token) false).1.name =
          Slot.name settings.placeholderStem first ⟨own, number⟩ := by
        have next := nextName_eq_text regular noColon identifier count
        rwa [pieceFor, numeral, if_neg Bool.false_ne_true, Piece.text_slot] at next
      have count' : (b.reserve settings (.text token) false).2.count = (number + 1 : Nat) := by
        rw [Binder.count_reserve, count]
        push_cast
        rfl
      obtain ⟨names, entries⟩ := ih (b := (b.reserve settings (.text token) false).2)
        (by rw [Binder.identifier_reserve, identifier]) count'
      constructor
      · simp only [Expansion.reserveEach, List.map_cons, seatAll, names, name, Seat.text_piece,
          if_true]
      · simp only [Expansion.reserveEach, List.map_cons, seatAll, entries, name,
          Binder.number_reserve, count, withoutFirst_name, Seat.entry, Seat.binding, if_true]

theorem length_seatAll (type : Option String) (number : Nat) (vs : List Value) :
    (seatAll type number vs).length = vs.length := by
  induction vs generalizing number with
  | nil => rfl
  | cons v rest ih => rw [seatAll, List.length_cons, ih, List.length_cons]

theorem fill_separated (stem : String) (first own : Nat) (seats : List Seat) :
    String.ofList (Template.fill stem first (.separated own seats)) =
      ", ".intercalate (seats.map fun seat => (seat.piece own).text stem first) := by
  have places := Template.fill_between stem first ", " (seats.map fun seat => [seat.piece own])
  rw [List.map_map] at places
  refine places.trans (congrArg _ (List.map_congr_left fun seat _ => ?_))
  rw [Function.comp_apply, Template.fill_cons, Template.fill_nil, List.append_nil, Piece.text]

/-- A member whose binding has an empty fragment is expanded by names that are made up too. -/
theorem isNumeral_fragment (fit : Template.Stem settings.placeholderStem) (first own : Nat)
    (member : Seat) :
    let token := (member.binding settings.placeholderStem first own).fragment
    isNumeral token = false ∧ ':' ∉ token.toList := by
  unfold Seat.binding
  cases member.named with
  | false =>
      have empty : isNumeral "" = false := by decide +kernel
      exact ⟨empty, List.not_mem_nil⟩
  | true =>
      exact ⟨Numeral.not_isNumeral_of_mem (by decide) (underscore_fragment _ _ _),
        colon_fragment fit _⟩

theorem ofBindings_seats (forest : Forest) (regular : settings.Regular) {members : List Seat}
    (multi : ∀ member ∈ members, member.type.any settings.marks = true)
    (identifier : b.identifier = toString (first + own)) (count : b.count = number) :
    let made := (Expansion.ofBindings forest settings
      (members.map (Seat.entry settings.placeholderStem first own)) b).1
    made.kept = [] ∧
      made.added = (forest.seating settings number members).map
        (Seat.entry settings.placeholderStem first own) ∧
      made.replaced = (forest.exchanges settings own number members).map
        (Template.fillPair settings.placeholderStem first) := by
  induction members generalizing number b with
  | nil => exact ⟨rfl, rfl, rfl⟩
  | cons member rest ih =>
      obtain ⟨here, others⟩ := List.forall_mem_cons.mp multi
      have several : (member.binding settings.placeholderStem first own).isMulti settings = true :=
        here
      obtain ⟨numeral, noColon⟩ := isNumeral_fragment regular.stem first own member
      obtain ⟨names, entries⟩ := reserveEach_seatAll regular numeral noColon
        (member.type.map settings.unmarked) (forest.elements member.value) identifier count
      have placeholder : (member.binding settings.placeholderStem first own).placeholder settings =
          (member.piece own).text settings.placeholderStem first :=
        member.placeholder_binding regular.mark
      have advanced := Expansion.reserveEach_binder settings
        (.text (member.binding settings.placeholderStem first own).fragment)
        (forest.elements member.value) b
      rw [← length_seatAll (member.type.map settings.unmarked) number] at advanced
      rw [List.map_cons, Seat.entry]
      have value : (member.binding settings.placeholderStem first own).value = member.value := rfl
      have type : (member.binding settings.placeholderStem first own).elementType settings =
          member.type.map settings.unmarked := rfl
      simp only [Expansion.ofBindings, several, if_true, value]
      generalize Expansion.reserveEach settings
        (.text (member.binding settings.placeholderStem first own).fragment)
        (forest.elements member.value) b = made at names entries advanced
      have identifier' : made.2.identifier = toString (first + own) := by rw [advanced, identifier]
      have count' : made.2.count =
          (number + (forest.seatsOf settings number member).length : Nat) := by
        rw [advanced, count, Forest.seatsOf]
        push_cast
        rfl
      obtain ⟨kept, added, replaced⟩ := ih others identifier' count'
      simp only [Expansion.addMulti, kept, added, replaced, names, placeholder, type, entries,
        Forest.seating, Forest.exchanges, List.map_append, List.map_cons, Template.fillPair,
        fill_separated, regular.separator]
      exact ⟨trivial, rfl, rfl⟩

end

/-! ## Compiled -/

section
variable {forest : Forest}

/-- The elements of the members, as a tree has them once it is compiled. -/
def seats (forest : Forest) (settings : Settings) (roster : Roster) : List Seat :=
  forest.seating settings roster.count roster.members

/-- What compiling puts into the places of members. Of several members in one place, the last. -/
def exchanged (forest : Forest) (settings : Settings) (roster : Roster) :
    List (Piece × Template) :=
  Table.putAll (forest.exchanges settings roster.own roster.count roster.members) []

theorem mem_seatAll {type : Option String} {number : Nat} {vs : List Value} {seat : Seat}
    (member : seat ∈ seatAll type number vs) :
    number ≤ seat.number ∧ seat.number < number + vs.length ∧ seat.named = true := by
  induction vs generalizing number with
  | nil => cases member
  | cons v rest ih =>
      rw [List.length_cons]
      rcases List.mem_cons.mp member with rfl | later
      · exact ⟨Nat.le_refl _, Nat.lt_add_of_pos_right (Nat.succ_pos _), rfl⟩
      · obtain ⟨low, high, named⟩ := ih later
        exact ⟨by omega, by omega, named⟩

theorem nodup_seatAll (type : Option String) (number : Nat) (vs : List Value) :
    ((seatAll type number vs).map Seat.number).Nodup := by
  induction vs generalizing number with
  | nil => exact .nil
  | cons v rest ih =>
      rw [seatAll, List.map_cons, List.nodup_cons]
      refine ⟨fun member => ?_, ih (number + 1)⟩
      obtain ⟨seat, inside, same⟩ := List.mem_map.mp member
      have low := (mem_seatAll inside).1
      simp only at same
      omega

theorem mem_seating {number : Nat} {members : List Seat} {seat : Seat}
    (member : seat ∈ forest.seating settings number members) :
    number ≤ seat.number ∧ seat.named = true := by
  induction members generalizing number with
  | nil => cases member
  | cons first rest ih =>
      rcases List.mem_append.mp member with here | later
      · obtain ⟨low, -, named⟩ := mem_seatAll here
        exact ⟨low, named⟩
      · obtain ⟨low, named⟩ := ih later
        exact ⟨by omega, named⟩

theorem nodup_seating (forest : Forest) (settings : Settings) (number : Nat) (members : List Seat) :
    ((forest.seating settings number members).map Seat.number).Nodup := by
  induction members generalizing number with
  | nil => exact .nil
  | cons first rest ih =>
      simp only [Forest.seating]
      rw [List.map_append, List.nodup_append]
      refine ⟨nodup_seatAll .., ih _, ?_⟩
      intro n here other later same
      obtain ⟨seat, inside, rfl⟩ := List.mem_map.mp here
      obtain ⟨seat', inside', rfl⟩ := List.mem_map.mp later
      have high := (mem_seatAll inside).2.1
      have low := (mem_seating inside').1
      rw [Forest.seatsOf, length_seatAll] at low
      omega

/-- The bindings of a tree once it is compiled are those of the elements. -/
theorem final_binder (forest : Forest) (regular : settings.Regular)
    (sound : roster.Sound settings) (first : Nat) :
    (roster.binder settings.placeholderStem first).final forest settings =
      (roster.seats forest settings).map
        (Seat.entry settings.placeholderStem first roster.own) := by
  have identifier : (roster.binder settings.placeholderStem first).identifier =
      toString (first + roster.own) := rfl
  obtain ⟨kept, added, -⟩ := ofBindings_seats forest regular sound.multi identifier rfl
  rw [Binder.final]
  split
  · rw [Binder.expand, Expansion.bindings]
    simp only [binder] at kept added ⊢
    rw [kept, added, Table.putAll_of_nodup, List.nil_append]
    · rfl
    · have numbers := (nodup_seating forest settings roster.count
        roster.members).map (f := fun n : Nat => (n : Int)) fun _ _ => Int.ofNat.inj
      rw [List.map_map] at numbers
      rw [List.nil_append, Table.keys, List.map_map]
      exact numbers
  · rename_i still
    have none : roster.members = [] := by simpa [binder] using still
    simp only [binder, seats, none, Forest.seating, List.map_nil]

theorem fits_separated (own : Nat) (seats : List Seat) :
    Template.Formed (.separated own seats) ∧ Template.ends (.separated own seats) = true := by
  constructor
  · apply Template.formed_between (by decide) fun _ => rfl
    intro t member
    obtain ⟨seat, -, rfl⟩ := List.mem_map.mp member
    exact seat.target_piece.formed
  · match seats with
    | [] => rfl
    | [seat] => exact seat.target_piece.ends _
    | seat :: _ :: _ => exact seat.target_piece.ends _

theorem fits_exchanges (forest : Forest) (settings : Settings) (own number : Nat)
    (members : List Seat) :
    ∀ replaced ∈ forest.exchanges settings own number members, Template.Fits replaced := by
  induction members generalizing number with
  | nil => nofun
  | cons member rest ih =>
      rw [Forest.exchanges, List.forall_mem_cons]
      exact ⟨⟨member.target_piece, (fits_separated own _).1, (fits_separated own _).2⟩, ih _⟩

theorem fits_exchanged (forest : Forest) (settings : Settings) (roster : Roster) :
    ∀ replaced ∈ roster.exchanged forest settings, Template.Fits replaced := by
  intro replaced member
  rcases Table.mem_putAll member with exchanges | nothing
  · exact fits_exchanges _ _ _ _ _ replaced exchanges
  · cases nothing

/-- Compiling replaces the places of members in a filled template as it does in the template. -/
theorem rewriteText_binder (forest : Forest) (regular : settings.Regular)
    (sound : roster.Sound settings) (first : Nat) {t : Template} (formed : Template.Formed t) :
    (roster.binder settings.placeholderStem first).rewriteText forest settings
        (String.ofList (t.fill settings.placeholderStem first)) =
      String.ofList (Template.fill settings.placeholderStem first
        (t.rewrite (roster.exchanged forest settings))) := by
  have identifier : (roster.binder settings.placeholderStem first).identifier =
      toString (first + roster.own) := rfl
  obtain ⟨-, -, replaced⟩ := ofBindings_seats forest regular sound.multi identifier rfl
  have fits := fits_exchanges forest settings roster.own roster.count roster.members
  -- Different places have different names, so that the same replacements are made in both.
  have replacements := Table.putAll_map (p := Template.Target)
    (f := fun piece => String.ofList (piece.fill settings.placeholderStem first))
    (g := fun text => String.ofList (Template.fill settings.placeholderStem first text))
    (fun p q target target' same =>
      Template.fill_injective regular.stem target target' (String.ofList_injective same))
    (fun entry member => (fits entry member).target) [] nofun
  rw [Binder.rewriteText]
  split
  · rw [Binder.expand, Expansion.replacements, String.toList_ofList,
      Template.fill_rewrite regular.stem (fits_exchanged forest settings roster) formed]
    simp only [binder] at replaced ⊢
    rw [replaced]
    exact congrArg (fun table => String.ofList (Expansion.substituteText table _)) replacements
  · rename_i still
    have none : roster.members = [] := by simpa [binder] using still
    simp only [exchanged, none, Forest.exchanges]
    rfl

end
end Roster

end WhereClause
