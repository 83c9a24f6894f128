import WhereClause.Proofs.Draft
import WhereClause.Proofs.Placeholders
import WhereClause.Proofs.Tables

/-!
# Members of a tree

The binder of a new tree holds the members of its membership tests, under the numbers from zero on.
Compiling gives every element of every member a number of its own, in order, after those of the
members. With the texts that the placeholders of members stand in, nothing else happens than that
each placeholder becomes those of the elements. All this is under the initial settings.

* `final_having`: the bindings of a tree once it is compiled.
* `rewriteText_of_not_mem`, `rewriteText_membership`: what compiling does to a text.
-/

namespace WhereClause

/-- An element at its place: the binder that numbers it and its number. -/
structure Placed where
  own : Nat
  number : Nat
  value : Value
  type : Option String

namespace Placed

def name (placed : Placed) : String := mention placed.own placed.number

def binding (placed : Placed) : Binding := ⟨fragmentOf placed.name, placed.value, placed.type⟩

def entry (placed : Placed) : Int × Binding := (placed.number, placed.binding)

def slot (placed : Placed) : Nat × Nat := (placed.own, placed.number)

def pair (placed : Placed) : Value × Option String := (placed.value, placed.type)

end Placed

def place (own number : Nat) : List (Value × Option String) → List Placed
  | [] => []
  | (value, type) :: rest => ⟨own, number, value, type⟩ :: place own (number + 1) rest

section
variable (own : Nat)

theorem place_append (number : Nat) (pairs more : List (Value × Option String)) :
    place own number (pairs ++ more) =
      place own number pairs ++ place own (number + pairs.length) more := by
  induction pairs generalizing number with
  | nil => rfl
  | cons pair rest ih =>
      rw [List.cons_append, place, place, ih, List.cons_append, List.length_cons,
        Nat.add_right_comm, Nat.add_assoc]

theorem pair_place (number : Nat) (pairs : List (Value × Option String)) :
    (place own number pairs).map Placed.pair = pairs := by
  induction pairs generalizing number with
  | nil => rfl
  | cons pair rest ih => rw [place, List.map_cons, ih]; rfl

theorem mem_place {number : Nat} {pairs : List (Value × Option String)} {placed : Placed}
    (member : placed ∈ place own number pairs) :
    placed.own = own ∧ number ≤ placed.number ∧ placed.number < number + pairs.length := by
  induction pairs generalizing number with
  | nil => cases member
  | cons pair rest ih =>
      rw [List.length_cons]
      rcases List.mem_cons.mp member with rfl | later
      · exact ⟨rfl, Nat.le_refl _, Nat.lt_add_of_pos_right (Nat.succ_pos _)⟩
      · obtain ⟨same, low, high⟩ := ih later
        exact ⟨same, Nat.le_of_succ_le low, by omega⟩

theorem nodup_place (number : Nat) (pairs : List (Value × Option String)) :
    ((place own number pairs).map Placed.number).Nodup := by
  induction pairs generalizing number with
  | nil => exact .nil
  | cons pair rest ih =>
      rw [place, List.map_cons, List.nodup_cons]
      refine ⟨fun member => ?_, ih (number + 1)⟩
      obtain ⟨placed, member, same⟩ := List.mem_map.mp member
      have low := (mem_place own member).2.1
      rw [same] at low
      exact Nat.not_succ_le_self _ low

end

/-! ## Binders of new trees -/

abbrev Member := Value × String

def Forest.spread (forest : Forest) (member : Member) : List (Value × Option String) :=
  (forest.elements member.1).map fun v => (v, some (Settings.unmarked {} member.2))

def bound (members : List Member) : List (Value × Option String) :=
  members.map fun (value, type) => (value, some type)

def Binder.having (own : Nat) (members : List Member) : Binder where
  identifier := toString own
  count := members.length
  bindings := (place own 0 (bound members)).map Placed.entry
  expands := !members.isEmpty

namespace Binder

theorem fresh_eq_having (own : Nat) : fresh own = having own [] := rfl

/-- A field that is neither a number nor a placeholder has its name made up. -/
def MadeUp (field : String) : Prop :=
  isNumeral field = false ∧ ':' ∉ field.toList

theorem nextName_eq {b : Binder} {own number : Nat} {field : String} (madeUp : MadeUp field)
    (identifier : b.identifier = toString own) (count : b.count = number) :
    b.nextName {} field = mention own number := by
  obtain ⟨numeral, colon⟩ := madeUp
  have head : (field.toList.head? == some ':') = false := by
    rw [beq_eq_false_iff_ne]
    intro first
    exact colon (List.mem_of_head? first)
  simp only [nextName, next, nameFor, Value.isNumeric, numeral, Bool.false_eq_true, if_false, head,
    identifier, count, mention]

theorem registered_having {own : Nat} {members : List Member} {field : String} {member : Member}
    (madeUp : MadeUp field) (marked : Settings.marks {} member.2 = true) :
    (having own members).registered {} field member.1 (.text member.2) =
      having own (members ++ [member]) := by
  have name : (having own members).nextName {} field = mention own members.length :=
    nextName_eq madeUp rfl rfl
  have new : (members.length : Int) ∉
      Table.keys ((place own 0 (bound members)).map Placed.entry) := by
    intro known
    obtain ⟨_, entry, same⟩ := List.mem_map.mp known
    obtain ⟨placed, inside, rfl⟩ := List.mem_map.mp entry
    have high := (mem_place own inside).2.2
    rw [bound, List.length_map, Nat.zero_add] at high
    exact high.ne (Int.ofNat.inj same)
  have registered := (having own members).registered_eq {} field member.1 (some member.2)
  simp only [Value.ofText?, name] at registered
  rw [registered]
  have more : place own 0 (bound (members ++ [member])) =
      place own 0 (bound members) ++ [⟨own, members.length, member.1, some member.2⟩] := by
    rw [bound, List.map_append, place_append, Nat.zero_add, List.length_map]
    rfl
  simp only [having, Table.put_of_not_mem new, more, List.map_append, List.map_cons, List.map_nil,
    List.length_append, List.length_singleton, mk.injEq, BindingOf.isMulti, Option.any_some, marked,
    Bool.or_true]
  refine ⟨trivial, by push_cast; rfl, rfl, ?_, by simp⟩
  simp [Table.put, Table.erase]

end Binder

/-! ## Expanding -/

/-- The placeholders of members, each with the text that takes its place: the placeholders of its
elements. -/
def Forest.replacing (forest : Forest) (own index number : Nat) :
    List Member → List (String × String)
  | [] => []
  | member :: rest =>
    let here := forest.spread member
    (mention own index, ", ".intercalate ((place own number here).map Placed.name)) ::
      forest.replacing own (index + 1) (number + here.length) rest

theorem fragmentOf_mention (own number : Nat) :
    fragmentOf (mention own number) = withoutFirst (mention own number) := by
  simp only [fragmentOf, withoutFirst, toList_mention, List.drop_succ_cons, List.drop_zero]

theorem toList_fragment (own number : Nat) : (fragmentOf (mention own number)).toList =
    'c' :: (Nat.toDigits 10 own ++ '_' :: Nat.toDigits 10 number) := by
  simp only [fragmentOf, toList_mention, String.toList_ofList]

namespace Placed

theorem isNamed_binding (placed : Placed) : placed.binding.isNamed = true := by
  rw [BindingOf.isNamed, binding, name, Bool.not_eq_true', ← Bool.not_eq_true, String.isEmpty_iff,
    ← String.toList_inj, toList_fragment]
  exact nofun

theorem placeholder_binding (placed : Placed) : placed.binding.placeholder {} = placed.name := by
  have named := placed.isNamed_binding
  rw [BindingOf.isNamed, Bool.not_eq_true'] at named
  rw [BindingOf.placeholder, named, if_neg Bool.false_ne_true, ← String.toList_inj,
    String.toList_append, binding, name, toList_fragment, toList_mention]
  rfl

end Placed

theorem madeUp_fragment (own number : Nat) : Binder.MadeUp (fragmentOf (mention own number)) := by
  obtain ⟨word, token, -, all⟩ := isPlaceholder_mention own number
  have noColon := Text.no_colon_of_word all
  have start := toList_mention own number
  rw [fragmentOf_mention, withoutFirst]
  constructor
  · rw [start, isNumeral, String.toList_ofList]
    rfl
  · rw [token, String.toList_ofList]
    exact noColon

section
variable {own : Nat} {b : Binder}

theorem reserveEach_place {number : Nat} {token : String} (madeUp : Binder.MadeUp token)
    (type : Option String) (vs : List Value) (identifier : b.identifier = toString own)
    (count : b.count = number) :
    let made := (Expansion.reserveEach {} (.text token) vs b).1
    let places := place own number (vs.map fun v => (v, type))
    made.map (·.1.name) = places.map Placed.name ∧
      made.map (fun (reservation, v) =>
        (reservation.number, (⟨withoutFirst reservation.name, v, type⟩ : Binding))) =
        places.map Placed.entry := by
  induction vs generalizing number b with
  | nil => exact ⟨rfl, rfl⟩
  | cons v rest ih =>
      have name : (b.reserve {} (.text token) false).1.name = mention own number :=
        Binder.nextName_eq madeUp identifier count
      have count' : (b.reserve {} (.text token) false).2.count = (number + 1 : Nat) := by
        rw [Binder.count_reserve, count]
        push_cast
        rfl
      obtain ⟨names, entries⟩ := ih (b := (b.reserve {} (.text token) false).2) identifier count'
      constructor
      · simp only [Expansion.reserveEach, List.map_cons, place, names]
        rw [name]
        rfl
      · simp only [Expansion.reserveEach, List.map_cons, place, entries]
        rw [name, Binder.number_reserve, count, ← fragmentOf_mention]
        rfl

theorem ofBindings_place (forest : Forest) {members : List Member}
    (marked : ∀ member ∈ members, Settings.marks {} member.2 = true) (index : Nat) {number : Nat}
    (identifier : b.identifier = toString own) (count : b.count = number) :
    let made :=
      (Expansion.ofBindings forest {} ((place own index (bound members)).map Placed.entry) b).1
    made.kept = [] ∧
      made.added = (place own number (members.flatMap forest.spread)).map Placed.entry ∧
      made.replaced = forest.replacing own index number members := by
  induction members generalizing index number b with
  | nil => exact ⟨rfl, rfl, rfl⟩
  | cons member rest ih =>
      obtain ⟨v, type⟩ := member
      have multi : (⟨fragmentOf (mention own index), v, some type⟩ : Binding).isMulti {} = true :=
        marked (v, type) List.mem_cons_self
      obtain ⟨names, entries⟩ := reserveEach_place (madeUp_fragment own index)
        (some (Settings.unmarked {} type)) (forest.elements v) identifier count
      generalize made_eq : Expansion.reserveEach {} (.text (fragmentOf (mention own index)))
        (forest.elements v) b = made at names entries
      have advanced := Expansion.reserveEach_binder {} (.text (fragmentOf (mention own index)))
        (forest.elements v) b
      rw [made_eq] at advanced
      have identifier' : made.2.identifier = toString own := by rw [advanced, identifier]
      have count' : made.2.count = (number + (forest.elements v).length : Nat) := by
        rw [advanced, count]
        push_cast
        rfl
      obtain ⟨kept, added, replaced⟩ := ih
        (fun m later => marked m (List.mem_cons_of_mem _ later)) (index + 1) identifier' count'
      have start : ((place own index (bound ((v, type) :: rest))).map Placed.entry) =
          ((index : Int), ⟨fragmentOf (mention own index), v, some type⟩) ::
            (place own (index + 1) (bound rest)).map Placed.entry := rfl
      rw [start]
      simp only [Expansion.ofBindings, multi, if_true, made_eq, Expansion.addMulti, kept, added,
        replaced, names, BindingOf.elementType, Option.map_some, entries]
      refine ⟨trivial, ?_, ?_⟩
      · rw [List.flatMap_cons, place_append, List.map_append, Forest.spread, List.length_map]
      · have placeholder :
            (⟨fragmentOf (mention own index), v, some type⟩ : Binding).placeholder {} =
              mention own index := Placed.placeholder_binding ⟨own, index, v, some type⟩
        rw [placeholder, Forest.replacing, Forest.spread, List.length_map]

variable (own)

theorem final_having (forest : Forest) {members : List Member}
    (marked : ∀ member ∈ members, Settings.marks {} member.2 = true) :
    (Binder.having own members).final forest {} =
      (place own members.length (members.flatMap forest.spread)).map Placed.entry := by
  cases members with
  | nil => rfl
  | cons member rest =>
      have identifier : (Binder.having own (member :: rest)).identifier = toString own := rfl
      have count : (Binder.having own (member :: rest)).count = (member :: rest).length := rfl
      obtain ⟨kept, added, -⟩ := ofBindings_place forest marked 0 identifier count
      have expands : (Binder.having own (member :: rest)).expands = true := rfl
      rw [Binder.final, if_pos expands, Binder.expand, Expansion.bindings]
      simp only [Binder.having] at kept added ⊢
      rw [kept, added, Table.putAll_of_nodup, List.nil_append]
      -- No element takes the number of a member or of another element.
      have numbers := (nodup_place own (member :: rest).length
        ((member :: rest).flatMap forest.spread)).map (f := fun n : Nat => (n : Int))
        fun _ _ => Int.ofNat.inj
      rw [List.map_map] at numbers
      rw [List.nil_append, Table.keys, List.map_map]
      exact numbers

/-! ## Texts -/

theorem replacing_append (forest : Forest) (index number : Nat) (members more : List Member) :
    forest.replacing own index number (members ++ more) =
      forest.replacing own index number members ++
        forest.replacing own (index + members.length)
          (number + (members.flatMap forest.spread).length) more := by
  induction members generalizing index number with
  | nil => rfl
  | cons member rest ih =>
      rw [List.cons_append, Forest.replacing, Forest.replacing, ih, List.cons_append,
        List.flatMap_cons, List.length_append, List.length_cons, Nat.add_right_comm,
        Nat.add_assoc, Nat.add_assoc]

theorem keys_replacing (forest : Forest) {index number : Nat} {members : List Member}
    {replaced : String × String} (member : replaced ∈ forest.replacing own index number members) :
    ∃ i, index ≤ i ∧ i < index + members.length ∧ replaced.1 = mention own i := by
  induction members generalizing index number with
  | nil => cases member
  | cons first rest ih =>
      rw [List.length_cons]
      rcases List.mem_cons.mp member with rfl | later
      · exact ⟨index, Nat.le_refl _, by omega, rfl⟩
      · obtain ⟨i, low, high, same⟩ := ih later
        exact ⟨i, by omega, by omega, same⟩

theorem nodup_replacing (forest : Forest) (index number : Nat) (members : List Member) :
    (Table.keys (forest.replacing own index number members)).Nodup := by
  induction members generalizing index number with
  | nil => exact .nil
  | cons first rest ih =>
      rw [Table.keys, Forest.replacing, List.map_cons, List.nodup_cons]
      refine ⟨fun member => ?_, ih _ _⟩
      obtain ⟨replaced, member, same⟩ := List.mem_map.mp member
      obtain ⟨i, low, -, mention⟩ := keys_replacing own forest member
      have := (mention_inj (mention.symm.trans same)).2
      omega

theorem replacements_having (forest : Forest) {members : List Member}
    (marked : ∀ member ∈ members, Settings.marks {} member.2 = true) :
    ((Binder.having own members).expand forest {}).1.replacements =
      forest.replacing own 0 members.length members := by
  have identifier : (Binder.having own members).identifier = toString own := rfl
  have count : (Binder.having own members).count = members.length := rfl
  obtain ⟨-, -, replaced⟩ := ofBindings_place forest marked 0 identifier count
  have nodup := nodup_replacing own forest 0 members.length members
  rw [Binder.expand, Expansion.replacements]
  simp only [Binder.having] at replaced ⊢
  rw [replaced, Table.putAll_of_nodup, List.nil_append]
  rwa [List.nil_append]

theorem substituteText_append (replacements more : Table String String) (s : List Char) :
    Expansion.substituteText (replacements ++ more) s =
      Expansion.substituteText more (Expansion.substituteText replacements s) :=
  List.foldl_append

theorem substituteText_cons (token text : String) (rest : Table String String) (s : List Char) :
    Expansion.substituteText ((token, text) :: rest) s =
      Expansion.substituteText rest (Text.replaceToken token.toList text.toList s) := rfl

theorem substituteText_of_not_mem {replacements : Table String String} {s : List Char}
    (placeholder : ∀ replaced ∈ replacements, Text.IsPlaceholder replaced.1.toList)
    (other : ∀ replaced ∈ replacements, replaced.1 ∉ Text.placeholders s) :
    Expansion.substituteText replacements s = s := by
  induction replacements with
  | nil => rfl
  | cons replaced rest ih =>
      obtain ⟨token, text⟩ := replaced
      have here := other (token, text) List.mem_cons_self
      have kept : Text.replaceToken token.toList text.toList s = s :=
        Text.replaceToken_of_not_mem text.toList (placeholder (token, text) List.mem_cons_self)
          (by rwa [String.ofList_toList])
      rw [substituteText_cons, kept]
      exact ih (fun r later => placeholder r (List.mem_cons_of_mem _ later))
        (fun r later => other r (List.mem_cons_of_mem _ later))

theorem isPlaceholder_replacing (forest : Forest) {index number : Nat} {members : List Member} :
    ∀ replaced ∈ forest.replacing own index number members,
      Text.IsPlaceholder replaced.1.toList := by
  intro replaced member
  obtain ⟨i, -, -, same⟩ := keys_replacing own forest member
  rw [same]
  exact isPlaceholder_mention own i

theorem substituteText_replacing (forest : Forest) {index number : Nat} {members : List Member}
    {s : List Char} (other : ∀ i, index ≤ i → i < index + members.length →
      mention own i ∉ Text.placeholders s) :
    Expansion.substituteText (forest.replacing own index number members) s = s := by
  apply substituteText_of_not_mem (isPlaceholder_replacing own forest)
  intro replaced member
  obtain ⟨i, low, high, same⟩ := keys_replacing own forest member
  rw [same]
  exact other i low high

theorem rewriteText_of_not_mem (forest : Forest) {members : List Member} {s : String}
    (marked : ∀ member ∈ members, Settings.marks {} member.2 = true)
    (other : ∀ i < members.length, mention own i ∉ Text.placeholders s.toList) :
    (Binder.having own members).rewriteText forest {} s = s := by
  rw [Binder.rewriteText]
  split
  · rw [replacements_having own forest marked, substituteText_replacing own forest,
      String.ofList_toList]
    intro i _ high
    exact other i (by omega)
  · rfl

theorem placeholders_intercalate {names : List String}
    (each : ∀ name ∈ names, Text.IsPlaceholder name.toList) {after : List Char}
    (ends : Text.endsWord after = true) :
    Text.placeholders ((", ".intercalate names).toList ++ after) =
      names ++ Text.placeholders after := by
  induction names with
  | nil => rw [String.intercalate_nil]; rfl
  | cons name rest ih =>
      have first := Text.placeholders_token (each name List.mem_cons_self)
      rw [String.ofList_toList] at first
      have later := ih fun n member => each n (List.mem_cons_of_mem _ member)
      cases rest with
      | nil =>
          rw [String.intercalate_singleton, Text.placeholders_append _ ends, first]
      | cons second rest =>
          rw [String.intercalate_cons_cons, String.toList_append, String.toList_append,
            List.append_assoc, List.append_assoc, Text.placeholders_append _ rfl, first,
            Text.placeholders_of_no_colon (by decide), later]
          rfl

theorem isPlaceholder_place (number : Nat) (pairs : List (Value × Option String)) :
    ∀ name ∈ (place own number pairs).map Placed.name, Text.IsPlaceholder name.toList := by
  intro name member
  obtain ⟨placed, -, rfl⟩ := List.mem_map.mp member
  exact isPlaceholder_mention placed.own placed.number

end

/-- A key without colons whose field has its name made up. -/
structure Key.Plain (key : Key) : Prop where
  madeUp : Binder.MadeUp key.field
  operator : ':' ∉ key.operator.toList

def Key.opening (key : Key) : List Char :=
  key.field.toList ++ ' ' :: (key.operator.toList ++ [' ', '('])

theorem toList_membership (key : Key) (inside : String) :
    (key.membership inside).toList = key.opening ++ (inside.toList ++ [')']) := by
  simp [Key.membership, Key.opening]

theorem Key.Plain.opening {key : Key} (plain : key.Plain) : ':' ∉ key.opening := by
  simp [Key.opening, plain.madeUp.2, plain.operator]

theorem placeholders_membership {key : Key} (plain : key.Plain) (names : List String)
    (each : ∀ name ∈ names, Text.IsPlaceholder name.toList) :
    Text.placeholders (key.membership (", ".intercalate names)).toList = names := by
  rw [toList_membership, Text.placeholders_of_no_colon plain.opening,
    placeholders_intercalate each (by decide), Text.placeholders_eq_nil (by decide),
    List.append_nil]

theorem rewriteText_membership (own : Nat) (forest : Forest) {members more : List Member}
    {member : Member} {key : Key} (plain : key.Plain)
    (marked : ∀ m ∈ members ++ member :: more, Settings.marks {} m.2 = true) :
    let number := (members ++ member :: more).length + (members.flatMap forest.spread).length
    (Binder.having own (members ++ member :: more)).rewriteText forest {}
        (key.membership (mention own members.length)) =
      key.membership
        (", ".intercalate ((place own number (forest.spread member)).map Placed.name)) := by
  intro number
  have expands : (Binder.having own (members ++ member :: more)).expands = true := by
    simp [Binder.having]
  have single := placeholders_membership plain [mention own members.length] (by
    simp [isPlaceholder_mention])
  rw [String.intercalate_singleton] at single
  have names := isPlaceholder_place own number (forest.spread member)
  have spread := placeholders_membership plain _ names
  -- The placeholders before are not there, those after are not among the new ones.
  have first : Expansion.substituteText
      (forest.replacing own 0 (members ++ member :: more).length members)
      (key.membership (mention own members.length)).toList =
        (key.membership (mention own members.length)).toList := by
    apply substituteText_replacing own forest
    intro i _ high mentioned
    rw [single, List.mem_singleton] at mentioned
    have := (mention_inj mentioned).2
    omega
  have here := Text.replaceToken_mention
    (", ".intercalate ((place own number (forest.spread member)).map Placed.name)).toList
    (isPlaceholder_mention own members.length) plain.opening [')'] (by decide) (by
      rw [Text.placeholders_eq_nil (by decide)]
      exact List.not_mem_nil)
  rw [← toList_membership, ← toList_membership] at here
  have last : Expansion.substituteText
      (forest.replacing own (members.length + 1) (number + (forest.spread member).length) more)
      (key.membership
        (", ".intercalate ((place own number (forest.spread member)).map Placed.name))).toList =
      (key.membership
        (", ".intercalate ((place own number (forest.spread member)).map Placed.name))).toList := by
    apply substituteText_replacing own forest
    intro i _ high mentioned
    rw [spread] at mentioned
    obtain ⟨placed, inside, equal⟩ := List.mem_map.mp mentioned
    have low := (mem_place own inside).2.1
    have := (mention_inj equal).2
    simp only [number, List.length_append, List.length_cons] at low
    omega
  rw [Binder.rewriteText, if_pos expands, replacements_having own forest marked, replacing_append,
    substituteText_append, first, Forest.replacing, substituteText_cons, Nat.zero_add, here, last,
    String.ofList_toList]

end WhereClause
