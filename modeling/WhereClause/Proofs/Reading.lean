import WhereClause.Proofs.Draft

/-!
# Reading a description

What is read from a description that holds no node depends on the description and on the lists in it
only.

* `plain_of_describes`: what is written out in texts, lists, tuples and dictionaries is plain.
-/

namespace WhereClause

mutual
/-- The value holds no list, as is the case for every key. -/
def Value.Fixed : Value → Prop
  | .list .. | .conditions .. => False
  | .tuple _ vs | .set _ vs | .frozenSet _ vs => AllFixed vs
  | .dict _ entries => EntriesFixed entries
  | .binding _ b => b.value.Fixed
  | _ => True

def AllFixed : List Value → Prop
  | [] => True
  | v :: rest => v.Fixed ∧ AllFixed rest

def EntriesFixed : List (Value × Value) → Prop
  | [] => True
  | (k, v) :: rest => k.Fixed ∧ v.Fixed ∧ EntriesFixed rest
end

namespace Forest

/-- The key of an entry that compares a field. -/
def fieldKey? (forest : Forest) (key : Value) : Option Key :=
  if key.isNumeric then none
  else
    let name := forest.plainText key
    if (Key.connective? name).isSome || Key.isNegation name then none else some (Key.split name)

/-- The items of a description; one that counts as not given has none. -/
def items (forest : Forest) (description : Value) : List Item :=
  if forest.isTruthy description then Item.ofView forest (forest.view description) else []

structure Extends (forest other : Forest) : Prop where
  additions : other.additions = forest.additions
  nodes : forest.nodes.size ≤ other.nodes.size
  node : ∀ id, id.index < forest.nodes.size → other.node id = forest.node id

end Forest

namespace View

mutual
/-- The description holds no node, is followed to its end, and knows trees of the forest only. What
a field is compared with may be any value but a node. -/
def Plain (forest : Forest) : View → Prop
  | atom v => v.node? = none
  | sequence v elements =>
    v.Below forest.nodes.size ∧
      (∀ vs, forest.sequence? v = some vs → elements.map value = vs) ∧ AllPlain forest elements
  | dict _ entries => EntriesPlain forest entries

def AllPlain (forest : Forest) : List View → Prop
  | [] => True
  | v :: rest => v.Plain forest ∧ AllPlain forest rest

def EntriesPlain (forest : Forest) : List (View × View) → Prop
  | [] => True
  | (k, v) :: rest =>
    k.value.Fixed ∧
      (match forest.fieldKey? k.value with
        | some _ => v.value.node? = none ∧ v.value.Below forest.nodes.size
        | none => v.Plain forest) ∧
      EntriesPlain forest rest
end

mutual
theorem ofValue_fixed (later later' : Value → List View) :
    (v : Value) → v.Fixed → ofValue later' v = ofValue later v
  | .list .., fixed => fixed.elim
  | .conditions .., fixed => fixed.elim
  | .tuple _ vs, fixed => by simp only [ofValue, ofElements_fixed later later' vs fixed]
  | .set _ vs, fixed => by simp only [ofValue, ofElements_fixed later later' vs fixed]
  | .frozenSet _ vs, fixed => by simp only [ofValue, ofElements_fixed later later' vs fixed]
  | .dict _ entries, fixed => by simp only [ofValue, ofEntries_fixed later later' entries fixed]
  | .binding _ b, fixed => by simp only [ofValue, ofValue_fixed later later' b.value fixed]
  | .null, _ | .bool _, _ | .int _, _ | .float _, _ | .text _, _ | .bytes _, _ | .node _, _
  | .binder _, _ | .compiled _, _ | .outcome .., _ | .callable .., _ | .method .., _ => by
      simp only [ofValue]

theorem ofElements_fixed (later later' : Value → List View) :
    (vs : List Value) → AllFixed vs → ofElements later' vs = ofElements later vs
  | [], _ => by simp only [ofElements]
  | v :: rest, ⟨first, others⟩ => by
      simp only [ofElements, ofValue_fixed later later' v first,
        ofElements_fixed later later' rest others]

theorem ofEntries_fixed (later later' : Value → List View) :
    (entries : List (Value × Value)) → EntriesFixed entries →
      ofEntries later' entries = ofEntries later entries
  | [], _ => by simp only [ofEntries]
  | (k, v) :: rest, ⟨key, value, others⟩ => by
      simp only [ofEntries, ofValue_fixed later later' k key, ofValue_fixed later later' v value,
        ofEntries_fixed later later' rest others]
end

end View

namespace Forest

variable {forest other : Forest}

theorem plainText_fixed (forest other : Forest) {v : Value} (fixed : v.Fixed) :
    other.plainText v = forest.plainText v := by
  have same : other.view v = forest.view v := by
    simp only [view, viewWithin]
    exact View.ofValue_fixed _ _ v fixed
  unfold plainText
  split
  · rfl
  · rw [same]

theorem Extends.kept (extends' : forest.Extends other) {v : Value}
    (below : v.Below forest.nodes.size) : other.kept v = forest.kept v := by
  cases v with
  | list mark vs => simp only [Forest.kept, extends'.additions]
  | conditions tree stage =>
      have same := extends'.node tree (below tree stage rfl)
      simp only [Forest.kept, junction?, same]
  | _ => rfl

theorem Extends.sequence? (extends' : forest.Extends other) {v : Value}
    (below : v.Below forest.nodes.size) : other.sequence? v = forest.sequence? v := by
  simp only [Forest.sequence?, extends'.kept below]

theorem Extends.agree (extends' : forest.Extends other) : forest.Agree forest.nodes.size other := by
  intro v below
  cases v <;> simp [elements, extends'.sequence? below]

end Forest

namespace Item

def ofElement (forest : Forest) (v : View) : List Item :=
  ((Entry.atPosition forest v.value).item? v.value (ofView forest v)).toList

theorem ofElements_eq (forest : Forest) (position : Nat) (vs : List View) :
    ofElements forest position vs = vs.flatMap (ofElement forest) := by
  induction vs generalizing position with
  | nil => simp only [ofElements, List.flatMap_nil]
  | cons v rest ih =>
      rw [ofElements, ih, List.flatMap_cons]
      rfl

end Item

namespace Forest

variable {forest other : Forest}

theorem classify_of_fieldKey? {k v : Value} {key : Key} (named : forest.fieldKey? k = some key)
    (notNode : v.node? = none) : Entry.classify forest k v = .field key := by
  simp only [fieldKey?, Option.ite_none_left_eq_some, Option.some.injEq, Bool.or_eq_true,
    not_or, Bool.not_eq_true, Option.isSome_eq_false_iff, Option.isNone_iff_eq_none] at named
  obtain ⟨named, ⟨connective, negation⟩, rfl⟩ := named
  simp only [Entry.classify, named, Entry.underName, connective, negation]
  cases v with
  | node id => cases notNode
  | _ => rfl

theorem classify_of_no_fieldKey {k : Value} (named : forest.fieldKey? k = none) :
    Entry.classify forest k = Entry.atPosition forest ∨
      (∃ connective, ∀ v, Entry.classify forest k v = .group connective) ∨
      ∀ v, Entry.classify forest k v = .negation := by
  unfold Entry.classify Entry.underName
  by_cases numeric : k.isNumeric = true
  · exact .inl (funext fun v => if_pos numeric)
  · cases connective : Key.connective? (forest.plainText k) with
    | some word => exact .inr (.inl ⟨word, fun v => by simp [numeric]⟩)
    | none =>
        cases negation : Key.isNegation (forest.plainText k) with
        | true => exact .inr (.inr fun v => by simp [numeric])
        | false => simp [fieldKey?, numeric, connective, negation] at named

theorem classify_congr {k l : Value} (numeric : k.isNumeric = l.isNumeric)
    (name : forest.plainText k = forest.plainText l) :
    Entry.classify forest k = Entry.classify forest l := by
  funext v
  rw [Entry.classify, Entry.classify, numeric, name]

end Forest

namespace View

variable {forest other : Forest}

theorem value_of_plain {v : View} {u : Value} (later : Value → List View)
    (view : v = ofValue later u) (plain : v.Plain forest) :
    u.node? = none ∧ u.Below forest.nodes.size := by
  subst view
  cases u <;> simp_all [ofValue, Plain, Value.Below, Value.node?]

theorem values_ofElements (later : Value → List View) (vs : List Value) :
    (ofElements later vs).map value = vs := by
  induction vs with
  | nil => simp only [ofElements, List.map_nil]
  | cons v rest ih => simp only [ofElements, List.map_cons, value_ofValue, ih]

end View

namespace Forest

variable {forest other : Forest}

def laterWithin (forest : Forest) : Nat → Value → List View
  | 0, _ => []
  | depth + 1, v => (forest.kept v).map (forest.viewWithin depth)

theorem viewWithin_eq (forest : Forest) (depth : Nat) :
    forest.viewWithin depth = View.ofValue (forest.laterWithin depth) := by
  cases depth <;> rfl

/-! ## Written descriptions -/

mutual
/-- The value is written out in texts, lists, tuples and dictionaries. What a field is compared with
may be any value but a node. -/
def Describes (forest : Forest) : Value → Prop
  | .text _ => True
  | .list _ vs | .tuple _ vs => AllDescribe forest vs
  | .dict _ entries => EntriesDescribe forest entries
  | _ => False

def AllDescribe (forest : Forest) : List Value → Prop
  | [] => True
  | v :: rest => forest.Describes v ∧ AllDescribe forest rest

def EntriesDescribe (forest : Forest) : List (Value × Value) → Prop
  | [] => True
  | (k, v) :: rest =>
    k.Fixed ∧
      (match forest.fieldKey? k with
        | some _ => v.node? = none ∧ v.Below forest.nodes.size
        | none => forest.Describes v) ∧
      EntriesDescribe forest rest
end

section
variable {later : Value → List View}

mutual
theorem plain_ofValue (written : ∀ mark vs, forest.kept (.list mark vs) = [])
    (nothing : ∀ mark vs, later (.list mark vs) = []) :
    (v : Value) → forest.Describes v → (View.ofValue later v).Plain forest
  | .text _, _ => rfl
  | .list mark vs, describes => by
      rw [View.ofValue, nothing, List.append_nil]
      refine ⟨nofun, fun ws found => ?_, plain_ofElements written nothing vs describes⟩
      simp only [sequence?, Value.written?, written, Option.map_some, List.append_nil,
        Option.some.injEq] at found
      rw [View.values_ofElements, found]
  | .tuple mark vs, describes => by
      rw [View.ofValue]
      refine ⟨nofun, fun ws found => ?_, plain_ofElements written nothing vs describes⟩
      simp only [sequence?, Value.written?, kept, Option.map_some, List.append_nil,
        Option.some.injEq] at found
      rw [View.values_ofElements, found]
  | .dict _ entries, describes => plain_ofEntries written nothing entries describes

theorem plain_ofElements (written : ∀ mark vs, forest.kept (.list mark vs) = [])
    (nothing : ∀ mark vs, later (.list mark vs) = []) :
    (vs : List Value) → AllDescribe forest vs → View.AllPlain forest (View.ofElements later vs)
  | [], _ => trivial
  | v :: rest, ⟨first, others⟩ =>
    ⟨plain_ofValue written nothing v first, plain_ofElements written nothing rest others⟩

theorem plain_ofEntries (written : ∀ mark vs, forest.kept (.list mark vs) = [])
    (nothing : ∀ mark vs, later (.list mark vs) = []) :
    (entries : List (Value × Value)) → EntriesDescribe forest entries →
      View.EntriesPlain forest (View.ofEntries later entries)
  | [], _ => trivial
  | (k, v) :: rest, ⟨fixed, entry, others⟩ => by
      refine ⟨by rwa [View.value_ofValue], ?_, plain_ofEntries written nothing rest others⟩
      rw [View.value_ofValue, View.value_ofValue]
      cases named : forest.fieldKey? k with
      | some key =>
          rw [named] at entry
          exact entry
      | none =>
          rw [named] at entry
          exact plain_ofValue written nothing v entry
end

end

theorem plain_of_describes (written : forest.additions = []) {v : Value}
    (describes : forest.Describes v) : (forest.view v).Plain forest := by
  have nothing (mark : Mark) (vs : List Value) : forest.kept (.list mark vs) = [] := by
    rw [kept, written]
    rfl
  apply plain_ofValue nothing _ v describes
  intro mark vs
  rw [nothing, List.map_nil]

end Forest
end WhereClause
