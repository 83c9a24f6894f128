import WhereClause.Proofs.Walk

/-!
# The items that are read

Whatever a description holds, the groups that are read from it are joined by keywords, and every
field has an operator: a key is trimmed before it is split.

* `regular_ofView`: this holds at every depth.
-/

namespace WhereClause

def Key.IsKeyword (connective : String) : Prop :=
  connective = "AND" ∨ connective = "OR" ∨ connective = "XOR"

theorem Key.isKeyword_of_connective? {name word : String} (keyword : connective? name = some word) :
    IsKeyword word := by
  simp only [connective?, Option.ite_none_right_eq_some, Option.some.injEq] at keyword
  obtain ⟨known, rfl⟩ := keyword
  exact known

namespace Item

mutual
def Regular : Item → Prop
  | raw _ | nested _ => True
  | field key _ => Text.trim key.operator ≠ ""
  | group connective items => Key.IsKeyword connective ∧ AllRegular items
  | negation items => AllRegular items

def AllRegular : List Item → Prop
  | [] => True
  | item :: rest => item.Regular ∧ AllRegular rest
end

theorem allRegular_append {items more : List Item} (first : AllRegular items)
    (second : AllRegular more) : AllRegular (items ++ more) := by
  induction items with
  | nil => exact second
  | cons item rest ih => exact ⟨first.1, ih first.2⟩

end Item

namespace Entry

variable {forest : Forest} {k v : Value}

/-- What an entry asks for: a group by a keyword, or a field that was split off. -/
def Asks : Entry → Prop
  | group connective => Key.IsKeyword connective
  | field key => ∃ name, key = Key.split name
  | raw _ | negation | nested _ | vacant | dropped => True

theorem asks_atPosition (forest : Forest) (v : Value) : (atPosition forest v).Asks := by
  unfold atPosition
  split
  · cases v with
    | list | conditions | tuple | dict => exact .inl rfl
    | node id =>
        simp only
        split <;> trivial
    | _ => trivial
  · trivial

theorem asks_underName (forest : Forest) (name : String) (v : Value) :
    (underName forest name v).Asks := by
  unfold underName
  split
  · rename_i word keyword
    exact Key.isKeyword_of_connective? keyword
  · split
    · trivial
    · cases v with
      | node id =>
          simp only
          split
          · trivial
          · exact ⟨name, rfl⟩
      | _ => exact ⟨name, rfl⟩

theorem asks_classify (forest : Forest) (k v : Value) : (classify forest k v).Asks := by
  unfold classify
  split
  · exact asks_atPosition forest v
  · exact asks_underName forest _ v

end Entry

namespace Item

variable {forest : Forest}

theorem regular_item? (k v : Value) {inner : List Item} (regular : AllRegular inner) :
    AllRegular ((Entry.classify forest k v).item? v inner).toList := by
  have asks := Entry.asks_classify forest k v
  cases entry : Entry.classify forest k v with
  | group connective =>
      rw [entry] at asks
      exact ⟨⟨asks, regular⟩, trivial⟩
  | field key =>
      rw [entry] at asks
      obtain ⟨name, rfl⟩ := asks
      exact ⟨Key.trim_split_operator_ne name, trivial⟩
  | negation => exact ⟨regular, trivial⟩
  | raw | nested => exact ⟨trivial, trivial⟩
  | vacant | dropped => trivial

mutual
theorem regular_ofView (forest : Forest) : (v : View) → AllRegular (ofView forest v)
  | .atom v => by
      cases v with
      | text s => exact ⟨trivial, trivial⟩
      | node id =>
          rw [ofView]
          split
          · trivial
          · exact ⟨trivial, trivial⟩
      | _ => trivial
  | .sequence v elements => by
      rw [ofView]
      split
      · exact regular_ofElements forest 0 elements
      · trivial
  | .dict _ entries => by
      rw [ofView]
      exact regular_ofEntries forest entries

theorem regular_ofElements (forest : Forest) (position : Nat) : (vs : List View) →
    AllRegular (ofElements forest position vs)
  | [] => by rw [ofElements]; trivial
  | v :: rest => by
      rw [ofElements]
      exact allRegular_append (regular_item? _ _ (regular_ofView forest v))
        (regular_ofElements forest _ rest)

theorem regular_ofEntries (forest : Forest) : (entries : List (View × View)) →
    AllRegular (ofEntries forest entries)
  | [] => by rw [ofEntries]; trivial
  | (k, v) :: rest => by
      rw [ofEntries]
      exact allRegular_append (regular_item? _ _ (regular_ofView forest v))
        (regular_ofEntries forest rest)
end

end Item
end WhereClause
