import WhereClause.Proofs.Reading

/-!
# Walking through a description

The leaves that a plain walk finds from left to right are those of the items that are read, but for
empty texts at positions, which are passed over.

* `covers_items`: no comparison is missing, and they come in the same order.
-/

namespace WhereClause

inductive Shape
  | atom | sequence | dict

def Value.shape : Value → Shape
  | .list .. | .tuple .. | .set .. | .frozenSet .. | .conditions .. | .binding .. => .sequence
  | .dict .. => .dict
  | _ => .atom

namespace View

mutual
/-- The leaves of a description from left to right. -/
def leaves (forest : Forest) : View → List Leaf
  | atom (.text s) => [.raw s]
  | atom (.node id) => [.node id]
  | atom _ => []
  | sequence v elements => if v.isOrdered then elementLeaves forest elements else []
  | dict _ entries => entryLeaves forest entries

def elementLeaves (forest : Forest) : List View → List Leaf
  | [] => []
  | v :: rest => v.leaves forest ++ elementLeaves forest rest

def entryLeaves (forest : Forest) : List (View × View) → List Leaf
  | [] => []
  | (k, v) :: rest =>
    (match forest.fieldKey? k.value with
      | some key => [.entry key v.value]
      | none => v.leaves forest) ++
      entryLeaves forest rest
end

mutual
def Formed : View → Prop
  | atom v => v.shape = .atom
  | sequence v elements => v.shape = .sequence ∧ AllFormed elements
  | dict v entries =>
    (∃ mark given, v = .dict mark given ∧ given.isEmpty = entries.isEmpty) ∧ EntriesFormed entries

def AllFormed : List View → Prop
  | [] => True
  | v :: rest => v.Formed ∧ AllFormed rest

def EntriesFormed : List (View × View) → Prop
  | [] => True
  | (k, v) :: rest => k.Formed ∧ v.Formed ∧ EntriesFormed rest
end

theorem allFormed_append {vs ws : List View} (first : AllFormed vs) (second : AllFormed ws) :
    AllFormed (vs ++ ws) := by
  induction vs with
  | nil => exact second
  | cons v rest ih => exact ⟨first.1, ih first.2⟩

mutual
theorem formed_ofValue {later : Value → List View} (formed : ∀ v, AllFormed (later v)) :
    (v : Value) → (ofValue later v).Formed
  | .list _ vs => ⟨rfl, allFormed_append (formed_ofElements formed vs) (formed _)⟩
  | .conditions .. => ⟨rfl, formed _⟩
  | .tuple _ vs => ⟨rfl, formed_ofElements formed vs⟩
  | .set _ vs => ⟨rfl, formed_ofElements formed vs⟩
  | .frozenSet _ vs => ⟨rfl, formed_ofElements formed vs⟩
  | .dict mark [] => ⟨⟨mark, [], rfl, rfl⟩, trivial⟩
  | .dict mark ((k, v) :: rest) => ⟨⟨mark, (k, v) :: rest, rfl, rfl⟩, formed_ofEntries formed _⟩
  | .binding _ b => ⟨rfl, formed_ofValue formed b.value, trivial⟩
  | .null | .bool _ | .int _ | .float _ | .text _ | .bytes _ | .node _ | .binder _ | .compiled _
  | .outcome .. | .callable .. | .method .. => rfl

theorem formed_ofElements {later : Value → List View} (formed : ∀ v, AllFormed (later v)) :
    (vs : List Value) → AllFormed (ofElements later vs)
  | [] => trivial
  | v :: rest => ⟨formed_ofValue formed v, formed_ofElements formed rest⟩

theorem formed_ofEntries {later : Value → List View} (formed : ∀ v, AllFormed (later v)) :
    (entries : List (Value × Value)) → EntriesFormed (ofEntries later entries)
  | [] => trivial
  | (k, v) :: rest =>
    ⟨formed_ofValue formed k, formed_ofValue formed v, formed_ofEntries formed rest⟩
end

theorem allFormed_map {later : Value → View} (formed : ∀ v, (later v).Formed) (vs : List Value) :
    AllFormed (vs.map later) := by
  induction vs with
  | nil => trivial
  | cons v rest ih => exact ⟨formed v, ih⟩

theorem formed_view (forest : Forest) (v : Value) : (forest.view v).Formed := by
  have nothing (u : Value) : AllFormed ((fun _ : Value => ([] : List View)) u) := trivial
  have within (depth : Nat) (v : Value) : (forest.viewWithin depth v).Formed := by
    induction depth generalizing v with
    | zero => exact formed_ofValue nothing v
    | succ depth ih => exact formed_ofValue (fun u => allFormed_map ih (forest.kept u)) v
  exact within _ v

end View

def Leaf.entry? : Leaf → Option (Key × Value)
  | entry key value => some (key, value)
  | _ => none

/-- What is read is among what the walk finds, in this order, and no comparison is missing. -/
structure Covers (read walked : List Leaf) : Prop where
  sublist : read.Sublist walked
  entries : read.filterMap Leaf.entry? = walked.filterMap Leaf.entry?

theorem Covers.refl (leaves : List Leaf) : Covers leaves leaves := ⟨.refl _, rfl⟩

theorem Covers.append {read walked more others : List Leaf} (first : Covers read walked)
    (second : Covers more others) : Covers (read ++ more) (walked ++ others) :=
  ⟨first.sublist.append second.sublist, by
    rw [List.filterMap_append, List.filterMap_append, first.entries, second.entries]⟩

theorem Item.allLeaves_append (items more : List Item) :
    allLeaves (items ++ more) = allLeaves items ++ allLeaves more := by
  induction items with
  | nil => rw [allLeaves, List.nil_append, List.nil_append]
  | cons item rest ih => rw [List.cons_append, allLeaves, allLeaves, ih, List.append_assoc]

theorem Item.allLeaves_singleton (item : Item) : allLeaves [item] = item.leaves := by
  rw [allLeaves, allLeaves, List.append_nil]

theorem Value.text?_eq_some {v : Value} {s : String} : v.text? = some s ↔ v = .text s := by
  cases v <;> simp [text?]

def Value.isContainer : Value → Bool
  | .list .. | .conditions .. | .tuple .. | .dict .. => true
  | _ => false

namespace Entry

variable {forest : Forest}

theorem item?_text (s : String) (inner : List Item) :
    (atPosition forest (.text s)).item? (.text s) inner =
      if s.isEmpty then none else some (.raw s) := by
  cases empty : s.isEmpty <;> simp [atPosition, Forest.isTruthy, empty, item?]

theorem item?_container {v : Value} (container : v.isContainer = true) (inner : List Item) :
    (atPosition forest v).item? v inner =
      if forest.isTruthy v then some (.group positionConnective inner) else none := by
  by_cases truthy : forest.isTruthy v = true
  · cases v <;> simp_all [atPosition, item?, Value.isContainer]
  · simp [atPosition, truthy, item?]

theorem item?_other {v : Value} (container : v.isContainer = false) (text : v.text? = none)
    (node : v.node? = none) (inner : List Item) : (atPosition forest v).item? v inner = none := by
  by_cases truthy : forest.isTruthy v = true
  · cases v <;> simp_all [atPosition, item?, Value.isContainer, Value.text?, Value.node?]
  · simp [atPosition, truthy, item?]

end Entry

namespace View

variable {forest : Forest}

theorem isTruthy_sequence {v : Value} {elements : List View} (ordered : v.isOrdered = true)
    (plain : (sequence v elements).Plain forest) : forest.isTruthy v = !elements.isEmpty := by
  obtain ⟨-, whole, -⟩ := plain
  obtain ⟨vs, found⟩ : ∃ vs, forest.sequence? v = some vs := by
    cases v with
    | list | tuple | conditions => exact ⟨_, rfl⟩
    | _ => cases ordered
  have truthy : forest.isTruthy v = !vs.isEmpty := by
    cases v with
    | list | tuple | conditions => simp only [Forest.isTruthy, found, Option.all_some]
    | _ => cases ordered
  rw [truthy, ← whole vs found, List.isEmpty_map]

theorem isTruthy_dict {v : Value} {entries : List (View × View)}
    (formed : (dict v entries).Formed) : forest.isTruthy v = !entries.isEmpty := by
  obtain ⟨⟨mark, given, rfl, same⟩, -⟩ := formed
  rw [Forest.isTruthy, same]

end View

namespace Item

variable {forest : Forest}

theorem ofElement_text (s : String) :
    ofElement forest (.atom (.text s)) = if s.isEmpty then [] else [.raw s] := by
  rw [ofElement, View.value, Entry.item?_text]
  split <;> rfl

theorem ofElement_atom {v : Value} (formed : (View.atom v).Formed)
    (plain : (View.atom v).Plain forest) (text : v.text? = none) :
    ofElement forest (.atom v) = [] := by
  have container : v.isContainer = false := by
    cases v with
    | list | tuple | conditions | dict => cases formed
    | _ => rfl
  rw [ofElement, View.value, Entry.item?_other container text plain, Option.toList_none]

theorem ofElement_sequence {v : Value} {elements : List View}
    (formed : (View.sequence v elements).Formed) (plain : (View.sequence v elements).Plain forest) :
    ofElement forest (.sequence v elements) =
      if v.isOrdered && !elements.isEmpty then
        [.group Entry.positionConnective (ofView forest (.sequence v elements))]
      else [] := by
  rw [ofElement, View.value]
  cases ordered : v.isOrdered with
  | true =>
      have container : v.isContainer = true := by
        cases v with
        | list | tuple | conditions => rfl
        | _ => cases ordered
      rw [Entry.item?_container container, View.isTruthy_sequence ordered plain, Bool.true_and]
      split <;> rfl
  | false =>
      have shape := formed.1
      rw [Entry.item?_other]
      · rfl
      all_goals cases v <;> simp_all [Value.isOrdered, Value.shape, Value.isContainer,
        Value.text?, Value.node?]

theorem ofElement_dict {v : Value} {entries : List (View × View)}
    (formed : (View.dict v entries).Formed) :
    ofElement forest (.dict v entries) =
      if entries.isEmpty then []
      else [.group Entry.positionConnective (ofView forest (.dict v entries))] := by
  have truthy : forest.isTruthy v = !entries.isEmpty := View.isTruthy_dict formed
  obtain ⟨⟨mark, given, rfl, -⟩, -⟩ := formed
  rw [ofElement, View.value, Entry.item?_container rfl, truthy]
  cases entries.isEmpty <;> rfl

end Item

namespace View

variable {forest : Forest}

theorem covers_atPosition {v : View} (formed : v.Formed) (plain : v.Plain forest)
    (inner : Covers (Item.allLeaves (Item.ofView forest v)) (v.leaves forest)) :
    Covers (Item.allLeaves (Item.ofElement forest v)) (v.leaves forest) := by
  cases v with
  | atom u =>
      cases text : u.text? with
      | some s =>
          obtain rfl := Value.text?_eq_some.mp text
          rw [Item.ofElement_text]
          split
          · exact ⟨List.nil_sublist _, rfl⟩
          · exact .refl _
      | none =>
          rw [Item.ofElement_atom formed plain text]
          cases u with
          | text | node => contradiction
          | _ => exact .refl []
  | sequence u elements =>
      rw [Item.ofElement_sequence formed plain]
      split
      · rw [Item.allLeaves_singleton]
        exact inner
      · rename_i off
        simp only [Bool.and_eq_true, Bool.not_eq_true', not_and, Bool.not_eq_false,
          List.isEmpty_iff] at off
        rw [leaves]
        split
        · rename_i ordered
          rw [off ordered]
          exact .refl []
        · exact .refl []
  | dict u entries =>
      rw [Item.ofElement_dict formed]
      split
      · rename_i off
        rw [List.isEmpty_iff.mp off]
        exact .refl []
      · rw [Item.allLeaves_singleton]
        exact inner

mutual
theorem covers_ofView : (v : View) → v.Formed → v.Plain forest →
    Covers (Item.allLeaves (Item.ofView forest v)) (v.leaves forest)
  | .atom u, _, plain => by
      cases u with
      | node id => cases plain
      | _ => exact .refl _
  | .sequence u elements, ⟨_, formed⟩, ⟨_, _, plain⟩ => by
      simp only [Item.ofView, leaves, Item.ofElements_eq]
      split
      · exact covers_elements elements formed plain
      · exact .refl []
  | .dict u entries, ⟨_, formed⟩, plain => by
      simp only [Item.ofView, leaves]
      exact covers_entries entries formed plain

theorem covers_elements : (vs : List View) → AllFormed vs → AllPlain forest vs →
    Covers (Item.allLeaves (vs.flatMap (Item.ofElement forest))) (elementLeaves forest vs)
  | [], _, _ => .refl []
  | v :: rest, ⟨first, others⟩, ⟨plain, plainRest⟩ => by
      rw [List.flatMap_cons, Item.allLeaves_append, elementLeaves]
      have here := covers_atPosition first plain (covers_ofView v first plain)
      exact here.append (covers_elements rest others plainRest)

theorem covers_entries : (entries : List (View × View)) → EntriesFormed entries →
    EntriesPlain forest entries →
    Covers (Item.allLeaves (Item.ofEntries forest entries)) (entryLeaves forest entries)
  | [], _, _ => .refl []
  | (k, v) :: rest, ⟨_, first, others⟩, ⟨_, plain, plainRest⟩ => by
      rw [Item.ofEntries, Item.allLeaves_append, entryLeaves]
      refine Covers.append ?_ (covers_entries rest others plainRest)
      cases named : forest.fieldKey? k.value with
      | some key =>
          simp only [named] at plain
          rw [Forest.classify_of_fieldKey? named plain.1]
          exact .refl [.entry key v.value]
      | none =>
          simp only [named] at plain
          have inner := covers_ofView v first plain
          rcases Forest.classify_of_no_fieldKey named with position | ⟨c, group⟩ | negation
          · rw [position]
            exact covers_atPosition first plain inner
          · rw [group]
            simpa only [Entry.item?, Option.toList_some, Item.allLeaves_singleton, Item.leaves]
              using inner
          · rw [negation]
            simpa only [Entry.item?, Option.toList_some, Item.allLeaves_singleton, Item.leaves]
              using inner
end

/-- Nothing is read from what does not count as given, unless it is a text. -/
theorem ofView_of_not_truthy {v : View} (formed : v.Formed) (plain : v.Plain forest)
    (text : v.value.text? = none) (off : ¬forest.isTruthy v.value = true) :
    Item.ofView forest v = [] := by
  cases v with
  | atom u =>
      cases u with
      | text | node => contradiction
      | _ => rfl
  | sequence u elements =>
      rw [Item.ofView]
      split
      · rename_i ordered
        rw [value, isTruthy_sequence ordered plain] at off
        have empty : elements = [] := by simpa using off
        rw [empty, Item.ofElements]
      · rfl
  | dict u entries =>
      rw [value, isTruthy_dict formed] at off
      have empty : entries = [] := by simpa using off
      rw [empty, Item.ofView, Item.ofEntries]

end View

theorem Text.isBlank_of_getLast?_trimChars {s : List Char} {c : Char}
    (last : (Text.trimChars s).getLast? = some c) : Text.isBlank c = false := by
  have head := List.head?_dropWhile_not Text.isBlank (s.dropWhile Text.isBlank).reverse
  rw [Text.trimChars, List.getLast?_reverse] at last
  rw [last] at head
  simpa using head

/-- A key is trimmed before it is split, so that its operator is never blank. -/
theorem Key.trim_split_operator_ne (name : String) : Text.trim (Key.split name).operator ≠ "" := by
  intro blank
  rw [Text.trim_eq_empty_iff] at blank
  simp only [split, splitChars] at blank
  generalize trimmed_eq : Text.trimChars name.toList = trimmed at blank
  cases rest : trimmed.dropWhile (· ≠ ' ') with
  | nil =>
      simp only [rest] at blank
      exact absurd (blank '=' (by decide)) (by decide)
  | cons c operator =>
      simp only [rest, String.toList_ofList] at blank
      have split := List.takeWhile_append_dropWhile (p := (· ≠ ' ')) (l := trimmed)
      have space : c = ' ' := by
        have head := List.head?_dropWhile_not (· ≠ ' ') trimmed
        rw [rest] at head
        simpa using head
      have last : trimmed.getLast? = (c :: operator).getLast? := by
        rw [← split, rest, List.getLast?_append, List.getLast?_cons]
        rfl
      obtain ⟨d, found⟩ : ∃ d, (c :: operator).getLast? = some d := ⟨_, List.getLast?_cons ..⟩
      have notBlank := Text.isBlank_of_getLast?_trimChars (trimmed_eq ▸ last.trans found)
      rcases List.mem_cons.mp (List.mem_of_getLast? found) with rfl | member
      · rw [space] at notBlank
        exact absurd notBlank (by decide)
      · simp [blank d member] at notBlank

theorem Forest.operator_of_fieldKey? {forest : Forest} {k : Value} {key : Key}
    (named : forest.fieldKey? k = some key) : Text.trim key.operator ≠ "" := by
  simp only [fieldKey?, Option.ite_none_left_eq_some, Option.some.injEq] at named
  obtain ⟨-, -, rfl⟩ := named
  exact Key.trim_split_operator_ne _

namespace View

variable {forest : Forest}

mutual
theorem plain_leaves : (v : View) → v.Plain forest →
    ∀ leaf ∈ v.leaves forest, leaf.Plain forest.nodes.size
  | .atom u, plain => by
      cases u with
      | node id => cases plain
      | text s =>
          intro leaf member
          rw [leaves, List.mem_singleton] at member
          rw [member]
          trivial
      | _ => exact nofun
  | .sequence u elements, ⟨_, _, plain⟩ => by
      intro leaf member
      rw [leaves] at member
      split at member
      · exact plain_elementLeaves elements plain leaf member
      · cases member
  | .dict u entries, plain => plain_entryLeaves entries plain

theorem plain_elementLeaves : (vs : List View) → AllPlain forest vs →
    ∀ leaf ∈ elementLeaves forest vs, leaf.Plain forest.nodes.size
  | [], _ => nofun
  | v :: rest, ⟨first, others⟩ => by
      rw [elementLeaves]
      exact List.forall_mem_append.mpr ⟨plain_leaves v first, plain_elementLeaves rest others⟩

theorem plain_entryLeaves : (entries : List (View × View)) → EntriesPlain forest entries →
    ∀ leaf ∈ entryLeaves forest entries, leaf.Plain forest.nodes.size
  | [], _ => nofun
  | (k, v) :: rest, ⟨_, plain, others⟩ => by
      rw [entryLeaves]
      refine List.forall_mem_append.mpr ⟨?_, plain_entryLeaves rest others⟩
      cases named : forest.fieldKey? k.value with
      | some key =>
          simp only [named] at plain ⊢
          intro leaf member
          rw [List.mem_singleton.mp member]
          obtain ⟨notNode, below⟩ := plain
          exact ⟨notNode, Forest.operator_of_fieldKey? named, below⟩
      | none =>
          simp only [named] at plain ⊢
          exact plain_leaves v plain
end

end View

namespace Forest

variable {forest : Forest} {description : Value}

def leaves (forest : Forest) (description : Value) : List Leaf :=
  (forest.view description).leaves forest

theorem covers_ofView (plain : (forest.view description).Plain forest) :
    Covers (Item.allLeaves (Item.ofView forest (forest.view description)))
      (forest.leaves description) :=
  View.covers_ofView _ (View.formed_view forest description) plain

theorem view_text (s : String) : forest.view (.text s) = .atom (.text s) := rfl

theorem items_text (s : String) :
    forest.items (.text s) = if s.isEmpty then [] else [.raw s] := by
  rw [items, view_text, Item.ofView, isTruthy]
  cases s.isEmpty <;> rfl

theorem items_of_not_text (plain : (forest.view description).Plain forest)
    (text : description.text? = none) :
    forest.items description = Item.ofView forest (forest.view description) := by
  rw [items]
  split
  · rfl
  · rename_i off
    rw [← value_view forest description] at off text
    exact (View.ofView_of_not_truthy (View.formed_view forest description) plain text off).symm

theorem covers_items (plain : (forest.view description).Plain forest) :
    Covers (Item.allLeaves (forest.items description)) (forest.leaves description) := by
  cases text : description.text? with
  | none =>
      rw [items_of_not_text plain text]
      exact covers_ofView plain
  | some s =>
      obtain rfl := Value.text?_eq_some.mp text
      rw [items_text]
      split
      · exact ⟨List.nil_sublist _, rfl⟩
      · exact .refl _

theorem plain_of_covers {read : List Leaf} (plain : (forest.view description).Plain forest)
    (covers : Covers read (forest.leaves description)) :
    ∀ leaf ∈ read, leaf.Plain forest.nodes.size := fun leaf member =>
  View.plain_leaves _ plain leaf (covers.sublist.subset member)

end Forest
end WhereClause
