import WhereClause.Proofs.Building
import WhereClause.Proofs.Reading

/-!
# Descriptions apart from a tree

What is added to a tree changes the tree and makes new nodes, and leaves everything else as it was.
What is read from a description depends on the trees in it and on the lists that trees have, so it
stays the same if the tree at hand has no part in the description.

* `ofView_spared`: what is read from a description apart from a tree stays the same.
* `items_extends`: making more does not change what is read from a description without nodes.
* `ofView_fresh`, `ofView_apart`: a description is read entry by entry.
-/

namespace WhereClause

namespace Forest

/-- The node is made, and it is another one than the tree. -/
structure Beside (forest : Forest) (tree id : NodeId) : Prop where
  other : id ≠ tree
  made : id.index < forest.nodes.size

/-- The value is neither the tree nor a list of the tree. -/
structure Apart (forest : Forest) (tree : NodeId) (v : Value) : Prop where
  node : ∀ id, v = .node id → forest.Beside tree id
  list : ∀ id stage, v = .conditions id stage → forest.Beside tree id

/-- The nodes are as they were, apart from the tree, and nothing was added to a list. -/
structure Spares (forest : Forest) (tree : NodeId) (other : Forest) : Prop where
  additions : other.additions = forest.additions
  nodes : forest.nodes.size ≤ other.nodes.size
  node : ∀ id, forest.Beside tree id → other.node id = forest.node id

namespace Spares

variable {forest middle other : Forest} {tree inner : NodeId} {v : Value}

theorem refl (forest : Forest) (tree : NodeId) : forest.Spares tree forest :=
  ⟨rfl, le_rfl, fun _ _ => rfl⟩

theorem trans (first : forest.Spares tree middle) (second : middle.Spares tree other) :
    forest.Spares tree other where
  additions := second.additions.trans first.additions
  nodes := first.nodes.trans second.nodes
  node id beside := by
    rw [second.node id ⟨beside.other, beside.made.trans_le first.nodes⟩, first.node id beside]

/-- A tree that is new does not count. -/
theorem trans_new (first : forest.Spares tree middle) (new : forest.nodes.size ≤ inner.index)
    (second : middle.Spares inner other) : forest.Spares tree other where
  additions := second.additions.trans first.additions
  nodes := first.nodes.trans second.nodes
  node id beside := by
    have others : id ≠ inner := by
      rintro rfl
      exact absurd beside.made (Nat.not_lt.mpr new)
    rw [second.node id ⟨others, beside.made.trans_le first.nodes⟩, first.node id beside]

theorem of_nodes (additions : other.additions = forest.additions)
    (nodes : other.nodes = forest.nodes) : forest.Spares tree other where
  additions := additions
  nodes := nodes ▸ le_rfl
  node id _ := by simp only [Forest.node, nodes]

theorem of_push {added : Node} (additions : other.additions = forest.additions)
    (nodes : other.nodes = forest.nodes.push added) : forest.Spares tree other where
  additions := additions
  nodes := by simp [nodes]
  node id beside := by rw [Forest.node_of_push nodes, if_neg beside.made.ne]

theorem setNode (forest : Forest) (tree : NodeId) (node : Node) :
    forest.Spares tree (forest.setNode tree node) where
  additions := rfl
  nodes := by simp [Forest.setNode]
  node id beside := by
    rw [node_setNode, if_neg]
    rintro ⟨rfl, -⟩
    exact beside.other rfl

theorem junction? (spares : forest.Spares tree other) {id : NodeId}
    (beside : forest.Beside tree id) : other.junction? id = forest.junction? id := by
  simp only [Forest.junction?, spares.node id beside]

theorem kept (spares : forest.Spares tree other) (apart : forest.Apart tree v) :
    other.kept v = forest.kept v := by
  cases v with
  | list mark vs => simp only [Forest.kept, spares.additions]
  | conditions id stage => simp only [Forest.kept, spares.junction? (apart.list id stage rfl)]
  | _ => rfl

theorem sequence? (spares : forest.Spares tree other) (apart : forest.Apart tree v) :
    other.sequence? v = forest.sequence? v := by
  simp only [Forest.sequence?, spares.kept apart]

theorem isEmptyTree (spares : forest.Spares tree other) {id : NodeId}
    (beside : forest.Beside tree id) : other.isEmptyTree id = forest.isEmptyTree id := by
  simp only [Forest.isEmptyTree, spares.junction? beside]

theorem isTruthy (spares : forest.Spares tree other) (apart : forest.Apart tree v)
    (notBinder : ∀ id, v ≠ .binder id) : other.isTruthy v = forest.isTruthy v := by
  have sequence := spares.sequence? apart
  cases v with
  | node id => simp only [Forest.isTruthy, spares.isEmptyTree (apart.node id rfl)]
  | binder id => exact absurd rfl (notBinder id)
  | _ => simp only [Forest.isTruthy, sequence]

theorem isFilledTree (spares : forest.Spares tree other) {id : NodeId}
    (beside : forest.Beside tree id) : other.isFilledTree id = forest.isFilledTree id := by
  simp only [Forest.isFilledTree, spares.junction? beside]

theorem atPosition (spares : forest.Spares tree other) (apart : forest.Apart tree v)
    (inner : List Item) :
    (Entry.atPosition other v).item? v inner = (Entry.atPosition forest v).item? v inner := by
  have truthy := spares.isTruthy apart
  cases v with
  | node id =>
      simp only [Entry.atPosition, truthy nofun, spares.isFilledTree (apart.node id rfl)]
  | binder id =>
      -- Neither what is given nor what is not given comes to an item here.
      simp only [Entry.atPosition]
      split <;> split <;> rfl
  | _ => simp only [Entry.atPosition, truthy nofun]

theorem underName (spares : forest.Spares tree other)
    (node : ∀ id, v = .node id → forest.Beside tree id) (key : String) :
    Entry.underName other key v = Entry.underName forest key v := by
  cases v with
  | node id => simp only [Entry.underName, spares.isFilledTree (node id rfl)]
  | _ => rfl

theorem classify (spares : forest.Spares tree other) {k : Value} (fixed : k.Fixed)
    (apart : forest.Apart tree v) (inner : List Item) :
    (Entry.classify other k v).item? v inner = (Entry.classify forest k v).item? v inner := by
  unfold Entry.classify
  split
  · exact spares.atPosition apart inner
  · rw [plainText_fixed forest other fixed, spares.underName apart.node]

end Spares

/-- What an entry that compares a field is read as does not depend on what its value holds. -/
theorem item?_of_fieldKey? {forest : Forest} {k v : Value} {key : Key}
    (named : forest.fieldKey? k = some key) (inner other : List Item) :
    (Entry.classify forest k v).item? v inner = (Entry.classify forest k v).item? v other := by
  simp only [fieldKey?, Option.ite_none_left_eq_some, Option.some.injEq, Bool.or_eq_true,
    not_or, Bool.not_eq_true, Option.isSome_eq_false_iff, Option.isNone_iff_eq_none] at named
  obtain ⟨named, ⟨connective, negation⟩, rfl⟩ := named
  simp only [Entry.classify, named, Entry.underName, connective, negation]
  cases v with
  | node id => by_cases filled : forest.isFilledTree id = true <;> simp [filled, Entry.item?]
  | _ => rfl

theorem Spares.classify_field {forest other : Forest} {tree : NodeId}
    (spares : forest.Spares tree other) {k v : Value} {key : Key} (fixed : k.Fixed)
    (named : forest.fieldKey? k = some key) (node : ∀ id, v = .node id → forest.Beside tree id) :
    Entry.classify other k v = Entry.classify forest k v := by
  have name : ¬ k.isNumeric = true := by
    intro numeric
    simp [fieldKey?, numeric] at named
  rw [Entry.classify, Entry.classify, if_neg name, if_neg name,
    plainText_fixed forest other fixed, spares.underName node]

end Forest

namespace View

mutual
/-- The tree has no part in the description, which is followed to its end. A list of the tree may
only be what a field is compared with. -/
def Apart (forest : Forest) (tree : NodeId) : View → Prop
  | atom v => ∀ id, v = .node id → forest.Beside tree id
  | sequence v elements =>
    (∀ id stage, v = .conditions id stage → forest.Beside tree id) ∧
      (∀ vs, forest.sequence? v = some vs → elements.map value = vs) ∧
      AllApart forest tree elements
  | dict _ entries => EntriesApart forest tree entries

def AllApart (forest : Forest) (tree : NodeId) : List View → Prop
  | [] => True
  | v :: rest => v.Apart forest tree ∧ AllApart forest tree rest

def EntriesApart (forest : Forest) (tree : NodeId) : List (View × View) → Prop
  | [] => True
  | (k, v) :: rest =>
    k.value.Fixed ∧
      (match forest.fieldKey? k.value with
        | some _ => ∀ id, v.value = .node id → forest.Beside tree id
        | none => v.Apart forest tree) ∧
      EntriesApart forest tree rest
end

variable {forest other : Forest} {tree : NodeId} {later later' : Value → List View}

theorem apart_of_view {u : Value} (apart : (ofValue later u).Apart forest tree) :
    forest.Apart tree u := by
  cases u <;> simp only [ofValue, Apart] at apart <;>
    first | exact ⟨apart, nofun⟩ | exact ⟨nofun, apart.1⟩ | exact ⟨nofun, nofun⟩

theorem allApart_iff {vs : List View} :
    AllApart forest tree vs ↔ ∀ v ∈ vs, v.Apart forest tree := by
  induction vs with
  | nil => simp [AllApart]
  | cons v rest ih => simp [AllApart, ih]

theorem allApart_append {vs ws : List View} :
    AllApart forest tree (vs ++ ws) ↔ AllApart forest tree vs ∧ AllApart forest tree ws := by
  simp only [allApart_iff, List.mem_append, or_imp, forall_and]

/-- What is kept for the lists is read alike, if it is apart from the tree. -/
def ReadAlike (forest : Forest) (tree : NodeId) (other : Forest)
    (later later' : Value → List View) : Prop :=
  ∀ v, forest.Apart tree v → (later v).map value = forest.kept v →
    AllApart forest tree (later v) →
    (later' v).flatMap (Item.ofElement other) = (later v).flatMap (Item.ofElement forest)

mutual
theorem ofView_spared (spares : forest.Spares tree other)
    (alike : ReadAlike forest tree other later later') :
    (v : Value) → (ofValue later v).Apart forest tree →
    Item.ofView other (ofValue later' v) = Item.ofView forest (ofValue later v)
  | .list mark vs, apart => by
      have here := apart_of_view apart
      obtain ⟨-, full, all⟩ := apart
      obtain ⟨written, kept⟩ := allApart_append.mp all
      have whole := full (vs ++ forest.kept (.list mark vs)) rfl
      rw [List.map_append, values_ofElements, List.append_cancel_left_eq] at whole
      simp only [ofValue, Item.ofView, Value.isOrdered, if_true, Item.ofElements_eq,
        List.flatMap_append]
      rw [ofElements_spared spares alike vs written, alike _ here whole kept]
  | .conditions id stage, apart => by
      have here := apart_of_view apart
      obtain ⟨-, full, kept⟩ := apart
      have whole := full (forest.kept (.conditions id stage)) rfl
      simp only [ofValue, Item.ofView, Value.isOrdered, if_true, Item.ofElements_eq]
      rw [alike _ here whole kept]
  | .tuple mark vs, ⟨_, _, written⟩ => by
      simp only [ofValue, Item.ofView, Value.isOrdered, if_true, Item.ofElements_eq]
      rw [ofElements_spared spares alike vs written]
  | .dict mark entries, apart => by
      simp only [ofValue, Item.ofView]
      exact ofEntries_spared spares alike entries apart
  | .node id, apart => by
      have beside := apart id rfl
      simp only [ofValue, Item.ofView, spares.isEmptyTree beside]
  | .set .., _ | .frozenSet .., _ | .binding .., _ => by
      simp only [ofValue, Item.ofView, Value.isOrdered]
      rfl
  | .null, _ | .bool _, _ | .int _, _ | .float _, _ | .text _, _ | .bytes _, _
  | .binder _, _ | .compiled _, _ | .outcome .., _ | .callable .., _ | .method .., _ => by
      simp only [ofValue, Item.ofView]

theorem ofElements_spared (spares : forest.Spares tree other)
    (alike : ReadAlike forest tree other later later') :
    (vs : List Value) → AllApart forest tree (ofElements later vs) →
    (ofElements later' vs).flatMap (Item.ofElement other) =
      (ofElements later vs).flatMap (Item.ofElement forest)
  | [], _ => by simp only [ofElements, List.flatMap_nil]
  | v :: rest, ⟨first, others⟩ => by
      simp only [ofElements, List.flatMap_cons, ofElements_spared spares alike rest others]
      simp only [Item.ofElement, value_ofValue, ofView_spared spares alike v first,
        spares.atPosition (apart_of_view first)]

theorem ofEntries_spared (spares : forest.Spares tree other)
    (alike : ReadAlike forest tree other later later') :
    (entries : List (Value × Value)) → EntriesApart forest tree (ofEntries later entries) →
    Item.ofEntries other (ofEntries later' entries) =
      Item.ofEntries forest (ofEntries later entries)
  | [], _ => by simp only [ofEntries, Item.ofEntries]
  | (k, v) :: rest, ⟨fixed, value, others⟩ => by
      simp only [ofEntries, Item.ofEntries, value_ofValue] at fixed value ⊢
      rw [ofEntries_spared spares alike rest others]
      congr 2
      cases named : forest.fieldKey? k with
      | some key =>
          simp only [named] at value
          rw [spares.classify_field fixed named value]
          exact Forest.item?_of_fieldKey? named _ _
      | none =>
          simp only [named] at value
          rw [spares.classify fixed (apart_of_view value), ofView_spared spares alike v value]
end

theorem ofElement_spared (spares : forest.Spares tree other)
    (alike : ReadAlike forest tree other later later') (v : Value)
    (apart : (ofValue later v).Apart forest tree) :
    Item.ofElement other (ofValue later' v) = Item.ofElement forest (ofValue later v) := by
  simp only [Item.ofElement, value_ofValue, ofView_spared spares alike v apart,
    spares.atPosition (apart_of_view apart)]

end View

namespace Forest

variable {forest other : Forest} {tree : NodeId} {entries : List (Value × Value)}

theorem Spares.readAlike (spares : forest.Spares tree other) {depth more : Nat}
    (le : depth ≤ more) :
    View.ReadAlike forest tree other (forest.laterWithin depth) (other.laterWithin more) := by
  -- The end is reached only where nothing is kept, since the views are followed to their end.
  induction depth generalizing more with
  | zero =>
      intro v apart whole _
      have empty : other.kept v = [] := by
        rw [spares.kept apart, ← whole]
        rfl
      cases more <;> simp [laterWithin, empty]
  | succ depth ih =>
      obtain ⟨more, rfl⟩ := Nat.exists_eq_add_of_le' (Nat.succ_le_of_lt (Nat.lt_of_lt_of_le
        (Nat.succ_pos depth) le))
      have alike := ih (Nat.le_of_succ_le_succ le)
      intro v apart _ all
      simp only [laterWithin, spares.kept apart, List.flatMap_map, viewWithin_eq] at all ⊢
      apply List.flatMap_congr
      intro u member
      exact View.ofElement_spared spares alike u
        (View.allApart_iff.mp all _ (List.mem_map_of_mem member))

def viewBound (forest : Forest) : Nat := forest.additions.length + 2 * forest.nodes.size

theorem view_eq (forest : Forest) (v : Value) :
    forest.view v = View.ofValue (forest.laterWithin (forest.viewBound + 1)) v := by
  rw [view, viewWithin_eq]
  rfl

theorem Spares.viewBound (spares : forest.Spares tree other) :
    forest.viewBound ≤ other.viewBound := by
  have := spares.nodes
  simp only [Forest.viewBound, spares.additions]
  omega

theorem ofView_spared (spares : forest.Spares tree other) {v : Value}
    (apart : (forest.view v).Apart forest tree) :
    Item.ofView other (other.view v) = Item.ofView forest (forest.view v) := by
  rw [view_eq] at apart
  rw [view_eq, view_eq]
  exact View.ofView_spared spares (spares.readAlike (Nat.succ_le_succ spares.viewBound)) v apart

end Forest

/-! ## Descriptions without nodes -/

section Plain

variable {forest other : Forest}

theorem Value.Below.beside {v : Value} (below : v.Below forest.nodes.size) (id : NodeId)
    (stage : Stage) (list : v = .conditions id stage) :
    forest.Beside ⟨forest.nodes.size⟩ id := by
  have bound := below id stage list
  refine ⟨?_, bound⟩
  rintro rfl
  exact bound.ne rfl

namespace View

mutual
/-- What holds no node is apart from a tree that is not made yet. -/
theorem apart_of_plain :
    (v : View) → v.Plain forest → v.Apart forest ⟨forest.nodes.size⟩
  | .atom v, plain => by
      rintro id rfl
      cases plain
  | .sequence _ elements, ⟨below, full, all⟩ =>
    ⟨below.beside, full, allApart_of_plain elements all⟩
  | .dict _ entries, plain => entriesApart_of_plain entries plain

theorem allApart_of_plain :
    (vs : List View) → AllPlain forest vs → AllApart forest ⟨forest.nodes.size⟩ vs
  | [], _ => trivial
  | v :: rest, ⟨first, others⟩ => ⟨apart_of_plain v first, allApart_of_plain rest others⟩

theorem entriesApart_of_plain :
    (entries : List (View × View)) → EntriesPlain forest entries →
      EntriesApart forest ⟨forest.nodes.size⟩ entries
  | [], _ => trivial
  | (k, v) :: rest, ⟨fixed, value, others⟩ => by
      refine ⟨fixed, ?_, entriesApart_of_plain rest others⟩
      cases named : forest.fieldKey? k.value with
      | some key =>
          simp only [named] at value
          intro id node
          rw [node] at value
          cases value.1
      | none =>
          simp only [named] at value
          exact apart_of_plain v value
end

end View

namespace Forest

theorem Extends.spares (extends' : forest.Extends other) :
    forest.Spares ⟨forest.nodes.size⟩ other :=
  ⟨extends'.additions, extends'.nodes, fun id beside => extends'.node id beside.made⟩

/-- Making more does not change what is read. -/
theorem items_extends (extends' : forest.Extends other) {description : Value}
    (plain : (forest.view description).Plain forest) :
    other.items description = forest.items description := by
  have apart := View.apart_of_plain _ plain
  have read := ofView_spared extends'.spares apart
  rw [view_eq] at apart
  have here := View.apart_of_view apart
  simp only [items, read]
  by_cases isBinder : ∃ id, description = .binder id
  · obtain ⟨id, rfl⟩ := isBinder
    simp only [view_eq, View.ofValue, Item.ofView, ite_self]
  · rw [extends'.spares.isTruthy here fun id same => isBinder ⟨id, same⟩]

end Forest

end Plain

namespace Forest

variable {forest other : Forest} {tree : NodeId} {entries : List (Value × Value)}

/-! ## Entry by entry -/

/-- The entries of a description. An element of a list is an entry at a position, and it does not
matter at which one; so is a text by itself. -/
def entries? (forest : Forest) : Value → Option (List (Value × Value))
  | .text s => if s = "" then none else some [(.int 0, .text s)]
  | .dict _ entries => some entries
  | v => if v.isOrdered then (forest.sequence? v).map (·.map fun u => (.int 0, u)) else none

def entryItems (forest : Forest) (entry : Value × Value) : List Item :=
  ((Entry.classify forest entry.1 entry.2).item? entry.2
    (Item.ofView forest (forest.view entry.2))).toList

theorem entryItems_element (forest : Forest) (v : Value) :
    forest.entryItems (.int 0, v) = Item.ofElement forest (forest.view v) := by
  rw [Item.ofElement, value_view]
  rfl

/-- The elements as entries at positions. -/
def atPositions (vs : List Value) : List (Value × Value) := vs.map fun u => (.int 0, u)

theorem items_of_elements (forest : Forest) (vs : List Value) :
    (View.ofElements (forest.laterWithin (forest.viewBound + 1)) vs).flatMap
        (Item.ofElement forest) =
      (atPositions vs).flatMap forest.entryItems := by
  induction vs with
  | nil => rfl
  | cons v rest ih =>
      rw [View.ofElements, List.flatMap_cons, ih, ← view_eq, ← entryItems_element]
      rfl

theorem items_of_entries (forest : Forest) (entries : List (Value × Value)) :
    Item.ofEntries forest (View.ofEntries (forest.laterWithin (forest.viewBound + 1)) entries) =
      entries.flatMap forest.entryItems := by
  induction entries with
  | nil => simp only [View.ofEntries, Item.ofEntries, List.flatMap_nil]
  | cons entry rest ih =>
      simp only [View.ofEntries, Item.ofEntries, ih, ← view_eq, value_view, List.flatMap_cons,
        entryItems]

/-- A description is read entry by entry, if what is kept for it is read so. -/
theorem ofView_of_entries {v : Value} (read : forest.entries? v = some entries)
    (kept : (forest.laterWithin (forest.viewBound + 1) v).flatMap (Item.ofElement forest) =
      (atPositions (forest.kept v)).flatMap forest.entryItems) :
    Item.ofView forest (forest.view v) = entries.flatMap forest.entryItems := by
  rw [view_eq]
  cases v with
  | text s =>
      by_cases empty : s = ""
      · simp [entries?, empty] at read
      · simp only [entries?, empty, if_false, Option.some.injEq] at read
        subst read
        simp [View.ofValue, Item.ofView, entryItems, Entry.classify, Value.isNumeric,
          Entry.atPosition, isTruthy, Entry.item?, empty]
  | dict mark own =>
      cases read
      rw [View.ofValue, Item.ofView, items_of_entries]
  | list mark vs =>
      simp only [entries?, Value.isOrdered, if_true, Forest.sequence?, Value.written?,
        Option.map_some, Option.some.injEq] at read
      subst read
      simp only [View.ofValue, Item.ofView, Value.isOrdered, if_true, Item.ofElements_eq,
        List.flatMap_append, items_of_elements, kept, List.map_append, atPositions]
  | tuple mark vs =>
      simp only [entries?, Value.isOrdered, if_true, Forest.sequence?, Value.written?, Forest.kept,
        Option.map_some, Option.some.injEq, List.append_nil] at read
      subst read
      simp only [View.ofValue, Item.ofView, Value.isOrdered, if_true, Item.ofElements_eq,
        items_of_elements, atPositions]
  | conditions id stage =>
      simp only [entries?, Value.isOrdered, if_true, Forest.sequence?, Value.written?,
        Option.map_some, Option.some.injEq, List.nil_append] at read
      subst read
      simp only [View.ofValue, Item.ofView, Value.isOrdered, if_true, Item.ofElements_eq, kept,
        atPositions]
  | _ => simp [entries?, Value.isOrdered] at read

theorem ofView_fresh {v : Value} (fresh : forest.kept v = [])
    (read : forest.entries? v = some entries) :
    Item.ofView forest (forest.view v) = entries.flatMap forest.entryItems :=
  ofView_of_entries read (by simp [laterWithin, fresh, atPositions])

theorem ofView_apart {v : Value} (apart : (forest.view v).Apart forest tree)
    (read : forest.entries? v = some entries) :
    Item.ofView forest (forest.view v) = entries.flatMap forest.entryItems := by
  have all : View.AllApart forest tree (forest.laterWithin (forest.viewBound + 1) v) := by
    rw [view_eq] at apart
    cases v with
    | list mark vs => exact (View.allApart_append.mp apart.2.2).2
    | conditions id stage => exact apart.2.2
    | _ => trivial
  have alike := (Spares.refl forest tree).readAlike (Nat.le_succ forest.viewBound)
  refine ofView_of_entries read ?_
  simp only [laterWithin, atPositions, List.flatMap_map, viewWithin_eq] at all ⊢
  apply List.flatMap_congr
  intro u member
  rw [entryItems_element, view_eq]
  exact (View.ofElement_spared (.refl forest tree) alike u
    (View.allApart_iff.mp all _ (List.mem_map_of_mem member))).symm

end Forest
end WhereClause
