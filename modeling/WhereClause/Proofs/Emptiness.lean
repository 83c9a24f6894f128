import WhereClause.Proofs.Compiling

/-!
# Empty trees below a tree

A group that holds no item is skipped. A group whose items are all skipped is not: it becomes an
empty tree, which renders as nothing between two connectives. Such groups are the only way in which
a description puts an empty tree below another one.

* `emptyBelow_iff_hollow`: a tree made from a description, or added to, has an empty tree below it
  exactly if a group of the description is hollow.
-/

namespace WhereClause

namespace Forest

/-- An empty tree is at the value or below it, by way of conditions and arguments of negations. -/
inductive HoldsEmpty (forest : Forest) : Value → Prop
  | here {id : NodeId} {j : Junction} (found : forest.junction? id = some j)
      (empty : j.conditions = []) : HoldsEmpty forest (.node id)
  | condition {id : NodeId} {j : Junction} {v : Value} (found : forest.junction? id = some j)
      (member : v ∈ j.conditions) (below : HoldsEmpty forest v) : HoldsEmpty forest (.node id)
  | argument {id : NodeId} {u : Unary} (found : forest.node id = .unary u)
      (below : HoldsEmpty forest u.argument) : HoldsEmpty forest (.node id)

/-- An empty tree is strictly below the tree. -/
def EmptyBelow (forest : Forest) (tree : NodeId) : Prop :=
  ∃ j, forest.junction? tree = some j ∧ ∃ v ∈ j.conditions, forest.HoldsEmpty v

/-- Nodes refer to nodes that there are. -/
def Closed (forest : Forest) : Prop :=
  ∀ id, ∀ child ∈ (forest.node id).children, child.index < forest.nodes.size

end Forest

namespace Item

def isSkipped : Item → Bool
  | group _ items | negation items => items.isEmpty
  | _ => false

mutual
/-- Whether a group or negation in the item holds items, and all of them are skipped. -/
def isHollow : Item → Bool
  | group _ items | negation items => (!items.isEmpty && items.all isSkipped) || anyHollow items
  | _ => false

def anyHollow : List Item → Bool
  | [] => false
  | item :: rest => item.isHollow || anyHollow rest
end

end Item

namespace Draft

mutual
def holdsEmpty : Draft → Bool
  | tree _ _ parts => parts.isEmpty || anyEmpty parts
  | negation inner => inner.holdsEmpty
  | _ => false

def anyEmpty : List Draft → Bool
  | [] => false
  | d :: rest => d.holdsEmpty || anyEmpty rest
end

theorem anyEmpty_append (parts more : List Draft) :
    anyEmpty (parts ++ more) = (anyEmpty parts || anyEmpty more) := by
  induction parts with
  | nil => rfl
  | cons d rest ih => simp only [List.cons_append, anyEmpty, ih, Bool.or_assoc]

theorem anyEmpty_iff {holds : Value → Prop} {conditions : List Value} {parts : List Draft}
    (each : List.Forall₂ (fun v d => holds v ↔ d.holdsEmpty = true) conditions parts) :
    anyEmpty parts = true ↔ ∃ v ∈ conditions, holds v := by
  induction each with
  | nil => simp [anyEmpty]
  | cons same _ ih => simp [anyEmpty, ih, same]

end Draft

namespace Item

variable (settings : Settings) (types : Table String String) {n : Nat}

theorem isEmpty_draft (next : Nat) (b : Binder) (item : Item)
    (plain : ∀ leaf ∈ item.leaves, leaf.Plain n) :
    (draft settings types next b item).made.toList.isEmpty = item.isSkipped := by
  cases item with
  | nested id => exact (plain (.node id) (by simp [leaves])).elim
  | raw text => simp only [draft, isSkipped, Option.toList_some, List.isEmpty_cons]
  | field key value => simp only [draft, isSkipped, Option.toList_some, List.isEmpty_cons]
  | group connective items | negation items =>
      simp only [draft, isSkipped]
      cases items.isEmpty <;> rfl

theorem isEmpty_draftAll (next : Nat) (b : Binder) (items : List Item)
    (plain : ∀ leaf ∈ allLeaves items, leaf.Plain n) :
    (draftAll settings types next b items).made.isEmpty = items.all isSkipped := by
  induction items generalizing next b with
  | nil => rfl
  | cons item rest ih =>
      obtain ⟨here, later⟩ := List.forall_mem_append.mp plain
      simp only [draftAll, List.all_cons, ← isEmpty_draft settings types next b item here,
        ← ih (draft settings types next b item).next
        (draft settings types next b item).binder later]
      cases (draft settings types next b item).made.toList <;> rfl

mutual
theorem anyEmpty_draft (next : Nat) (b : Binder) : (item : Item) →
    (∀ leaf ∈ item.leaves, leaf.Plain n) →
    Draft.anyEmpty (draft settings types next b item).made.toList = item.isHollow
  | .nested id, plain => (plain (.node id) (by simp [leaves])).elim
  | .raw text, _ => by
      simp only [draft, isHollow, Option.toList_some, Draft.anyEmpty, Draft.holdsEmpty,
        Bool.or_self]
  | .field key value, _ => by
      simp only [draft, draftField, isHollow, Option.toList_some, Draft.anyEmpty, Bool.or_false]
      split <;> simp only [Draft.holdsEmpty]
  | .group _ items, plain | .negation items, plain => by
      have inner := anyEmpty_draftAll (next + 1) (.fresh next) items plain
      have parts := isEmpty_draftAll settings types (next + 1) (.fresh next) items plain
      simp only [draft, isHollow]
      cases items with
      | nil => rfl
      | cons item rest =>
          simp only [List.isEmpty_cons, Bool.false_eq_true, if_false, Option.toList_some,
            Draft.anyEmpty, Draft.holdsEmpty, inner, parts, Bool.or_false, Bool.not_false,
            Bool.true_and]

theorem anyEmpty_draftAll (next : Nat) (b : Binder) : (items : List Item) →
    (∀ leaf ∈ allLeaves items, leaf.Plain n) →
    Draft.anyEmpty (draftAll settings types next b items).made = anyHollow items
  | [], _ => by simp only [draftAll, anyHollow, Draft.anyEmpty]
  | item :: rest, plain => by
      obtain ⟨here, later⟩ := List.forall_mem_append.mp plain
      have first := anyEmpty_draft next b item here
      have others := anyEmpty_draftAll (draft settings types next b item).next
        (draft settings types next b item).binder rest later
      simp only [draftAll, Draft.anyEmpty_append, anyHollow, first, others]
end

end Item

theorem Drafts.holdsEmpty_iff {forest : Forest} {low lowBinder : Nat} {v : Value} {d : Draft}
    (drafts : Drafts forest low lowBinder v d) :
    forest.HoldsEmpty v ↔ d.holdsEmpty = true := by
  induction drafts with
  | raw s | member key placeholder =>
      simp only [Draft.holdsEmpty, Bool.false_eq_true, iff_false]
      exact nofun
  | leaf new found =>
      simp only [Draft.holdsEmpty, Bool.false_eq_true, iff_false]
      intro holds
      cases holds with
      | here tree | condition tree => simp [Forest.junction?, found] at tree
      | argument unary => simp [found] at unary
  | negation new found drafts ih =>
      rw [Draft.holdsEmpty, ← ih]
      constructor
      · intro holds
        cases holds with
        | here tree | condition tree => simp [Forest.junction?, found] at tree
        | argument unary below =>
            rw [found] at unary
            cases unary
            exact below
      · exact fun below => .argument found below
  | @tree id j connective parts new found isOpen written newBinder known lengths each ih =>
      have conditions := List.forall₂_iff_zip.mpr ⟨lengths, fun member => ih _ _ member⟩
      rw [Draft.holdsEmpty, Bool.or_eq_true, List.isEmpty_iff, Draft.anyEmpty_iff conditions]
      constructor
      · intro holds
        cases holds with
        | here tree empty =>
            cases Option.some.inj (found.symm.trans tree)
            rw [empty] at lengths
            exact .inl (List.eq_nil_of_length_eq_zero lengths.symm)
        | condition tree member below =>
            cases Option.some.inj (found.symm.trans tree)
            exact .inr ⟨_, member, below⟩
        | argument unary =>
            rw [Forest.junction?_eq_some.mp found] at unary
            cases unary
      · rintro (empty | ⟨v, member, below⟩)
        · rw [empty] at lengths
          exact .here found (List.eq_nil_of_length_eq_zero lengths)
        · exact .condition found member below

theorem Forest.Closed.condition {forest : Forest} (closed : forest.Closed) {tree : NodeId}
    {j : Junction} (found : forest.junction? tree = some j) {v : Value} (member : v ∈ j.conditions)
    (child : NodeId) (node : v = .node child) : child.index < forest.nodes.size := by
  apply closed tree
  rw [Forest.junction?_eq_some.mp found, Node.children, List.mem_filterMap]
  exact ⟨v, member, by rw [node, Value.node?]⟩

/-- What was there before holds no empty tree that it did not hold, unless it leads to the tree to
which conditions were added. -/
theorem Workspace.Builds.old_holdsEmpty {n : Nat} {tree : NodeId} {j : Junction}
    {more : List Value} {made : Drafted (List Draft)} {w after : Workspace}
    (builds : Builds n tree j.binder more made w after) (closed : w.Closed)
    (found : w.junction? tree = some j)
    (foundAfter : after.junction? tree = some { j with conditions := j.conditions ++ more })
    {v : Value} (old : ∀ id, v = .node id → id.index < w.nodes.size)
    (holds : after.HoldsEmpty v) : w.HoldsEmpty v ∨ Draft.anyEmpty made.made = true := by
  -- Along the way to the empty tree: at the tree at hand it can turn to what was added.
  induction holds with
  | @here id k tree' empty =>
      left
      by_cases same : id = tree
      · subst same
        rw [foundAfter, Option.some.injEq] at tree'
        rw [← tree'] at empty
        exact .here found (List.append_eq_nil_iff.mp empty).1
      · rw [builds.grows.junction? (old id rfl) same] at tree'
        exact .here tree' empty
  | @condition id k v tree' member below ih =>
      by_cases same : id = tree
      · subst same
        rw [foundAfter, Option.some.injEq] at tree'
        rw [← tree'] at member
        rcases List.mem_append.mp member with before | added
        · exact (ih (closed.condition found before)).imp_left fun below =>
            .condition found before below
        · right
          rw [Draft.anyEmpty_iff (builds.drafts.imp fun v d drafts => drafts.holdsEmpty_iff)]
          exact ⟨v, added, below⟩
      · rw [builds.grows.junction? (old id rfl) same] at tree'
        exact (ih (closed.condition tree' member)).imp_left fun below =>
          .condition tree' member below
  | @argument id u unary below ih =>
      have different : id ≠ tree := by
        rintro rfl
        rw [Forest.junction?_eq_some.mp foundAfter] at unary
        cases unary
      rw [builds.grows.node id (old id rfl) different] at unary
      have closed' (child : NodeId) (node : u.argument = .node child) :
          child.index < w.nodes.size := by
        apply closed id
        rw [unary, Node.children, node]
        simp [Value.node?]
      exact (ih closed').imp_left fun below => .argument unary below

theorem Drafts.emptyBelow_iff {forest : Forest} {low lowBinder : Nat} {tree : NodeId}
    {connective : String} {b : Binder} {parts : List Draft}
    (drafts : Drafts forest low lowBinder (.node tree) (.tree connective b parts)) :
    forest.EmptyBelow tree ↔ Draft.anyEmpty parts = true := by
  cases drafts with
  | @tree _ j _ _ new found isOpen written newBinder known lengths each =>
      have conditions : List.Forall₂ (fun v d => forest.HoldsEmpty v ↔ d.holdsEmpty = true)
          j.conditions parts :=
        List.forall₂_iff_zip.mpr ⟨lengths, fun member => (each _ _ member).holdsEmpty_iff⟩
      rw [Draft.anyEmpty_iff conditions]
      constructor
      · rintro ⟨k, tree, below⟩
        cases Option.some.inj (found.symm.trans tree)
        exact below
      · exact fun below => ⟨j, found, below⟩

namespace WorkspaceM

variable {w : Workspace} {description types : Value} {table : Table String String}

theorem emptyBelow_newTree (typed : types.typeTable? = some table)
    (plain : (w.view description).Plain w.toForest) {connective : Value} {c : String}
    (joins : w.settings.joins? connective = some c) :
    ∃ tree after, run (newTree description types connective none) w = (.ok tree, after) ∧
      (after.EmptyBelow tree ↔ Item.anyHollow (w.items description) = true) := by
  obtain ⟨after, done, plants⟩ := newTree_ok joins typed plain
  refine ⟨_, after, done, ?_⟩
  have leaves := Forest.plain_of_covers plain (Forest.covers_items plain)
  rw [plants.drafts.emptyBelow_iff, Item.anyEmpty_draftAll _ _ _ _ _ leaves]

theorem emptyBelow_add (typed : types.typeTable? = some table)
    (plain : (w.view description).Plain w.toForest) {tree : NodeId} {j : Junction}
    (found : w.junction? tree = some j) (isOpen : j.compiled = none)
    (known : j.binder.index < w.binders.size) (closed : w.Closed) (before : ¬w.EmptyBelow tree) :
    ∃ after, run (add tree description types) w = (.ok (), after) ∧
      (after.EmptyBelow tree ↔
        Item.anyHollow (Item.ofView w.toForest (w.view description)) = true) := by
  have leaves := Forest.plain_of_covers plain (Forest.covers_ofView plain)
  obtain ⟨more, after, done, tree', builds⟩ := add_ok typed leaves found isOpen known rfl
  refine ⟨after, done, ?_⟩
  have drafted := Item.anyEmpty_draftAll w.settings table w.nextIdentifier (w.binder j.binder) _
    leaves
  have added := Draft.anyEmpty_iff (builds.drafts.imp fun v d drafts => drafts.holdsEmpty_iff)
  rw [← drafted]
  constructor
  · rintro ⟨k, tree'', v, member, holds⟩
    cases Option.some.inj (tree'.symm.trans tree'')
    rcases List.mem_append.mp member with old | new
    · rcases builds.old_holdsEmpty closed found tree' (closed.condition found old) holds with
        below | drafted
      · exact absurd ⟨j, found, v, old, below⟩ before
      · exact drafted
    · exact added.mpr ⟨v, new, holds⟩
  · intro empty
    obtain ⟨v, member, holds⟩ := added.mp empty
    exact ⟨_, tree', v, List.mem_append_right _ member, holds⟩

/-- A tree made from a description, or added to, has an empty tree below it exactly if an item of
the description is hollow; before anything was added there was none. -/
theorem emptyBelow_iff_hollow (typed : types.typeTable? = some table)
    (plain : (w.view description).Plain w.toForest) :
    (∀ connective c, w.settings.joins? connective = some c →
      ∃ tree after, run (newTree description types connective none) w = (.ok tree, after) ∧
        (after.EmptyBelow tree ↔ Item.anyHollow (w.items description) = true)) ∧
    (∀ tree j, w.junction? tree = some j → j.compiled = none → j.binder.index < w.binders.size →
      w.Closed → ¬w.EmptyBelow tree →
      ∃ after, run (add tree description types) w = (.ok (), after) ∧
        (after.EmptyBelow tree ↔
          Item.anyHollow (Item.ofView w.toForest (w.view description)) = true)) :=
  ⟨fun _ _ joins => emptyBelow_newTree typed plain joins,
    fun _ _ found isOpen known closed before =>
      emptyBelow_add typed plain found isOpen known closed before⟩

def hollowConditions : Value :=
  .list ⟨1⟩ [.text "a = 1", .dict ⟨2⟩ [(.text "OR", .list ⟨3⟩ [])]]

def oneTree : Workspace :=
  { nodes := #[.junction { connective := .text "AND", binder := ⟨0⟩ }]
    binders := #[.fresh 1]
    nextIdentifier := 2 }

theorem plain_hollowConditions : (oneTree.view hollowConditions).Plain oneTree.toForest := by
  have keyword : oneTree.fieldKey? (.text "OR") = none := by decide +kernel
  apply Forest.plain_of_describes rfl
  simp only [hollowConditions, Forest.Describes, Forest.EntriesDescribe, Forest.AllDescribe,
    keyword]
  exact ⟨trivial, ⟨trivial, trivial, trivial⟩, trivial⟩

theorem emptyBelow_hollowConditions :
    (∃ tree after, run (newTree hollowConditions .null .null none) oneTree = (.ok tree, after) ∧
      after.EmptyBelow tree) ∧
    (∃ after, run (add ⟨0⟩ hollowConditions .null) oneTree = (.ok (), after) ∧
      after.EmptyBelow ⟨0⟩) := by
  have typed : Value.null.typeTable? = some [] := rfl
  obtain ⟨made, added⟩ := emptyBelow_iff_hollow typed plain_hollowConditions
  have closed : oneTree.Closed := by
    intro id child member
    rcases id with ⟨_ | index⟩ <;> simp [oneTree, Forest.node, Node.children] at member
  have before : ¬oneTree.EmptyBelow ⟨0⟩ := by
    rintro ⟨j, found, v, member, -⟩
    cases found
    cases member
  obtain ⟨tree, after, done, empty⟩ := made .null "AND" (by decide +kernel)
  obtain ⟨last, done', empty'⟩ := added ⟨0⟩ _ rfl rfl (by decide) closed before
  exact ⟨⟨tree, after, done, empty.mpr (by decide +kernel)⟩,
    ⟨last, done', empty'.mpr (by decide +kernel)⟩⟩

example :
    let conditions := Value.list ⟨1⟩ [.text "a = 1", .dict ⟨2⟩ [(.text "OR", .list ⟨3⟩ [])]]
    (run (compileDescription conditions .null (.text "AND")) {}).1.toOption.map (·.sql) =
      some "(a = 1 AND )" := by
  decide +kernel

end WorkspaceM

end WhereClause
