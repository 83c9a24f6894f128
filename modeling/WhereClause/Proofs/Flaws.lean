import WhereClause.Proofs.Orders

/-!
# Why rendering fails

A node is flawed if it cannot be rendered whatever is below it. Rendering a node fails exactly if
a node at or below it is flawed, and then as the first of these does, a node being before what is
below it, and from left to right. Trees that are compiled already are not looked into again, but
nothing below them is flawed.

* `strict_within`: at every depth, rendering fails as the first flaw says.
* `rendering_fails_iff`: after every run, this is so for every node that is not below itself.
-/

namespace WhereClause

/-- Why rendering the node itself fails, if it does. -/
def Node.flaw? : Node → Option Fault
  | junction _ | fragment _ => none
  | comparison c => if Text.trim c.operator = "" then some (.blankOperator c.field) else none
  | unary u =>
    if u.symbol = "" then some .missingSymbol
    else match u.argument with
      | .null => some .missingArgument
      | _ => none
  | abstract => some .abstractNode

/-- What is meant for a condition of a tree. -/
def Value.IsTextOrNode (v : Value) : Prop := (∃ s, v = .text s) ∨ ∃ id, v = .node id

theorem Node.flaw?_ne_noAttribute (node : Node) : node.flaw? ≠ some .noAttribute := by
  cases node with
  | unary u =>
      simp only [flaw?]
      split
      · nofun
      · split <;> nofun
  | comparison c =>
      simp only [flaw?]
      split <;> nofun
  | _ => nofun

theorem Node.flaw?_of_comparison {c : Comparison} (operator : Text.trim c.operator ≠ "") :
    (comparison c).flaw? = none := if_neg operator

theorem Node.flaw?_of_unary {u : Unary} (symbol : u.symbol ≠ "") (given : u.argument ≠ .null) :
    (unary u).flaw? = none := by
  simp only [flaw?, if_neg symbol]

theorem findSome?_flatMap {α β γ : Type} (l : List α) (f : α → List β) (g : β → Option γ) :
    (l.flatMap f).findSome? g = l.findSome? fun a => (f a).findSome? g := by
  induction l with
  | nil => rfl
  | cons a rest ih =>
      rw [List.flatMap_cons, List.findSome?_append, ih, List.findSome?_cons]
      cases (f a).findSome? g <;> rfl

namespace Forest

variable {forest : Forest} {id : NodeId} {depth : Nat}

/-- The nodes at and below a node, each before those below it, as far down as the depth. -/
def preorderWithin (forest : Forest) : Nat → NodeId → List NodeId
  | 0, _ => []
  | depth + 1, id => id :: (forest.node id).children.flatMap (forest.preorderWithin depth)

def preorder (forest : Forest) (id : NodeId) : List NodeId :=
  forest.preorderWithin forest.depthBound id

def flawWithin (forest : Forest) (depth : Nat) (id : NodeId) : Option Fault :=
  (forest.preorderWithin depth id).findSome? fun lower => (forest.node lower).flaw?

theorem flawWithin_succ (forest : Forest) (depth : Nat) (id : NodeId) :
    forest.flawWithin (depth + 1) id =
      (forest.node id).flaw?.or
        ((forest.node id).children.findSome? (forest.flawWithin depth)) := by
  rw [flawWithin, preorderWithin, List.findSome?_cons, findSome?_flatMap]
  cases (forest.node id).flaw? <;> rfl

theorem flawWithin_ne_noAttribute (forest : Forest) (depth : Nat) (id : NodeId) :
    forest.flawWithin depth id ≠ some .noAttribute := by
  intro same
  obtain ⟨_, lower, _, -, here, -⟩ := List.findSome?_eq_some_iff.mp same
  exact Node.flaw?_ne_noAttribute _ here

theorem reaches_of_mem_preorderWithin {lower : NodeId}
    (member : lower ∈ forest.preorderWithin depth id) : forest.Reaches id lower := by
  induction depth generalizing id with
  | zero => simp [preorderWithin] at member
  | succ depth ih =>
      simp only [preorderWithin, List.mem_cons, List.mem_flatMap] at member
      rcases member with rfl | ⟨child, step, member⟩
      · exact .refl
      · exact .head step (ih member)

/-- Every path down from the node ends within that many nodes, and the conditions of the trees on
it are texts and nodes. -/
def ProperWithin (forest : Forest) : Nat → NodeId → Prop
  | 0, _ => False
  | depth + 1, id =>
    (∀ j, forest.junction? id = some j → ∀ v ∈ j.conditions, v.IsTextOrNode) ∧
    ∀ child, forest.Child id child → forest.ProperWithin depth child

/-- No node at or below the root is below itself, and the conditions of the trees there are texts
and nodes. -/
structure Proper (forest : Forest) (root : NodeId) : Prop where
  acyclic : ∀ id, forest.Reaches root id → ¬ forest.Below id id
  worded : ∀ id j, forest.Reaches root id → forest.junction? id = some j →
    ∀ v ∈ j.conditions, v.IsTextOrNode

theorem mem_preorderWithin (proper : forest.ProperWithin depth id) {lower : NodeId} :
    lower ∈ forest.preorderWithin depth id ↔ forest.Reaches id lower := by
  refine ⟨reaches_of_mem_preorderWithin, fun path => ?_⟩
  induction depth generalizing id with
  | zero => exact proper.elim
  | succ depth ih =>
      simp only [preorderWithin, List.mem_cons, List.mem_flatMap]
      rcases path.cases_head with rfl | ⟨child, step, rest⟩
      · exact .inl rfl
      · exact .inr ⟨child, step, ih (proper.2 child step) rest⟩

theorem Proper.below (proper : forest.Proper id) {child : NodeId} (step : forest.Child id child) :
    forest.Proper child :=
  ⟨fun lower path => proper.acyclic lower (.head step path),
    fun lower j path => proper.worded lower j (.head step path)⟩

open Classical in
theorem rank_lt_size (inside : id.index < forest.nodes.size) (finite : ¬ forest.Below id id) :
    forest.rank id < forest.nodes.size := by
  have fewer : forest.rank id < (Finset.range forest.nodes.size).card :=
    Finset.card_lt_card (Finset.filter_ssubset.mpr
      ⟨id.index, Finset.mem_range.mpr inside, finite⟩)
  rwa [Finset.card_range] at fewer

/-- A handle that names nothing has nothing below it. -/
theorem not_child_of_outside (outside : ¬ id.index < forest.nodes.size) (child : NodeId) :
    ¬ forest.Child id child := by
  simp [Child, node, Array.getElem?_eq_none (Nat.le_of_not_lt outside), Node.children]

/-- Nothing is below itself if every node was made after those below it. -/
theorem not_below_self_of_earlier
    (earlier : ∀ i < forest.nodes.size, ∀ child ∈ (forest.node ⟨i⟩).children, child.index < i)
    (id : NodeId) : ¬ forest.Below id id := by
  have step (id child : NodeId) (step : forest.Child id child) : child.index < id.index := by
    by_cases inside : id.index < forest.nodes.size
    · exact earlier id.index inside child step
    · exact absurd step (not_child_of_outside inside child)
  have descends {id lower : NodeId} (below : forest.Below id lower) : lower.index < id.index := by
    induction below with
    | single last => exact step _ _ last
    | tail _ last ih => exact (step _ _ last).trans ih
  exact fun cycle => Nat.lt_irrefl _ (descends cycle)

theorem Proper.within (proper : forest.Proper id)
    (enough : if id.index < forest.nodes.size then forest.rank id + 1 < depth else 0 < depth) :
    forest.ProperWithin depth id := by
  induction depth generalizing id with
  | zero => split at enough <;> exact absurd enough (Nat.not_lt_zero _)
  | succ depth ih =>
      refine ⟨fun j => proper.worded id j .refl, fun child step => ih (proper.below step) ?_⟩
      have inside : id.index < forest.nodes.size := by
        by_contra outside
        exact not_child_of_outside outside child step
      rw [if_pos inside] at enough
      split
      · rename_i lower
        have less := rank_lt step lower (proper.acyclic child (.single step))
        omega
      · omega

/-- With as many levels as there may be, everything below a node is reached. -/
theorem Proper.withinBound (proper : forest.Proper id) :
    forest.ProperWithin forest.depthBound id := by
  apply proper.within
  unfold depthBound
  split
  · rename_i inside
    have := rank_lt_size inside (proper.acyclic id .refl)
    omega
  · omega

theorem exists_flaw_iff (proper : forest.ProperWithin depth id) :
    (∃ fault, forest.flawWithin depth id = some fault) ↔
      ∃ lower, forest.Reaches id lower ∧ (forest.node lower).flaw?.isSome = true := by
  rw [← Option.isSome_iff_exists, flawWithin, List.findSome?_isSome_iff]
  simp only [mem_preorderWithin proper]

end Forest

/-! ## Flaws while nodes are rendered -/

/-- What yields texts is not flawed. -/
theorem Yields.flaw?_eq_none {forest : Forest} {reading : Reading} {id : NodeId} {texts : Texts}
    (yields : Yields forest reading (.node id) texts) : (forest.node id).flaw? = none := by
  have known := yields.of_node
  cases kind : forest.node id with
  | comparison c =>
      rw [kind] at known
      exact Node.flaw?_of_comparison known.1
  | unary u =>
      rw [kind] at known
      obtain ⟨symbol, ⟨given, -, -⟩ | ⟨argument, -, nested, -, -⟩⟩ := known
      · exact Node.flaw?_of_unary symbol given
      · exact Node.flaw?_of_unary symbol (nested ▸ nofun)
  | abstract => simp [kind] at known
  | _ => rfl

theorem Yields.flawWithin_eq_none {forest : Forest} {reading : Reading} {id : NodeId}
    {texts : Texts} (faithful : reading.Faithful)
    (yields : Yields forest reading (.node id) texts) (depth : Nat) :
    forest.flawWithin depth id = none := by
  rw [Forest.flawWithin, List.findSome?_eq_none_iff]
  intro lower member
  obtain ⟨_, inner⟩ := yields.reached faithful (Forest.reaches_of_mem_preorderWithin member)
  exact inner.flaw?_eq_none

theorem Rewrites.nodes {rewrite : Value → Value} (rewrites : Rewrites rewrite)
    (conditions : List Value) :
    (conditions.map rewrite).filterMap Value.node? = conditions.filterMap Value.node? := by
  rw [List.filterMap_map]
  congr 1
  funext v
  rcases rewrites v with ⟨s, t, rfl, same⟩ | ⟨-, same⟩
  · simp [same, Value.node?]
  · simp [same]

theorem Rewrites.conditions {rewrite : Value → Value} (rewrites : Rewrites rewrite)
    {conditions : List Value} (meant : ∀ v ∈ conditions, v.IsTextOrNode) :
    ∀ v ∈ conditions.map rewrite, v.IsTextOrNode := by
  rw [List.forall_mem_map]
  intro v member
  rcases rewrites v with ⟨_, t, -, text⟩ | ⟨-, same⟩
  · exact .inl ⟨t, text⟩
  · rw [same]
    exact meant v member

namespace Workspace.Ripens

variable {w after : Workspace}

theorem flaw? (ripens : w.Ripens after) (id : NodeId) :
    (after.node id).flaw? = (w.node id).flaw? := by
  rcases ripens.node id with same | ⟨j, _, _, found, -, -, made⟩
  · rw [same]
  · rw [made, Forest.junction?_eq_some.mp found]
    rfl

theorem preorderWithin (ripens : w.Ripens after) (depth : Nat) (id : NodeId) :
    after.preorderWithin depth id = w.preorderWithin depth id := by
  induction depth generalizing id with
  | zero => rfl
  | succ depth ih =>
      simp only [Forest.preorderWithin, ripens.children, funext ih]

theorem flawWithin (ripens : w.Ripens after) (depth : Nat) :
    after.flawWithin depth = w.flawWithin depth := by
  funext id
  simp only [Forest.flawWithin, ripens.preorderWithin, ripens.flaw?]

theorem properWithin (ripens : w.Ripens after) {depth : Nat} {id : NodeId}
    (proper : w.ProperWithin depth id) : after.ProperWithin depth id := by
  induction depth generalizing id with
  | zero => exact proper
  | succ depth ih =>
      obtain ⟨worded, below⟩ := proper
      refine ⟨fun k found => ?_, fun child step => ih (below child (ripens.child ▸ step))⟩
      cases before : w.junction? id with
      | none => simp [ripens.junction? before] at found
      | some j =>
          obtain ⟨_, rewrite, found', rewrites, same⟩ := ripens.tree before
          cases found.symm.trans found'
          rw [same]
          exact rewrites.conditions (worded j before)

end Workspace.Ripens

namespace WorkspaceM

open Workspace (Compiles)

variable {α β : Type} {w after : Workspace} {scope : NodeId → Prop} {first : Option Fault}

/-- The fault with which the operation ends, if it fails. -/
def faultOf (operation : WorkspaceM α) (w : Workspace) : Option Fault :=
  match (run operation w).1 with
  | .error fault => some fault
  | .ok _ => none

theorem faultOf_eq_some {operation : WorkspaceM α} {fault : Fault} :
    faultOf operation w = some fault ↔ ∃ after, run operation w = (.error fault, after) := by
  unfold faultOf
  rcases run operation w with ⟨failed | a, after⟩ <;> simp

/-- What comes later fails only if what comes first does not. -/
theorem faultOf_bind {operation : WorkspaceM α} {next : α → WorkspaceM β}
    (here : faultOf operation w = first) (second : Option Fault)
    (later : ∀ a after, run operation w = (.ok a, after) → faultOf (next a) after = second) :
    faultOf (operation >>= next) w = first.or second := by
  subst here
  simp only [faultOf, run_bind] at later ⊢
  rcases result : run operation w with ⟨fault | a, after⟩
  · rfl
  · exact later a after result

theorem faultOf_bind_of_ok {operation : WorkspaceM α} {next : α → WorkspaceM β}
    (here : faultOf operation w = first) (later : ∀ a after, faultOf (next a) after = none) :
    faultOf (operation >>= next) w = first := by
  rw [faultOf_bind here none fun a after _ => later a after, Option.or_none]

theorem faultOf_bind_ok {operation : WorkspaceM α} {a : α}
    (done : run operation w = (.ok a, after)) (next : α → WorkspaceM β) :
    faultOf (operation >>= next) w = faultOf (next a) after := by
  simp only [faultOf, run_bind_ok done]

theorem faultOf_map (operation : WorkspaceM α) (f : α → β) (w : Workspace) :
    faultOf (f <$> operation) w = faultOf operation w := by
  simp only [faultOf, run_map]
  rcases run operation w with ⟨fault | a, after⟩ <;> rfl

/-- Nothing is asked for again but what ends without a text. -/
theorem faultOf_askAgain {ask : WorkspaceM String} (named : faultOf ask w ≠ some .noAttribute) :
    faultOf (askAgain ask) w = faultOf ask w := by
  simp only [faultOf, askAgain, run_tryCatch] at named ⊢
  rcases result : run ask w with ⟨fault | s, after⟩
  · rw [result] at named
    cases fault with
    | noAttribute => exact absurd rfl named
    | _ => rfl
  · rfl

theorem Settles.compiles {operation : WorkspaceM α} {answer : α → Workspace → Prop} {a : α}
    (settles : Settles scope answer operation w) (done : run operation w = (.ok a, after)) :
    Compiles scope w after := by
  have compiles := settles.1
  rwa [done] at compiles

/-- What is asked for a text ends as the first flaw at or below the node says. -/
def Strict (depth : Nat) (ask : NodeId → WorkspaceM String) : Prop :=
  ∀ w id, w.WellMade → w.ProperWithin depth id → faultOf (ask id) w = w.flawWithin depth id

variable {depth : Nat} {sql wrapped : NodeId → WorkspaceM String} {id : NodeId}

theorem faultOf_renderAll (asked : Honest Texts.alone sql) (fails : Strict depth sql)
    {conditions : List Value} (made : w.WellMade)
    (meant : ∀ v ∈ conditions, v.IsTextOrNode)
    (below : ∀ child, .node child ∈ conditions → w.ProperWithin depth child) :
    faultOf (renderAll sql conditions) w =
      (conditions.filterMap Value.node?).findSome? (w.flawWithin depth) := by
  induction conditions generalizing w with
  | nil => rfl
  | cons v rest ih =>
      obtain ⟨here, others⟩ := List.forall_mem_cons.mp meant
      have remaining (part : String) (middle : Workspace) (ripens : w.Ripens middle)
          (made : middle.WellMade) :
          faultOf (renderAll sql rest >>= fun parts => Pure.pure (part :: parts)) middle =
            (rest.filterMap Value.node?).findSome? (w.flawWithin depth) := by
        have all := ih made others fun child member =>
          ripens.properWithin (below child (List.mem_cons_of_mem _ member))
        rw [bind_pure_comp, faultOf_map, all, ripens.flawWithin]
      unfold renderAll
      rcases here with ⟨s, rfl⟩ | ⟨child, rfl⟩
      · exact (faultOf_bind_ok rfl _).trans (remaining s w (.refl w) made)
      · rw [List.filterMap_cons_some (by rfl), List.findSome?_cons]
        have asks := fails w child made (below child (by simp))
        have whole := faultOf_bind asks _ fun part middle done => by
          have compiles := (asked w child made).compiles done
          exact remaining part middle compiles.ripens (compiles.wellMade made)
        refine whole.trans ?_
        cases w.flawWithin depth child <;> rfl

theorem faultOf_compileJunction (asked : Honest Texts.alone sql) (fails : Strict depth sql)
    (made : w.WellMade) (proper : w.ProperWithin (depth + 1) id) {j : Junction}
    (found : w.junction? id = some j) :
    faultOf (compileJunction sql id j) w = w.flawWithin (depth + 1) id := by
  cases compiled : j.compiled with
  | some rendered =>
      obtain ⟨texts, yields⟩ := made.settled id j found (by simp [compiled])
      rw [yields.flawWithin_eq_none compiledReading_faithful]
      simp only [compileJunction, compiled]
      rfl
  | none =>
      obtain ⟨meant, below⟩ := proper
      obtain ⟨middle, expanded, -⟩ := run_expandTree j w
      have compiles : Compiles (w.Below id) w middle :=
        (settles_expandTree (made.binder id j found)).compiles expanded
      have rewrites := Binder.rewrites (w.binder j.binder) w.toForest w.settings
      have all := faultOf_renderAll asked fails (compiles.wellMade made)
        (rewrites.conditions (meant j found)) fun child member => by
          obtain ⟨v, inside, node⟩ := List.mem_map.mp member
          have step := (Forest.child_of_tree found).mpr (rewrites.node_iff.mp node ▸ inside)
          exact compiles.ripens.properWithin (below child step)
      rw [rewrites.nodes, compiles.ripens.flawWithin] at all
      have flaw : w.flawWithin (depth + 1) id =
          (j.conditions.filterMap Value.node?).findSome? (w.flawWithin depth) := by
        rw [Forest.flawWithin_succ, Forest.junction?_eq_some.mp found]
        rfl
      simp only [compileJunction, compiled]
      rw [faultOf_bind_ok expanded, flaw]
      -- Once all conditions are rendered, nothing is in the way.
      exact faultOf_bind_of_ok all fun _ _ => rfl

theorem faultOf_renderComparison (fails : Strict depth wrapped) (made : w.WellMade)
    (proper : w.ProperWithin (depth + 1) id) {c : Comparison} (kind : w.node id = .comparison c) :
    faultOf (renderComparison wrapped c) w = w.flawWithin (depth + 1) id := by
  rw [Forest.flawWithin_succ, kind, renderComparison]
  split
  · rename_i blank
    simp only [Node.flaw?, if_pos blank]
    rfl
  · rename_i operator
    rw [Node.flaw?_of_comparison operator, Option.none_or]
    cases operand : c.operand with
    | bound value placeholder =>
        have flat := made.flat id c value placeholder kind operand
        simp only [Node.children, operand, Operand.value, flat]
        rfl
    | nested inner =>
        have asks := fails w inner made (proper.2 inner (child_of_nested kind operand))
        simp only [Node.children, operand, Operand.value, Value.node?, Option.toList_some,
          List.findSome?_singleton]
        exact faultOf_bind_of_ok asks fun _ _ => rfl

theorem faultOf_renderUnary (asks : Strict depth sql) (wraps : Strict depth wrapped)
    (made : w.WellMade) (proper : w.ProperWithin (depth + 1) id) {u : Unary}
    (kind : w.node id = .unary u) :
    faultOf (renderUnary sql wrapped u) w = w.flawWithin (depth + 1) id := by
  rw [Forest.flawWithin_succ, kind, renderUnary]
  split
  · rename_i missing
    simp only [Node.flaw?, if_pos missing]
    rfl
  · rename_i symbol
    split
    · rename_i missing
      simp only [Node.flaw?, if_neg symbol, missing]
      rfl
    · rename_i argument nested
      rw [Node.flaw?_of_unary symbol (by simp [nested]), Option.none_or]
      have below := proper.2 argument (child_of_unary kind nested)
      simp only [Node.children, nested, Value.node?, Option.toList_some,
        List.findSome?_singleton]
      split
      · exact faultOf_bind_of_ok (asks w argument made below) fun _ _ => rfl
      · exact faultOf_bind_of_ok (wraps w argument made below) fun _ _ => rfl
    · rename_i given notNode
      have flat : u.argument.node? = none := by
        cases nested : u.argument with
        | node argument => exact absurd nested (notNode argument)
        | _ => rfl
      rw [Node.flaw?_of_unary symbol given]
      simp only [Node.children, flat]
      split <;> rfl

theorem faultOf_renderNode (asked : Honest Texts.alone sql) (asks : Strict depth sql)
    (wraps : Strict depth wrapped) (made : w.WellMade) (proper : w.ProperWithin (depth + 1) id) :
    faultOf (renderNode sql wrapped id) w = w.flawWithin (depth + 1) id := by
  unfold renderNode
  rw [faultOf_bind_ok (run_get w)]
  cases kind : w.node id with
  | junction j =>
      have found := Forest.junction?_eq_some.mpr kind
      exact (faultOf_map _ _ w).trans (faultOf_compileJunction asked asks made proper found)
  | comparison c => exact faultOf_renderComparison wraps made proper kind
  | unary u => exact faultOf_renderUnary asks wraps made proper kind
  | fragment s =>
      rw [Forest.flawWithin_succ, kind]
      rfl
  | abstract =>
      rw [Forest.flawWithin_succ, kind]
      rfl

theorem faultOf_own (asked : Honest Texts.alone sql) (asks : Strict depth sql)
    (wraps : Strict depth wrapped) (made : w.WellMade) (proper : w.ProperWithin (depth + 1) id) :
    faultOf (askAgain (renderNode sql wrapped id)) w = w.flawWithin (depth + 1) id := by
  have once := faultOf_renderNode asked asks wraps made proper
  rw [faultOf_askAgain, once]
  rw [once]
  exact w.flawWithin_ne_noAttribute (depth + 1) id

theorem faultOf_wrapNode (asked : Honest Texts.alone sql) (asks : Strict depth sql)
    (wraps : Strict depth wrapped) (made : w.WellMade) (proper : w.ProperWithin (depth + 1) id) :
    faultOf (wrapNode sql wrapped id) w = w.flawWithin (depth + 1) id := by
  have own := faultOf_own asked asks wraps made proper
  cases tree : w.junction? id with
  | none => rw [faultOf, run_wrapNode tree, ← faultOf, faultOf_map, own]
  | some j =>
      rw [faultOf, run_wrapNode_of_tree tree]
      cases single : solitary? j.conditions with
      | none => exact (faultOf_map _ _ w).trans own
      | some child =>
          have alone := solitary?_eq_some.mp single
          have step : w.Child id child := by simp [Forest.child_of_tree tree, alone]
          have same : w.flawWithin (depth + 1) id = w.flawWithin depth child := by
            rw [Forest.flawWithin_succ, Forest.junction?_eq_some.mp tree]
            simp [Node.flaw?, Node.children, alone, Value.node?]
          have compile := faultOf_compileJunction asked asks made proper tree
          rw [same] at compile ⊢
          simp only [discard_bind]
          refine (faultOf_bind compile (w.flawWithin depth child)
            fun rendered middle done => ?_).trans Option.or_self
          have compiles := (settles_compileJunction asked made tree).compiles done
          rw [wraps middle child (compiles.wellMade made)
            (compiles.ripens.properWithin (proper.2 child step)), compiles.ripens.flawWithin]

theorem strict_within (depth : Nat) :
    Strict depth (sqlWithin depth) ∧ Strict depth (wrappedWithin depth) := by
  induction depth with
  | zero => exact ⟨fun _ _ _ proper => proper.elim, fun _ _ _ proper => proper.elim⟩
  | succ depth ih =>
      obtain ⟨asks, wraps⟩ := ih
      have asked := (honest_within depth).1
      constructor <;> intro w id made proper
      · rw [sqlWithin]
        exact faultOf_own asked asks wraps made proper
      · rw [wrappedWithin]
        exact faultOf_wrapNode asked asks wraps made proper

/-- After every run: if a node is not above itself, and neither is any node below it, it cannot be
rendered exactly if it or a node below it is flawed. It fails as the first of these does, the nodes
being taken from left to right, each before those below it. -/
theorem rendering_fails_iff (n : Nat) {operations : List Operation}
    (allows : Workspace.Allows .free { nextIdentifier := n } operations)
    (made : w = Workspace.after { nextIdentifier := n } operations) {root : NodeId}
    (proper : w.Proper root) {render : NodeId → WorkspaceM String}
    (renders : render = WorkspaceM.sql ∨ render = WorkspaceM.wrapped) :
    (∀ fault, (∃ after, run (render root) w = (.error fault, after)) ↔
        (w.preorder root).findSome? (fun id => (w.node id).flaw?) = some fault) ∧
      ((∃ fault after, run (render root) w = (.error fault, after)) ↔
        ∃ id, w.Reaches root id ∧ (w.node id).flaw?.isSome = true) := by
  have wellMade : w.WellMade := made ▸ (Workspace.WellMade.empty n).after trivial trivial allows
  have within := proper.withinBound
  have ends : faultOf (render root) w = w.flawWithin w.depthBound root := by
    obtain ⟨alone, beside⟩ := strict_within w.depthBound
    rcases renders with rfl | rfl
    · exact (faultOf_bind_ok (run_get w) _).trans (alone w root wellMade within)
    · exact (faultOf_bind_ok (run_get w) _).trans (beside w root wellMade within)
  have fails (fault : Fault) : (∃ after, run (render root) w = (.error fault, after)) ↔
      w.flawWithin w.depthBound root = some fault := by
    rw [← faultOf_eq_some, ends]
  refine ⟨fails, ?_⟩
  rw [← Forest.exists_flaw_iff within]
  exact exists_congr fails

/-- A tree over one that is compiled, a negated comparison without an operator, and a condition
that is nothing in particular. -/
def flawed : List Operation :=
  [.newTree (.dict .passing [(.text "a IN", .list .passing [.int 1, .int 2])]) .null .null none,
    .sql ⟨0⟩,
    .newComparison (some (.text "x")) (some (.int 3)) none (some (.text " ")),
    .newUnary (some (.text "NOT")) (some (.node ⟨1⟩)) none,
    .newAbstract,
    .newTree .null .null .null none, .append ⟨4⟩ (.node ⟨0⟩), .append ⟨4⟩ (.node ⟨2⟩),
    .append ⟨4⟩ (.node ⟨3⟩), .append ⟨4⟩ (.text "b")]

def flawedOnes : Workspace := Workspace.after { nextIdentifier := 1 } flawed

theorem allows_flawed : Workspace.Allows .free { nextIdentifier := 1 } flawed :=
  ⟨⟨fun _ _ _ => trivial, by simp⟩, trivial, trivial, fun _ => trivial, trivial,
    ⟨fun _ _ _ => trivial, by simp⟩, trivial, trivial, trivial, trivial, trivial⟩

theorem proper_flawedOnes : flawedOnes.Proper ⟨4⟩ where
  acyclic id _ := Forest.not_below_self_of_earlier (by decide +kernel) id
  worded id j _ found v member := by
    have known : ∀ i < flawedOnes.nodes.size, ∀ j ∈ flawedOnes.junction? ⟨i⟩,
        ∀ v ∈ j.conditions, (v.text?.isSome || v.node?.isSome) = true := by decide +kernel
    have meant := known id.index (Forest.index_lt_of_tree found) j found v member
    cases v with
    | text s => exact .inl ⟨s, rfl⟩
    | node id => exact .inr ⟨id, rfl⟩
    | _ => cases meant

theorem rendering_fails_flawed : Workspace.Allows .free { nextIdentifier := 1 } flawed ∧
    flawedOnes.Proper ⟨4⟩ ∧
    (∃ after, run (WorkspaceM.sql ⟨4⟩) flawedOnes = (.error (.blankOperator "x"), after)) ∧
    ∃ after, run (WorkspaceM.wrapped ⟨4⟩) flawedOnes = (.error (.blankOperator "x"), after) := by
  have first : (flawedOnes.preorder ⟨4⟩).findSome? (fun id => (flawedOnes.node id).flaw?) =
      some (.blankOperator "x") := by decide +kernel
  have alone := rendering_fails_iff 1 allows_flawed rfl proper_flawedOnes (.inl rfl)
  have beside := rendering_fails_iff 1 allows_flawed rfl proper_flawedOnes (.inr rfl)
  exact ⟨allows_flawed, proper_flawedOnes, (alone.1 _).mpr first, (beside.1 _).mpr first⟩

end WorkspaceM
end WhereClause
