import WhereClause.Proofs.Asking

/-!
# What operations keep

A property of workspaces that an operation keeps, whether or not it succeeds. What is kept by every
part of an operation is kept by the whole, so that for rendering only the compiling of a single tree
has to be looked at.

* `keeps_within`: what is kept where a tree is compiled is kept wherever a node is rendered.
-/

namespace WhereClause
namespace WorkspaceM

variable {α β : Type} {I : Workspace → Prop} {w after : Workspace}

/-- If the property holds before the operation, it holds after it. -/
structure Keeps (I : Workspace → Prop) (operation : WorkspaceM α) (w : Workspace) : Prop where
  after : I w → I (run operation w).2

theorem Keeps.of_same {operation : WorkspaceM α} (same : (run operation w).2 = w) :
    Keeps I operation w where
  after holds := by rwa [same]

theorem Keeps.of_run {operation : WorkspaceM α} {a : Except Fault α}
    (done : run operation w = (a, after)) (last : I w → I after) : Keeps I operation w where
  after holds := by
    rw [done]
    exact last holds

theorem Keeps.pure (a : α) : Keeps I (Pure.pure a : WorkspaceM α) w := .of_same rfl

theorem Keeps.throw (fault : Fault) : Keeps I (MonadExcept.throw fault : WorkspaceM α) w :=
  .of_same rfl

/-- What comes later starts where the first part has led. -/
theorem Keeps.bind {operation : WorkspaceM α} {next : α → WorkspaceM β}
    (first : Keeps I operation w)
    (later : ∀ a after, run operation w = (.ok a, after) → Keeps I (next a) after) :
    Keeps I (operation >>= next) w where
  after holds := by
    have middle := first.after holds
    rw [run_bind]
    rcases result : run operation w with ⟨done, after⟩
    rw [result] at middle
    cases done with
    | error fault => exact middle
    | ok a => exact (later a after result).after middle

/-- The first part only looks something up. -/
theorem Keeps.look {operation : WorkspaceM α} {next : α → WorkspaceM β}
    (same : (run operation w).2 = w)
    (later : ∀ a, run operation w = (.ok a, w) → Keeps I (next a) w) :
    Keeps I (operation >>= next) w := by
  apply Keeps.bind (.of_same same)
  intro a after done
  obtain rfl : after = w := by rw [← same, done]
  exact later a done

theorem Keeps.get {next : Workspace → WorkspaceM β} (later : Keeps I (next w) w) :
    Keeps I (MonadState.get >>= next) w := ⟨later.after⟩

theorem Keeps.map {operation : WorkspaceM α} (keeps : Keeps I operation w) (f : α → β) :
    Keeps I (f <$> operation) w := by
  rw [map_eq_pure_bind]
  exact keeps.bind fun _ _ _ => .pure _

theorem Keeps.again {ask : WorkspaceM String} (each : ∀ after, Keeps I ask after) :
    Keeps I (askAgain ask) w where
  after holds := by
    have middle := (each w).after holds
    rw [askAgain, run_tryCatch]
    rcases result : run ask w with ⟨done, after⟩
    rw [result] at middle
    cases done with
    | ok s => exact middle
    | error fault =>
        cases fault with
        | noAttribute => exact (each after).after middle
        | _ => exact middle

/-! ## Rendering -/

variable {sql wrapped : NodeId → WorkspaceM String}

theorem keeps_renderCondition (asked : ∀ id w, Keeps I (sql id) w) (v : Value) (w : Workspace) :
    Keeps I (renderCondition sql v) w := by
  unfold renderCondition
  split
  · exact .pure _
  · exact asked _ w
  · apply Keeps.look (same_junction _ w)
    intro j _
    split
    · exact .pure _
    · exact .throw _
  · exact .pure _
  · exact .throw _

theorem keeps_renderAll (asked : ∀ id w, Keeps I (sql id) w) (conditions : List Value)
    (w : Workspace) : Keeps I (renderAll sql conditions) w := by
  induction conditions generalizing w with
  | nil => exact .pure _
  | cons v rest ih =>
      unfold renderAll
      apply (keeps_renderCondition asked v w).bind
      intro part middle _
      exact (ih middle).bind fun _ _ _ => .pure _

/-- The property is kept where a single tree is compiled, given that it is kept where the nodes in
the tree are rendered. -/
def Lasts (I : Workspace → Prop) : Prop :=
  ∀ ⦃sql : NodeId → WorkspaceM String⦄, Honest Texts.alone sql →
    (∀ id w, Keeps I (sql id) w) → ∀ ⦃w : Workspace⦄ ⦃id : NodeId⦄ ⦃j : Junction⦄,
      w.junction? id = some j → Keeps I (compileJunction sql id j) w

theorem keeps_renderComparison (wraps : ∀ id w, Keeps I (wrapped id) w) (c : Comparison)
    (w : Workspace) : Keeps I (renderComparison wrapped c) w := by
  unfold renderComparison
  split
  · exact .throw _
  · cases c.operand with
    | nested id => exact (wraps id w).bind fun _ _ _ => .pure _
    | bound value placeholder => exact .pure _

theorem keeps_renderUnary (asked : ∀ id w, Keeps I (sql id) w)
    (wraps : ∀ id w, Keeps I (wrapped id) w) (u : Unary) (w : Workspace) :
    Keeps I (renderUnary sql wrapped u) w := by
  unfold renderUnary
  split
  · exact .throw _
  · split
    · exact .throw _
    · split
      · exact (asked _ w).bind fun _ _ _ => .pure _
      · exact (wraps _ w).bind fun _ _ _ => .pure _
    · apply Keeps.get
      split <;> exact .pure _

theorem keeps_renderNode (lasts : Lasts I) (honest : Honest Texts.alone sql)
    (asked : ∀ id w, Keeps I (sql id) w) (wraps : ∀ id w, Keeps I (wrapped id) w) (id : NodeId)
    (w : Workspace) : Keeps I (renderNode sql wrapped id) w := by
  apply Keeps.get
  cases kind : w.node id with
  | junction j => exact (lasts honest asked (Forest.junction?_eq_some.mpr kind)).map _
  | comparison c => exact keeps_renderComparison wraps c w
  | unary u => exact keeps_renderUnary asked wraps u w
  | fragment text => exact .pure _
  | abstract => exact .throw _

theorem keeps_wrapNode (lasts : Lasts I) (honest : Honest Texts.alone sql)
    (asked : ∀ id w, Keeps I (sql id) w) (wraps : ∀ id w, Keeps I (wrapped id) w) (id : NodeId)
    (w : Workspace) : Keeps I (wrapNode sql wrapped id) w := by
  have own (w : Workspace) : Keeps I (askAgain (renderNode sql wrapped id)) w :=
    .again (keeps_renderNode lasts honest asked wraps id)
  cases tree : w.junction? id with
  | none =>
      constructor
      rw [run_wrapNode tree]
      exact ((own w).map _).after
  | some j =>
      constructor
      rw [run_wrapNode_of_tree tree]
      cases solitary? j.conditions with
      | none => exact ((own w).map _).after
      | some child =>
          exact (((lasts honest asked tree).map _).bind fun _ after _ => wraps child after).after

theorem keeps_within (lasts : Lasts I) (depth : Nat) :
    (∀ id w, Keeps I (sqlWithin depth id) w) ∧ ∀ id w, Keeps I (wrappedWithin depth id) w := by
  induction depth with
  | zero => exact ⟨fun _ _ => .throw _, fun _ _ => .throw _⟩
  | succ depth ih =>
      obtain ⟨asked, wraps⟩ := ih
      have honest := (honest_within depth).1
      constructor <;> intro id w
      · rw [sqlWithin]
        exact .again (keeps_renderNode lasts honest asked wraps id)
      · rw [wrappedWithin]
        exact keeps_wrapNode lasts honest asked wraps id w

theorem keeps_sql (lasts : Lasts I) (id : NodeId) (w : Workspace) : Keeps I (WorkspaceM.sql id) w :=
  .get ((keeps_within lasts _).1 id w)

theorem keeps_wrapped (lasts : Lasts I) (id : NodeId) (w : Workspace) :
    Keeps I (WorkspaceM.wrapped id) w :=
  .get ((keeps_within lasts _).2 id w)

theorem keeps_compile (lasts : Lasts I) (id : NodeId) (w : Workspace) : Keeps I (compile id) w := by
  apply Keeps.get
  apply Keeps.look (same_junction id w)
  intro j done
  exact lasts (honest_within _).1 (keeps_within lasts _).1 (found_of_junction done)

theorem keeps_collectBindings (lasts : Lasts I) (id : NodeId) (w : Workspace) :
    Keeps I (collectBindings id) w := by
  unfold collectBindings
  rw [discard_bind]
  exact (keeps_sql lasts id w).bind fun _ _ _ => .look rfl fun _ _ => .pure _

theorem keeps_collectParameters (lasts : Lasts I) (id : NodeId) (w : Workspace) :
    Keeps I (collectParameters id) w :=
  (keeps_collectBindings lasts id w).bind fun _ _ _ => .get (.pure _)

theorem keeps_outcomeOf (lasts : Lasts I) (tree : NodeId) (w : Workspace) :
    Keeps I (outcomeOf tree) w := by
  apply (keeps_collectBindings lasts tree w).bind
  intro bindings middle _
  apply Keeps.get
  exact (keeps_sql lasts tree middle).bind fun _ _ _ => .pure _

theorem keeps_textOf (lasts : Lasts I) (v : Value) (w : Workspace) : Keeps I (textOf v) w := by
  unfold textOf
  split
  · exact keeps_sql lasts _ w
  · exact .get (.pure _)

end WorkspaceM
end WhereClause
