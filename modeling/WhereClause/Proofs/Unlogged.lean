import WhereClause.Proofs.Runs

/-!
# What does not depend on the log

The log is written and not read where conditions are built and rendered. Two workspaces that differ
in the log at most therefore come to the same result, and to workspaces that differ in the log at
most.

* `unlogged_extend`: what is built does not depend on the log.
* `unlogged_sql`, `unlogged_collectBindings`, `unlogged_outcomeOf`: nor does what is rendered.
-/

namespace WhereClause

/-- The workspaces differ in the log at most. -/
def Workspace.Alike (w v : Workspace) : Prop := ∃ records, v = { w with records }

namespace Workspace.Alike

variable {w v u : Workspace}

theorem refl (w : Workspace) : w.Alike w := ⟨w.records, rfl⟩

theorem symm (alike : w.Alike v) : v.Alike w := by
  obtain ⟨records, rfl⟩ := alike
  exact ⟨w.records, rfl⟩

theorem trans (first : w.Alike v) (second : v.Alike u) : w.Alike u := by
  obtain ⟨records, rfl⟩ := first
  obtain ⟨others, rfl⟩ := second
  exact ⟨others, rfl⟩

end Workspace.Alike

namespace WorkspaceM

variable {α β : Type} {w v : Workspace}

/-- The results are the same, and the workspaces differ in the log at most. -/
structure SameRun (x y : Except Fault α × Workspace) : Prop where
  result : x.1 = y.1
  after : x.2.Alike y.2

theorem SameRun.refl (x : Except Fault α × Workspace) : SameRun x x := ⟨rfl, .refl _⟩

theorem SameRun.symm {x y : Except Fault α × Workspace} (same : SameRun x y) : SameRun y x :=
  ⟨same.result.symm, same.after.symm⟩

theorem SameRun.trans {x y z : Except Fault α × Workspace} (first : SameRun x y)
    (second : SameRun y z) : SameRun x z :=
  ⟨first.result.trans second.result, first.after.trans second.after⟩

/-- If one part runs the same, and what comes later as well, then so does the whole. -/
theorem SameRun.bind {operation other : WorkspaceM α} {next later : α → WorkspaceM β}
    (first : SameRun (run operation w) (run other v))
    (second : ∀ a after last, run operation w = (.ok a, after) → run other v = (.ok a, last) →
      after.Alike last → SameRun (run (next a) after) (run (later a) last)) :
    SameRun (run (operation >>= next) w) (run (other >>= later) v) := by
  rw [run_bind, run_bind]
  rcases left : run operation w with ⟨done, after⟩
  rcases right : run other v with ⟨also, last⟩
  rw [left, right] at first
  obtain ⟨result, alike⟩ := first
  cases result
  cases done with
  | error fault => exact ⟨rfl, alike⟩
  | ok a => exact second a after last left right alike

theorem SameRun.map {operation other : WorkspaceM α}
    (same : SameRun (run operation w) (run other v)) (f : α → β) :
    SameRun (run (f <$> operation) w) (run (f <$> other) v) := by
  rw [map_eq_pure_bind, map_eq_pure_bind]
  exact same.bind fun _ _ _ _ _ alike => ⟨rfl, alike⟩

/-- What is done does not depend on the log. -/
structure Unlogged (operation : WorkspaceM α) : Prop where
  same : ∀ w records, SameRun (run operation w) (run operation { w with records })

namespace Unlogged

theorem alike {operation : WorkspaceM α} (unlogged : Unlogged operation) (alike : w.Alike v) :
    SameRun (run operation w) (run operation v) := by
  obtain ⟨records, rfl⟩ := alike
  exact unlogged.same w records

theorem pure (a : α) : Unlogged (Pure.pure a : WorkspaceM α) where
  same _ records := ⟨rfl, records, rfl⟩

theorem throw (fault : Fault) : Unlogged (MonadExcept.throw fault : WorkspaceM α) where
  same _ records := ⟨rfl, records, rfl⟩

theorem ofExcept (result : Except Fault α) : Unlogged (WorkspaceM.ofExcept result) := by
  cases result with
  | ok a => exact .pure a
  | error fault => exact .throw fault

theorem bind {operation : WorkspaceM α} {next : α → WorkspaceM β} (first : Unlogged operation)
    (later : ∀ a, Unlogged (next a)) : Unlogged (operation >>= next) where
  same w records := (first.same w records).bind fun a _ _ _ _ alike => (later a).alike alike

theorem map {operation : WorkspaceM α} (unlogged : Unlogged operation) (f : α → β) :
    Unlogged (f <$> operation) := by
  rw [map_eq_pure_bind]
  exact unlogged.bind fun _ => .pure _

/-- The workspace is looked up, but not for its log. -/
theorem get {next : Workspace → WorkspaceM β}
    (blind : ∀ (w : Workspace) records, next { w with records } = next w)
    (later : ∀ w, Unlogged (next w)) : Unlogged (MonadState.get >>= next) where
  same w records := by
    show SameRun (run (next w) w) (run (next { w with records }) { w with records })
    rw [blind w records]
    exact (later w).same w records

theorem changeForest (change : Forest → Forest) : Unlogged (WorkspaceM.changeForest change) where
  same _ records := ⟨rfl, records, rfl⟩

theorem log (events : List Event) : Unlogged (WorkspaceM.log events) where
  same _ _ := ⟨rfl, _, rfl⟩

theorem onBinder (id : BinderId) (operation : Binder → Except Fault α × Binder) :
    Unlogged (WorkspaceM.onBinder id operation) := by
  apply Unlogged.get fun _ _ => rfl
  intro w
  exact (changeForest _).bind fun _ => .ofExcept _

theorem junction (id : NodeId) : Unlogged (WorkspaceM.junction id) := by
  apply Unlogged.get fun _ _ => rfl
  intro w
  split
  · exact .pure _
  · exact .throw _

theorem attach (tree : NodeId) (condition : Value) : Unlogged (WorkspaceM.attach tree condition) :=
  (junction tree).bind fun _ => changeForest _

theorem takeIdentifier : Unlogged WorkspaceM.takeIdentifier where
  same _ records := ⟨rfl, records, rfl⟩

theorem addBinder (binder : Binder) : Unlogged (WorkspaceM.addBinder binder) where
  same _ records := ⟨rfl, records, rfl⟩

theorem addNode (node : Node) : Unlogged (WorkspaceM.addNode node) where
  same _ records := ⟨rfl, records, rfl⟩

theorem newJunction (connective : String) : Unlogged (WorkspaceM.newJunction connective) :=
  (takeIdentifier.bind fun _ => addBinder _).bind fun _ => addNode _

theorem newOperand (binder : BinderId) (field : String) (value : Value) (type : Option String) :
    Unlogged (WorkspaceM.newOperand binder field value type) := by
  unfold WorkspaceM.newOperand
  split
  · exact .pure _
  · exact .get (fun _ _ => rfl) fun _ => (onBinder _ _).bind fun _ => .pure _

theorem newComparison (field value type operator : Option Value) :
    Unlogged (WorkspaceM.newComparison field value type operator) := by
  apply takeIdentifier.bind
  intro identifier
  dsimp only
  split
  · exact (addBinder _).bind fun _ => (newOperand ..).bind fun _ => addNode _
  · exact .throw _

theorem membershipType (declared : Value) : Unlogged (WorkspaceM.membershipType declared) := by
  apply Unlogged.get fun _ _ => rfl
  intro w
  dsimp only
  generalize (if w.isTruthy declared = true then declared
    else .text w.settings.defaultMultiType) = type
  split
  · exact .pure _
  · split
    · exact .pure _
    · exact .throw _
  · split
    · exact .throw _
    · split
      · exact .pure _
      · split
        · exact (changeForest _).bind fun _ => .pure _
        · exact .throw _

theorem buildField (tree : NodeId) (types : Value) (key : Key) (value : Value) :
    Unlogged (WorkspaceM.buildField tree types key value) := by
  have comparison (type : Value) : Unlogged (buildComparison key value type) :=
    (newComparison ..).bind fun _ => .pure _
  apply (ofExcept _).bind
  intro declared
  split
  · apply (membershipType declared).bind
    intro type
    split
    · exact comparison type
    · exact (junction tree).bind fun _ =>
        .get (fun _ _ => rfl) fun _ => (onBinder _ _).bind fun _ => .pure _
  · exact comparison declared

end Unlogged

mutual
theorem unlogged_build (tree : NodeId) (types : Value) :
    (item : Item) → Unlogged (build tree types item)
  | .raw text => .pure _
  | .nested node => .pure _
  | .field key value => (Unlogged.buildField tree types key value).map _
  | .group connective items => by
      rw [build]
      split
      · exact (Unlogged.log _).bind fun _ => .pure _
      · exact (Unlogged.newJunction _).bind fun inner =>
          (unlogged_extend inner types items).bind fun _ => .pure _
  | .negation items => by
      rw [build]
      split
      · exact (Unlogged.log _).bind fun _ => .pure _
      · exact .get (fun _ _ => rfl) fun _ => (Unlogged.newJunction _).bind fun inner =>
          (unlogged_extend inner types items).bind fun _ => (Unlogged.addNode _).bind fun _ =>
            .pure _

/-- What is built does not depend on the log. -/
theorem unlogged_extend (tree : NodeId) (types : Value) :
    (items : List Item) → Unlogged (extend tree types items)
  | [] => .pure _
  | item :: rest => by
      rw [extend]
      apply (unlogged_build tree types item).bind
      intro condition
      have later := unlogged_extend tree types rest
      cases condition with
      | none => exact later
      | some condition => exact (Unlogged.attach tree condition).bind fun _ => later
end

/-! ## Rendering -/

namespace Unlogged

theorem forest {next : Forest → WorkspaceM β} (later : ∀ forest, Unlogged (next forest)) :
    Unlogged (WorkspaceM.forest >>= next) where
  same w records := (later w.toForest).same w records

theorem askAgain {ask : WorkspaceM String} (unlogged : Unlogged ask) :
    Unlogged (WorkspaceM.askAgain ask) where
  same w records := by
    have first := unlogged.same w records
    rw [WorkspaceM.askAgain, run_tryCatch, run_tryCatch]
    rcases left : run ask w with ⟨done, after⟩
    rcases right : run ask { w with records } with ⟨also, last⟩
    rw [left, right] at first
    obtain ⟨result, alike⟩ := first
    cases result
    cases done with
    | ok s => exact ⟨rfl, alike⟩
    | error fault => cases fault with
      | noAttribute => exact unlogged.alike alike
      | _ => exact (throw _).alike alike

theorem expandTree (j : Junction) : Unlogged (WorkspaceM.expandTree j) := by
  apply Unlogged.get fun _ _ => rfl
  intro w
  dsimp only
  split
  · exact (changeForest _).bind fun _ => (log _).bind fun _ => pure _
  · exact pure _

section Below

variable {sql wrapped : NodeId → WorkspaceM String}

theorem renderCondition (below : ∀ id, Unlogged (sql id)) (condition : Value) :
    Unlogged (WorkspaceM.renderCondition sql condition) := by
  cases condition with
  | node id => exact below id
  | compiled tree =>
      apply (junction tree).bind
      intro j
      split
      · exact pure _
      · exact throw _
  | text s => exact pure s
  | outcome _ text => exact pure text
  | _ => exact throw _

theorem renderAll (below : ∀ id, Unlogged (sql id)) (conditions : List Value) :
    Unlogged (WorkspaceM.renderAll sql conditions) := by
  induction conditions with
  | nil => exact pure []
  | cons condition rest ih =>
      exact (renderCondition below condition).bind fun _ => ih.bind fun _ => pure _

theorem compileJunction (below : ∀ id, Unlogged (sql id)) (id : NodeId) (j : Junction) :
    Unlogged (WorkspaceM.compileJunction sql id j) := by
  unfold WorkspaceM.compileJunction
  split
  · exact pure _
  · exact (expandTree j).bind fun (conditions, _) =>
      (renderAll below conditions).bind fun _ => (changeForest _).bind fun _ => pure _

theorem renderComparison (besides : ∀ id, Unlogged (wrapped id)) (c : Comparison) :
    Unlogged (WorkspaceM.renderComparison wrapped c) := by
  unfold WorkspaceM.renderComparison
  split
  · exact throw _
  · cases c.operand with
    | nested id => exact (besides id).bind fun _ => pure _
    | bound value placeholder => exact (pure placeholder).bind fun _ => pure _

theorem renderUnary (below : ∀ id, Unlogged (sql id)) (besides : ∀ id, Unlogged (wrapped id))
    (u : Unary) : Unlogged (WorkspaceM.renderUnary sql wrapped u) := by
  unfold WorkspaceM.renderUnary
  split
  · exact throw _
  · split
    · exact throw _
    · split
      · exact (below _).bind fun _ => pure _
      · exact (besides _).bind fun _ => pure _
    · apply Unlogged.get fun _ _ => rfl
      intro w
      split <;> exact pure _

theorem renderNode (below : ∀ id, Unlogged (sql id)) (besides : ∀ id, Unlogged (wrapped id))
    (id : NodeId) : Unlogged (WorkspaceM.renderNode sql wrapped id) := by
  apply Unlogged.get fun _ _ => rfl
  intro w
  split
  · exact (compileJunction below id _).map _
  · exact renderComparison besides _
  · exact renderUnary below besides _
  · exact pure _
  · exact throw _

theorem wrapNode (below : ∀ id, Unlogged (sql id)) (besides : ∀ id, Unlogged (wrapped id))
    (id : NodeId) : Unlogged (WorkspaceM.wrapNode sql wrapped id) := by
  have own := (renderNode below besides id).askAgain
  apply Unlogged.get fun _ _ => rfl
  intro w
  split
  · split
    · exact ((compileJunction below id _).map _).bind fun _ => besides _
    · exact own.map _
    · exact own.map _
    · exact own
  · exact own.map _

end Below

theorem within (depth : Nat) :
    (∀ id, Unlogged (sqlWithin depth id)) ∧ ∀ id, Unlogged (wrappedWithin depth id) := by
  induction depth with
  | zero =>
      refine ⟨fun id => ?_, fun id => ?_⟩
      · rw [sqlWithin]
        exact throw _
      · rw [wrappedWithin]
        exact throw _
  | succ depth ih =>
      obtain ⟨below, besides⟩ := ih
      refine ⟨fun id => ?_, fun id => ?_⟩
      · rw [sqlWithin]
        exact (renderNode below besides id).askAgain
      · rw [wrappedWithin]
        exact wrapNode below besides id

end Unlogged

theorem unlogged_sql (id : NodeId) : Unlogged (sql id) :=
  .get (fun _ _ => rfl) fun w => (Unlogged.within w.depthBound).1 id

theorem unlogged_collectBindings (id : NodeId) : Unlogged (collectBindings id) :=
  ((unlogged_sql id).map _).bind fun _ => .forest fun _ => .pure _

theorem unlogged_outcomeOf (id : NodeId) : Unlogged (outcomeOf id) :=
  (unlogged_collectBindings id).bind fun _ =>
    .get (fun _ _ => rfl) fun _ => (unlogged_sql id).bind fun _ => .pure _

end WorkspaceM
end WhereClause
