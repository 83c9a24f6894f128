import WhereClause.Tree

/-!
# Runs of single operations

What each operation of a workspace does, so that later proofs rewrite by these equations and do not
open the operations.
-/

namespace WhereClause.WorkspaceM

variable {α β : Type} {workspace after : Workspace}

theorem run_bind_ok {operation : WorkspaceM α} {a : α}
    (done : run operation workspace = (.ok a, after)) (next : α → WorkspaceM β) :
    run (operation >>= next) workspace = run (next a) after := by
  rw [run_bind, done]

theorem run_map_ok {operation : WorkspaceM α} {a : α}
    (done : run operation workspace = (.ok a, after)) (f : α → β) :
    run (f <$> operation) workspace = (.ok (f a), after) := by
  rw [run_map, done]

theorem run_discard_ok {operation : WorkspaceM α} {a : α}
    (done : run operation workspace = (.ok a, after)) :
    run (discard operation) workspace = (.ok (), after) :=
  run_map_ok done _

theorem run_ok_of_toOption {operation : WorkspaceM α} {a : α}
    (given : (run operation workspace).1.toOption = some a) :
    run operation workspace = (.ok a, (run operation workspace).2) := by
  generalize run operation workspace = outcome at given ⊢
  obtain ⟨_ | b, after⟩ := outcome
  · cases given
  · cases given
    rfl

theorem snd_run_discard (operation : WorkspaceM α) (workspace : Workspace) :
    (run (discard operation) workspace).2 = (run operation workspace).2 := by
  show (run (_ <$> operation) workspace).2 = _
  rw [run_map]
  split <;> simp_all

theorem run_tryCatch (operation : WorkspaceM α) (handler : Fault → WorkspaceM α)
    (workspace : Workspace) :
    run (tryCatch operation handler) workspace =
      match run operation workspace with
      | (.ok a, after) => (.ok a, after)
      | (.error fault, after) => run (handler fault) after := by
  simp only [run, ExceptT.run_tryCatch, StateT.run_bind]
  rcases StateT.run (ExceptT.run operation) workspace with ⟨result, after⟩
  cases result <;> rfl

theorem run_askAgain_ok {ask : WorkspaceM String} {s : String}
    (done : run ask workspace = (.ok s, after)) :
    run (askAgain ask) workspace = (.ok s, after) := by
  rw [askAgain, run_tryCatch, done]

@[simp] theorem run_ofExcept_ok (a : α) (workspace : Workspace) :
    run (ofExcept (.ok a)) workspace = (.ok a, workspace) := rfl

@[simp] theorem run_forest (workspace : Workspace) :
    run forest workspace = (.ok workspace.toForest, workspace) := rfl

@[simp] theorem run_log (events : List Event) (workspace : Workspace) :
    run (log events) workspace =
      (.ok (), { workspace with
        records := workspace.records ++ events.map fun event => ⟨event, workspace.toForest⟩ }) :=
  rfl

@[simp] theorem run_takeIdentifier (workspace : Workspace) :
    run takeIdentifier workspace =
      (.ok (toString workspace.nextIdentifier),
        { workspace with nextIdentifier := workspace.nextIdentifier + 1 }) := rfl

@[simp] theorem run_addBinder (binder : Binder) (workspace : Workspace) :
    run (addBinder binder) workspace =
      (.ok ⟨workspace.binders.size⟩,
        { workspace with binders := workspace.binders.push binder }) := rfl

@[simp] theorem run_addNode (node : Node) (workspace : Workspace) :
    run (addNode node) workspace =
      (.ok ⟨workspace.nodes.size⟩, { workspace with nodes := workspace.nodes.push node }) := rfl

theorem run_onBinder_ok {id : BinderId} {operation : Binder → Except Fault α × Binder} {a : α}
    {binder : Binder} (done : operation (workspace.binder id) = (.ok a, binder)) :
    run (onBinder id operation) workspace =
      (.ok a, { workspace with toForest := workspace.toForest.setBinder id binder }) := by
  simp only [onBinder, run_bind, run_get]
  rw [done]
  rfl

theorem run_junction {id : NodeId} {j : Junction} (found : workspace.junction? id = some j) :
    run (junction id) workspace = (.ok j, workspace) := by
  simp only [junction, run_bind, run_get, found, run_pure]

theorem run_openJunction {id : NodeId} {j : Junction} (found : workspace.junction? id = some j)
    (isOpen : j.compiled = none) : run (openJunction id) workspace = (.ok j, workspace) := by
  simp [openJunction, run_bind, run_junction found, isOpen]

theorem run_attach {tree : NodeId} {j : Junction} (found : workspace.junction? tree = some j)
    (condition : Value) :
    run (attach tree condition) workspace =
      (.ok (), { workspace with
        toForest := workspace.toForest.setNode tree
          (.junction { j with conditions := j.conditions ++ [condition] }) }) := by
  simp only [attach, run_bind, run_junction found, setJunction, run_changeForest]

end WhereClause.WorkspaceM
