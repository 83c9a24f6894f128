import WhereClause.Event
import WhereClause.View

/-!
# Workspaces

A workspace is a forest with the settings in force, the next identifier, and the log. An operation
in a workspace may fail, and what it changed before it failed stays changed. A record of the log
keeps the forest as it was when the event happened, since the values in it may change later.

* `run_bind`: what follows a failure is not run, and the workspace stays as the failure left it.
-/

namespace WhereClause

structure Record where
  event : Event
  forest : Forest

/-- All that operations read and change. -/
structure Workspace extends Forest where
  settings : Settings := {}
  nextIdentifier : Nat := 1
  records : List Record := []

/-- An operation in a workspace. A failure keeps the changes made before it. -/
abbrev WorkspaceM := ExceptT Fault (StateM Workspace)

namespace WorkspaceM

def run {α : Type} (operation : WorkspaceM α) (workspace : Workspace) :
    Except Fault α × Workspace :=
  StateT.run (ExceptT.run operation) workspace

def ofExcept {α : Type} : Except Fault α → WorkspaceM α
  | .ok a => pure a
  | .error fault => throw fault

def forest : WorkspaceM Forest := do return (← get).toForest

def changeForest (change : Forest → Forest) : WorkspaceM Unit :=
  modify fun workspace => { workspace with toForest := change workspace.toForest }

/-- Adds events to the log, which happen in the forest as it is now. -/
def log (events : List Event) : WorkspaceM Unit :=
  modify fun workspace =>
    { workspace with
      records := workspace.records ++ events.map fun event => ⟨event, workspace.toForest⟩ }

def configure (options : Options) : WorkspaceM Settings := do
  let settings ← ofExcept ((← get).settings.update options)
  modify fun workspace => { workspace with settings }
  log [.settingsUpdated options]
  return settings

def resetSettings : WorkspaceM Settings := do
  modify fun workspace => { workspace with settings := {} }
  return {}

def takeRecords : WorkspaceM (List Record) := do
  let workspace ← get
  set { workspace with records := [] }
  return workspace.records

def takeIdentifier : WorkspaceM String := do
  let workspace ← get
  set { workspace with nextIdentifier := workspace.nextIdentifier + 1 }
  return toString workspace.nextIdentifier

def takeMark : WorkspaceM Mark := do
  let workspace ← get
  set { workspace with nextMark := workspace.nextMark + 1 }
  return ⟨workspace.nextMark⟩

def addBinder (binder : Binder) : WorkspaceM BinderId := do
  let workspace ← get
  set { workspace with binders := workspace.binders.push binder }
  return ⟨workspace.binders.size⟩

def addNode (node : Node) : WorkspaceM NodeId := do
  let workspace ← get
  set { workspace with nodes := workspace.nodes.push node }
  return ⟨workspace.nodes.size⟩

def freshBinder : WorkspaceM BinderId := do
  addBinder { identifier := ← takeIdentifier }

def onBinder {α : Type} (id : BinderId) (operation : Binder → Except Fault α × Binder) :
    WorkspaceM α := do
  let (result, binder) := operation ((← get).binder id)
  changeForest (·.setBinder id binder)
  ofExcept result

def junction (id : NodeId) : WorkspaceM Junction := do
  match (← get).junction? id with
  | some j => return j
  | none => throw .noAttribute

/-- The tree that the handle names, which must not be compiled yet. -/
def openJunction (id : NodeId) : WorkspaceM Junction := do
  let j ← junction id
  if j.compiled.isSome then throw (.frozen ((← get).binder j.binder).identifier)
  return j

def setJunction (id : NodeId) (j : Junction) : WorkspaceM Unit :=
  changeForest (·.setNode id (.junction j))

def newJunction (connective : String) : WorkspaceM NodeId := do
  addNode (.junction { connective := .text connective, binder := ← freshBinder })

def attach (tree : NodeId) (condition : Value) : WorkspaceM Unit := do
  let j ← junction tree
  setJunction tree { j with conditions := j.conditions ++ [condition] }

@[simp] theorem run_pure {α : Type} (a : α) (workspace : Workspace) :
    run (pure a) workspace = (.ok a, workspace) := rfl

@[simp] theorem run_throw {α : Type} (fault : Fault) (workspace : Workspace) :
    run (throw fault : WorkspaceM α) workspace = (.error fault, workspace) := rfl

theorem run_bind {α β : Type} (operation : WorkspaceM α) (next : α → WorkspaceM β)
    (workspace : Workspace) :
    run (operation >>= next) workspace =
      match run operation workspace with
      | (.ok a, after) => run (next a) after
      | (.error fault, after) => (.error fault, after) := by
  simp only [run, ExceptT.run_bind, StateT.run_bind]
  rcases StateT.run (ExceptT.run operation) workspace with ⟨result, after⟩
  cases result <;> rfl

theorem run_map {α β : Type} (f : α → β) (operation : WorkspaceM α) (workspace : Workspace) :
    run (f <$> operation) workspace =
      match run operation workspace with
      | (.ok a, after) => (.ok (f a), after)
      | (.error fault, after) => (.error fault, after) := by
  simp only [run, ExceptT.run_map, StateT.run_map]
  rcases StateT.run (ExceptT.run operation) workspace with ⟨result, after⟩
  cases result <;> rfl

@[simp] theorem run_get (workspace : Workspace) :
    run get workspace = (.ok workspace, workspace) := rfl

@[simp] theorem run_set (after workspace : Workspace) :
    run (set after) workspace = (.ok (), after) := rfl

@[simp] theorem run_modify (change : Workspace → Workspace) (workspace : Workspace) :
    run (modify change) workspace = (.ok (), change workspace) := rfl

@[simp] theorem run_changeForest (change : Forest → Forest) (workspace : Workspace) :
    run (changeForest change) workspace =
      (.ok (), { workspace with toForest := change workspace.toForest }) := rfl

end WorkspaceM
end WhereClause
