import WhereClause.Script.Attribute

/-!
# Running scripts

A script is a list of steps. Each step gives a reply or fails; a failed step does not end the
script, and what it changed stays changed. The value of a step may be stored under a name.
-/

namespace WhereClause

inductive Action
  | evaluate (term : Term)
  | call (object : String) (method : Method) (arguments : List Term)
  | read (object : String) (name : Attribute)
  /-- Takes one condition of a tree; a negative index counts from the end. -/
  | child (object : String) (index : Int)
  | join (connective : String) (left right : Term)
  | invert (operand : Term)
  /-- Makes a tree from a description, or applies a callable to an empty tree. -/
  | makeTree (connective : String) (arguments : List Term)
  | compile (description : Term) (types connective : Option Term)
  | collectBindings (object : String)
  | collectParameters (object : String)
  | visit (object : String)
  | expand (conditions : Term) (binder : String)
  | configure (options : List (String × Term))
  | reset
  | settings
  | log
  | nextIdentifier
  | same (left right : Term)

structure Step where
  action : Action
  name : Option String := none

inductive Reply
  | value (v : Value)
  | nodes (ids : List NodeId)
  | expanded (conditions : List Value) (bindings : Bindings)
  | settings (settings : Settings)
  | records (records : List Record)
  | same (b : Bool)

namespace WorkspaceM

def childOf (v : Value) (index : Int) : WorkspaceM Value := do
  match v with
  | .node id =>
    let conditions := (← junction id).conditions
    let position := if index < 0 then index + conditions.length else index
    match (if position < 0 then none else conditions[position.toNat]?) with
    | some condition => return condition
    | none => throw .outOfRange
  | _ => throw .noAttribute

def nodeOf : Value → WorkspaceM NodeId
  | .node id => return id
  | _ => throw .noAttribute

def binderOf : Value → WorkspaceM BinderId
  | .binder id => return id
  | _ => throw .noAttribute

end WorkspaceM

namespace SessionM

def evalOptions : List (String × Term) → SessionM Options
  | options => do
    let values ← evalAll (options.map Prod.snd)
    return Table.putAll ((options.map Prod.fst).zip values) []

def runAction : Action → SessionM Reply
  | .evaluate term => .value <$> eval term
  | .call object method arguments => do
    let object ← lookUp object
    let arguments ← evalAll arguments
    .value <$> call object method arguments
  | .read object name => do
    let object ← lookUp object
    .value <$> within (WorkspaceM.readAttribute object name)
  | .child object index => do
    let object ← lookUp object
    .value <$> within (WorkspaceM.childOf object index)
  | .join connective left right => do
    let left ← eval left
    let right ← eval right
    return .value (.node (← within (WorkspaceM.join connective left right)))
  | .invert operand => do
    let operand ← eval operand
    return .value (.node (← within (WorkspaceM.invert operand)))
  | .makeTree connective arguments => do
    let arguments ← evalAll arguments
    .value <$> treeFrom apply connective arguments
  | .compile description types connective => do
    let description ← eval description
    let types := (← evalArgument types).getD .null
    let connective := (← evalArgument connective).getD (.text "AND")
    let outcome ← within (WorkspaceM.compileDescription description types connective)
    return .value (outcome.toValue (← within WorkspaceM.takeMark))
  | .collectBindings object => do
    let object ← lookUp object
    let bindings ← within do WorkspaceM.collectBindings (← WorkspaceM.nodeOf object)
    .value <$> within (WorkspaceM.newList (bindings.map (.binding .passing)))
  | .collectParameters object => do
    let object ← lookUp object
    let parameters ← within do WorkspaceM.collectParameters (← WorkspaceM.nodeOf object)
    .value <$> within (WorkspaceM.newDict (parameters.map fun (name, v) => (.text name, v)))
  | .visit object => do
    let object ← lookUp object
    let id ← within (WorkspaceM.nodeOf object)
    return .nodes ((← get).workspace.postorder id)
  | .expand conditions binder => do
    let conditions ← eval conditions
    let object ← lookUp binder
    let (conditions, bindings) ← within do
      WorkspaceM.expandConditions conditions (← WorkspaceM.binderOf object)
    return .expanded conditions bindings
  | .configure options => do
    let options ← evalOptions options
    .settings <$> within (WorkspaceM.configure options)
  | .reset => .settings <$> within WorkspaceM.resetSettings
  | .settings => return .settings (← get).workspace.settings
  | .log => .records <$> within WorkspaceM.takeRecords
  | .nextIdentifier => return .value (.text (← within WorkspaceM.takeIdentifier))
  | .same left right => return .same (← evalSame left right)

def runStep (step : Step) : SessionM Reply := do
  let reply ← runAction step.action
  match step.name, reply with
  | some name, .value value =>
    let mark ← match step.action with
      | .evaluate term => markFor term
      | _ => pure none
    modify fun session => { session with names := Table.put name ⟨value, mark⟩ session.names }
    return reply
  | _, _ => return reply

end SessionM

namespace Session

def step (session : Session) (step : Step) : Except Fault Reply × Session :=
  (SessionM.runStep step).run.run session

def run (session : Session) : List Step → List (Except Fault Reply × Session)
  | [] => []
  | s :: rest =>
    let after := session.step s
    after :: run after.2 rest

end Session
end WhereClause
