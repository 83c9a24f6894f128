import WhereClause.Script.Call

/-!
# Sessions

A session is a workspace with names for values. Terms are evaluated in it from left to right, and
what they construct is added to the forest as they are evaluated. Every container and callable that
is evaluated is a new object.
-/

namespace WhereClause

/-- A value stored under a name. A number, text or bytes that a step wrote out has a mark here,
which tells it from others that hold the same. -/
structure Named where
  value : Value
  mark : Option Mark := none

structure Session where
  workspace : Workspace := {}
  names : Table String Named := []

abbrev SessionM := ExceptT Fault (StateM Session)

namespace SessionM

def within {α : Type} (operation : WorkspaceM α) : SessionM α := do
  let session ← get
  let (result, workspace) := operation.run session.workspace
  set { session with workspace }
  match result with
  | .ok a => return a
  | .error fault => throw fault

def lookUpNamed (name : String) : SessionM Named := do
  match Table.get? name (← get).names with
  | some named => return named
  | none => throw .unknownName

def lookUp (name : String) : SessionM Value := Named.value <$> lookUpNamed name

def lookUpBinder : Option String → SessionM (Option BinderId)
  | none => return none
  | some name => do
    match ← lookUp name with
    | .binder id => return some id
    | _ => throw (.invalid [⟨"bindings_store", .notBinder⟩])

def marked {α : Type} (object : Mark → α → Value) (content : SessionM α) : SessionM Value := do
  let a ← content
  return object (← within WorkspaceM.takeMark) a

def members (vs : List Value) : SessionM (List Value) :=
  if Value.allHashable vs then return vs else throw .wrongType

mutual
def eval : Term → SessionM Value
  | .null => return .null
  | .bool b => return .bool b
  | .int n => return .int n
  | .float x => return .float x
  | .text s => return .text s
  | .bytes b => return .bytes b
  | .list elements => marked .list (evalAll elements)
  | .tuple elements => marked .tuple (evalAll elements)
  | .set elements => marked .set do members (← evalAll elements)
  | .frozenSet elements => marked .frozenSet do members (← evalAll elements)
  | .dict entries => marked .dict (evalEntries entries)
  | .named name => lookUp name
  | .callable calls => marked .callable (pure calls)
  | .junction conditions types connective binder => do
    let conditions := (← evalArgument conditions).getD .null
    let types := (← evalArgument types).getD .null
    let connective := (← evalArgument connective).getD .null
    let binder ← lookUpBinder binder
    .node <$> within (WorkspaceM.newTree conditions types connective binder)
  | .comparison field value type operator => do
    let field ← evalArgument field
    let value ← evalArgument value
    let type ← evalArgument type
    let operator ← evalArgument operator
    .node <$> within (WorkspaceM.newComparison field value type operator)
  | .unary symbol argument trailing => do
    let symbol ← evalArgument symbol
    let argument ← evalArgument argument
    let trailing ← evalArgument trailing
    .node <$> within (WorkspaceM.newUnary symbol argument trailing)
  | .fragment text => do
    let text ← evalArgument text
    .node <$> within (WorkspaceM.newFragment text)
  | .abstract => .node <$> within (WorkspaceM.addNode .abstract)
  | .binder identifier count => do
    let identifier ← evalArgument identifier
    let count ← evalArgument count
    .binder <$> within (WorkspaceM.newBinder identifier count)
  | .binding fragment value type => do
    let fragment ← evalArgument fragment
    let value ← evalArgument value
    let type ← evalArgument type
    marked .binding (within (WorkspaceM.ofExcept (Binding.make fragment value type)))

def evalArgument : Option Term → SessionM (Option Value)
  | none => return none
  | some term => some <$> eval term

def evalAll : List Term → SessionM (List Value)
  | [] => return []
  | term :: rest => do
    let v ← eval term
    let vs ← evalAll rest
    return v :: vs

/-- The entries of a dictionary, from left to right, each key before its value. -/
def evalEntries : List (Term × Term) → SessionM (List (Value × Value))
  | [] => return []
  | (key, value) :: rest => do
    let k ← eval key
    let v ← eval value
    if !k.isHashable then throw .wrongType
    else
      let entries ← evalEntries rest
      return (k, v) :: entries
end

def writesOut : Term → Bool
  | .int _ | .float _ | .text _ | .bytes _ => true
  | _ => false

def markFor : Term → SessionM (Option Mark)
  | .named name => Named.mark <$> lookUpNamed name
  | term => if writesOut term then some <$> within WorkspaceM.takeMark else return none

/-- Whether two terms give the same object. What is written out in one of them is new, unless there
is only one object like it. -/
def evalSame (left right : Term) : SessionM Bool := do
  let a ← eval left
  let b ← eval right
  if !a.same b || a.isUnique then return a.same b
  else if writesOut left || writesOut right then return false
  else
    match ← markFor left, ← markFor right with
    | some mark, some other => return mark == other
    | _, _ => return true

/-- A new tree from a description, or what a callable makes of an empty tree. -/
def treeOrApplied (apply : Value → Value → SessionM Value) (connective : String)
    (description types : Value) : SessionM Value := do
  if description.isCallable then
    apply description (.node (← within (WorkspaceM.newTree .null .null (.text connective) none)))
  else
    .node <$> within (WorkspaceM.newTree description types (.text connective) none)

def treeFrom (apply : Value → Value → SessionM Value) (connective : String) :
    List Value → SessionM Value
  | [description] => treeOrApplied apply connective description .null
  | [description, types] => treeOrApplied apply connective description types
  | _ => throw .wrongType

/-- The object's answer to a method, given how callables are applied. -/
def callWith (apply : Value → Value → SessionM Value) (object : Value) (method : Method)
    (arguments : List Value) : SessionM Value := do
  let isTree := (object.node?.bind (← get).workspace.junction?).isSome
  match method with
  | .conjoin => if isTree then treeFrom apply "AND" arguments else throw .noAttribute
  | .disjoin => if isTree then treeFrom apply "OR" arguments else throw .noAttribute
  | method => within (WorkspaceM.call object method arguments)

def chain (call : Value → Method → List Value → SessionM Value) :
    List (Method × List Term) → Value → SessionM Value
  | [], object => return object
  | (method, terms) :: rest, object => do
    let arguments ← evalAll terms
    let result ← call object method arguments
    chain call rest result

/-- Applies a callable to an object, with callables applied in turn at most this deep. -/
def applyWithin : Nat → Value → Value → SessionM Value
  | 0, _, _ => throw .tooDeep
  | depth + 1, .callable _ calls, object => chain (callWith (applyWithin depth)) calls object
  | depth + 1, .method _ owner name, object => callWith (applyWithin depth) owner name [object]
  | _ + 1, _, _ => throw .wrongType

def applyDepth : Nat := 200

def apply (callable object : Value) : SessionM Value := applyWithin applyDepth callable object

def call (object : Value) (method : Method) (arguments : List Value) : SessionM Value :=
  callWith apply object method arguments

end SessionM
end WhereClause
