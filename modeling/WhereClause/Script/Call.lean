import WhereClause.Identity
import WhereClause.Tree

/-!
# Answering methods

What trees, binders and the other values answer to a method, with arguments given as values.
Arguments are positional, and those at the end may be left out. A wrong number of arguments is a
wrong type, and so is calling an attribute that is no method. A list, tuple or dictionary that is
made for an answer is a new object.
-/

namespace WhereClause
namespace WorkspaceM

def newList (vs : List Value) : WorkspaceM Value := return .list (← takeMark) vs

def newTuple (vs : List Value) : WorkspaceM Value := return .tuple (← takeMark) vs

def newDict (entries : List (Value × Value)) : WorkspaceM Value := return .dict (← takeMark) entries

def thenTree (id : NodeId) (change : WorkspaceM Unit) : WorkspaceM Value := do
  change
  return .node id

def callNode (id : NodeId) : Method → List Value → WorkspaceM Value
  | .bindings, [] => do newDict ((← get).ownBindings id).entries
  | .wrapped, [] => .text <$> wrapped id
  | .bindings, _ | .wrapped, _ => throw .wrongType
  | _, _ => throw .noAttribute

def callTree (id : NodeId) : Method → List Value → WorkspaceM Value
  | .connective, [] | .connective, [.null] => return (← junction id).connective.toValue
  | .connective, [connective] => thenTree id (setConnective id connective)
  | .add, [description] => thenTree id (add id description .null)
  | .add, [description, types] => thenTree id (add id description types)
  | .append, [condition] => thenTree id (append id condition)
  | .compare c, [field, value] => thenTree id (addComparison id c.operator field value .null)
  | .compare c, [field, value, type] => thenTree id (addComparison id c.operator field value type)
  | .isNull, [field] => thenTree id (addTest id field " IS NULL")
  | .isNotNull, [field] => thenTree id (addTest id field " IS NOT NULL")
  | .negate, [description] => thenTree id (addNegation id description .null)
  | .negate, [description, types] => thenTree id (addNegation id description types)
  | .bind, [name, value] => thenTree id (bindInTree id name value .null)
  | .bind, [name, value, type] => thenTree id (bindInTree id name value type)
  | .placeholder, [token] => return .text (← placeholder (← junction id).binder token)
  | .count, [] => return .int (← junction id).conditions.length
  | .compile, [] => do
    discard (compile id)
    return .compiled id
  | .bindings, arguments => callNode id .bindings arguments
  | .wrapped, arguments => callNode id .wrapped arguments
  | .connective, _ | .add, _ | .append, _ | .compare _, _ | .isNull, _ | .isNotNull, _
  | .negate, _ | .bind, _ | .placeholder, _ | .count, _ | .compile, _ => throw .wrongType
  | _, _ => throw .noAttribute

def reserveIn (id : BinderId) (token keeping : Value) : WorkspaceM Value := do
  let workspace ← get
  let reservation ← onBinder id fun b =>
    let (reservation, b) := b.reserve workspace.settings token (workspace.isTruthy keeping)
    (.ok reservation, b)
  newTuple [.int reservation.number, .text reservation.name]

def registerIn (id : BinderId) (token value type : Value) : WorkspaceM Value := do
  let settings := (← get).settings
  let placeholder ← onBinder id fun b => b.register settings token value type
  return .text placeholder

def bindIn (id : BinderId) (name value type : Value) : WorkspaceM Value := do
  let settings := (← get).settings
  onBinder id fun b => b.bind settings name value type
  return .binder id

def callBinder (id : BinderId) : Method → List Value → WorkspaceM Value
  | .reserve, [token] => reserveIn id token (.bool true)
  | .reserve, [token, keeping] => reserveIn id token keeping
  | .register, [token, value] => registerIn id token value .null
  | .register, [token, value, type] => registerIn id token value type
  | .bind, [name, value] => bindIn id name value .null
  | .bind, [name, value, type] => bindIn id name value type
  | .placeholder, [token] => .text <$> placeholder id token
  | .reserve, _ | .register, _ | .bind, _ | .placeholder, _ | .count, _ | .bindings, _ =>
    throw .wrongType
  | _, _ => throw .noAttribute

/-- What a list or tuple answers: how many of its elements are like a value, and a list takes a
value at its end. -/
def callOrdered (v : Value) : Method → List Value → WorkspaceM Value
  | .count, [wanted] => do
    let forest ← forest
    let elements := (forest.sequence? v).getD []
    return .int (elements.countP fun element => (forest.view element).alike (forest.view wanted))
  | .append, arguments =>
    if v.isList then
      match arguments with
      | [element] => do
        changeForest (·.extendList v [element])
        return .null
      | _ => throw .wrongType
    else throw .noAttribute
  | .count, _ => throw .wrongType
  | _, _ => throw .noAttribute

/-- The characters of a text, or bytes as characters, and the same of a part to look for in it. The
part must be of the same sort. -/
def letters? : Value → Value → Option (List Char × List Char)
  | .text s, .text part => some (s.toList, part.toList)
  | .bytes b, .bytes part =>
    some (b.map fun n => Char.ofNat n.toNat, part.map fun n => Char.ofNat n.toNat)
  | _, _ => none

def callText (v : Value) : Method → List Value → WorkspaceM Value
  | .count, [part] =>
    match letters? v part with
    | some (letters, part) => return .int (Text.count part letters)
    | none => throw .wrongType
  | .count, _ => throw .wrongType
  | _, _ => throw .noAttribute

def lengthOf (v : Value) : WorkspaceM Nat := do
  let forest ← forest
  match v with
  | .text s => return s.length
  | .bytes b => return b.length
  | .dict _ entries => return entries.length
  | .binder id => return (forest.binder id).bindings.length
  | .node id =>
    match forest.junction? id with
    | some j => return j.conditions.length
    | none => throw .wrongType
  | v =>
    match forest.sequence? v with
    | some vs => return vs.length
    | none => throw .wrongType

/-- What an object answers to a method that makes no tree from a description. An attribute that is
no method is of the wrong type to be called. -/
def call (object : Value) (method : Method) (arguments : List Value) : WorkspaceM Value := do
  match method, object with
  | .length, v => return .int (← lengthOf v)
  | .text, v => return .text (← textOf v)
  | .children, .node id => newList (((← get).node id).children.map .node)
  | method, .node id =>
    match (← get).node id, method with
    | .junction _, method => callTree id method arguments
    | .comparison _, .connective | .comparison _, .placeholder => throw .wrongType
    | _, method => callNode id method arguments
  | method, .binder id => callBinder id method arguments
  | .connective, .binding .. | .placeholder, .binding .. | .bindings, .compiled _ =>
    throw .wrongType
  | method, .text s => callText (.text s) method arguments
  | method, .bytes b => callText (.bytes b) method arguments
  | method, v => if v.isOrdered then callOrdered v method arguments else throw .noAttribute

end WorkspaceM
end WhereClause
