import WhereClause.Collect
import WhereClause.Parts

/-!
# Operations on trees

What a caller does with trees and binders beside adding descriptions: comparisons by name, joining
and negating nodes, binding by hand, and expanding conditions by the bindings of any binder.
-/

namespace WhereClause
namespace WorkspaceM

def textOf : Value → WorkspaceM String
  | .node id => sql id
  | v => return (← get).plainText v

/-- Adds a comparison to a tree by way of a description with one entry, whose key is the field with
the operator. The type is declared for the field alone. -/
def addComparison (tree : NodeId) (operator : String) (field value type : Value) :
    WorkspaceM Unit := do
  let key := (← textOf field) ++ " " ++ operator
  let types ←
    if !(← get).isTruthy type then pure (Value.dict .passing [])
    else if field.isHashable then pure (Value.dict .passing [(field, type)])
    else throw .wrongType
  add tree (.dict .passing [(.text key, value)]) types

def addTest (tree : NodeId) (field : Value) (test : String) : WorkspaceM Unit := do
  add tree (.text ((← textOf field) ++ test)) .null

def addNegation (tree : NodeId) (description types : Value) : WorkspaceM Unit :=
  add tree (.dict .passing [(.text "NOT", description)]) types

def join (connective : String) (left right : Value) : WorkspaceM NodeId := do
  match left with
  | .node _ =>
    let tree ← newJunction connective
    append tree left
    append tree right
    return tree
  | _ => throw .wrongType

def invert (operand : Value) : WorkspaceM NodeId := do
  match operand with
  | .node _ =>
    let tree ← newJunction (Text.upper (← get).settings.defaultConnective)
    append tree operand
    addNode (.unary ⟨"NOT", .node tree, false⟩)
  | _ => throw .wrongType

def bindInTree (tree : NodeId) (name value type : Value) : WorkspaceM Unit := do
  let j ← openJunction tree
  let settings := (← get).settings
  onBinder j.binder fun b => b.bind settings name value type

def placeholder (binder : BinderId) (token : Value) : WorkspaceM String := do
  let settings := (← get).settings
  onBinder binder fun b =>
    let (reservation, b) := b.reserve settings token true
    (.ok reservation.name, b)

/-- Expands conditions by the bindings of a binder. Whatever can be gone through can be given for
the conditions. -/
def expandConditions (conditions : Value) (binder : BinderId) :
    WorkspaceM (List Value × Bindings) := do
  let workspace ← get
  let (expansion, b) :=
    (workspace.binder binder).expand workspace.toForest workspace.settings
  changeForest (·.setBinder binder b)
  log expansion.events
  match (← forest).parts? conditions with
  | some conditions => return (conditions.map expansion.substitute, expansion.bindings)
  | none => throw .wrongType

end WorkspaceM
end WhereClause
