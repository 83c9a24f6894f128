import WhereClause.Workspace

/-!
# Making objects

How bindings, binders and condition nodes are made from the values of their fields; an absent field
is `none`. Every field is checked, and all problems are told at once, in the order of the fields.
A comparison takes its identifier before its fields are checked, and so does a binder.
-/

namespace WhereClause

def Binding.make (fragment value type : Option Value) : Except Fault Binding :=
  match Value.givenText fragment, (type.getD .null).toType with
  | .ok fragment, .ok type => .ok ⟨fragment, value.getD .null, type⟩
  | fragment, type =>
    .error (.invalid ((issue? "placeholder" fragment).toList ++ (issue? "type" type).toList))

namespace WorkspaceM

def newBinder (identifier count : Option Value) : WorkspaceM BinderId := do
  let identifier ← match identifier with
    | some v => pure v.toText
    | none => Except.ok <$> takeIdentifier
  match identifier, (count.getD (.int 0)).toInteger with
  | .ok identifier, .ok count => addBinder { identifier, count }
  | identifier, count =>
    throw (.invalid ((issue? "identifier" identifier).toList ++ (issue? "count" count).toList))

/-- What a comparison compares its field with: a node as it is, any other value through a binding
made by the comparison's own binder. -/
def newOperand (binder : BinderId) (field : String) (value : Value) (type : Option String) :
    WorkspaceM Operand := do
  match value with
  | .node id => return .nested id
  | value =>
    let settings := (← get).settings
    let placeholder ← onBinder binder fun b =>
      b.register settings (.text field) value (.ofText? type)
    return .bound value placeholder

def newComparison (field value type operator : Option Value) : WorkspaceM NodeId := do
  let identifier ← takeIdentifier
  let field := Value.givenText field
  let type := (type.getD .null).toType
  let operator := (operator.getD (.text "=")).toText
  match field, type, operator with
  | .ok field, .ok type, .ok operator =>
    let binder ← addBinder { identifier }
    let operand ← newOperand binder field (value.getD .null) type
    addNode (.comparison { field, operand, type, operator, binder })
  | field, type, operator =>
    throw (.invalid ((issue? "field" field).toList ++ (issue? "type" type).toList ++
      (issue? "operator" operator).toList))

def newUnary (symbol argument trailing : Option Value) : WorkspaceM NodeId := do
  match Value.givenText symbol, (trailing.getD (.bool false)).toBoolean with
  | .ok symbol, .ok trailing =>
    addNode (.unary { symbol, argument := argument.getD .null, trailing })
  | symbol, trailing =>
    throw (.invalid ((issue? "symbol" symbol).toList ++ (issue? "postfix" trailing).toList))

def newFragment (text : Option Value) : WorkspaceM NodeId := do
  match Value.givenText text with
  | .ok text => addNode (.fragment text)
  | text => throw (.invalid (issue? "text" text).toList)

end WorkspaceM
end WhereClause
