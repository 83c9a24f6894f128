import WhereClause.Script.Session

/-!
# Reading attributes

The attributes of nodes, binders, bindings and results. To read the SQL text of a node is to render
it. A method that is read as an attribute is a new callable. The conditions of a tree are its list
itself, which goes on growing with the tree.
-/

namespace WhereClause

inductive Attribute
  | sql | identifier | isCompiled | connective | conditions | placeholder | binder | argument
  | value | field | operator | symbol | type | written | isMulti | elementType | count | expands
  | unknown
  deriving DecidableEq, Repr

namespace WorkspaceM

def boundMethod (owner : Value) (name : Method) : WorkspaceM Value :=
  return .method (← takeMark) owner name

def junctionAttribute (id : NodeId) (j : Junction) : Attribute → WorkspaceM Value
  | .identifier => return .text ((← get).binder j.binder).identifier
  | .isCompiled => return .bool j.compiled.isSome
  | .connective => return j.connective.toValue
  | .conditions => return .conditions id j.stage
  | .binder => return .binder j.binder
  | .placeholder => boundMethod (.node id) .placeholder
  | .type => boundMethod (.node id) .connective
  | .count => boundMethod (.node id) .count
  | _ => throw .noAttribute

def comparisonAttribute (c : Comparison) : Attribute → WorkspaceM Value
  | .field => return .text c.field
  | .value => return c.operand.value
  | .type => return .ofText? c.type
  | .operator => return .text c.operator
  | .placeholder => return .ofText? c.operand.placeholder?
  | .binder => return .binder c.binder
  | _ => throw .noAttribute

def unaryAttribute (u : Unary) : Attribute → WorkspaceM Value
  | .symbol => return .text u.symbol
  | .argument => return u.argument
  | _ => throw .noAttribute

def binderAttribute (id : BinderId) (b : Binder) : Attribute → WorkspaceM Value
  | .identifier => return .text b.identifier
  | .count => return .int b.count
  | .expands => return .bool b.expands
  | .placeholder => boundMethod (.binder id) .placeholder
  | _ => throw .noAttribute

def bindingAttribute (b : Binding) : Attribute → WorkspaceM Value
  | .placeholder => return .text b.fragment
  | .value => return b.value
  | .type => return .ofText? b.type
  | .written => return .text (b.placeholder (← get).settings)
  | .isMulti => return .bool (b.isMulti (← get).settings)
  | .elementType => return .ofText? (b.elementType (← get).settings)
  | _ => throw .noAttribute

def readAttribute (object : Value) (a : Attribute) : WorkspaceM Value := do
  match object with
  | .node id =>
    match a, (← get).node id with
    | .sql, _ => .text <$> sql id
    | a, .junction j => junctionAttribute id j a
    | a, .comparison c => comparisonAttribute c a
    | a, .unary u => unaryAttribute u a
    | _, _ => throw .noAttribute
  | .binder id => binderAttribute id ((← get).binder id) a
  | .binding _ b => bindingAttribute b a
  | .compiled _ | .outcome .. =>
    if a = .sql then .text <$> renderCondition sql object else throw .noAttribute
  | .text _ | .bytes _ | .list .. | .conditions .. | .tuple .. =>
    if a = .count then boundMethod object .count else throw .noAttribute
  | _ => throw .noAttribute

end WorkspaceM
end WhereClause
