import WhereClause.Expansion
import WhereClause.Workspace

/-!
# Rendering

Every node has a text, and a text that is safe beside an operator: in parentheses, unless it is in
parentheses already. A tree is compiled when its text is first asked for. Compiling expands the
bindings of the tree, renders its conditions from left to right, joins them by the connective, and
puts them into parentheses if there are several. The conditions that were rendered are a new list,
which takes the place of the one in which the tree was built. If a condition fails, the tree stays
as it was, but the sequence numbers that its expansion took stay taken.
-/

namespace WhereClause

def parenthesized (s : String) : String := "(" ++ s ++ ")"

/-- The texts joined by the connective, in parentheses if there are several. -/
def joined (connective : String) (parts : List String) : String :=
  let body := (" " ++ connective ++ " ").intercalate parts
  match parts with
  | [] | [_] => body
  | _ => parenthesized body

namespace WorkspaceM

/-- The text of one condition of a tree, given how nodes are rendered. Besides texts and nodes, what
was compiled before has a text. -/
def renderCondition (sql : NodeId → WorkspaceM String) : Value → WorkspaceM String
  | .text s => return s
  | .node id => sql id
  | .compiled tree => do
    match (← junction tree).compiled with
    | some rendered => return rendered.sql
    | none => throw .noAttribute
  | .outcome _ text .. => return text
  | _ => throw .noAttribute

def renderAll (sql : NodeId → WorkspaceM String) : List Value → WorkspaceM (List String)
  | [] => return []
  | condition :: rest => do
    let part ← renderCondition sql condition
    let parts ← renderAll sql rest
    return part :: parts

def expandTree (j : Junction) : WorkspaceM (List Value × Bindings) := do
  let workspace ← get
  let binder := workspace.binder j.binder
  if binder.expands then
    let (expansion, binder) := binder.expand workspace.toForest workspace.settings
    changeForest (·.setBinder j.binder binder)
    log expansion.events
    return (j.conditions.map expansion.substitute, expansion.bindings)
  else
    return (j.conditions, binder.bindings)

def compileJunction (sql : NodeId → WorkspaceM String) (id : NodeId) (j : Junction) :
    WorkspaceM Rendered := do
  match j.compiled with
  | some rendered => return rendered
  | none =>
    let (conditions, bindings) ← expandTree j
    let parts ← renderAll sql conditions
    let rendered : Rendered := ⟨joined j.connective.written parts, bindings⟩
    setJunction id { j with conditions, retired := j.conditions, compiled := some rendered }
    return rendered

def renderComparison (wrapped : NodeId → WorkspaceM String) (c : Comparison) :
    WorkspaceM String := do
  if Text.trim c.operator = "" then throw (.blankOperator c.field)
  else
    let operand ← match c.operand with
      | .nested id => wrapped id
      | .bound _ placeholder => pure placeholder
    return c.field ++ " " ++ c.operator ++ " " ++ operand

def renderUnary (sql wrapped : NodeId → WorkspaceM String) (u : Unary) : WorkspaceM String := do
  if u.symbol = "" then throw .missingSymbol
  else
    match u.argument with
    | .null => throw .missingArgument
    | .node id =>
      if u.trailing then return (← sql id) ++ " " ++ u.symbol
      else return u.symbol ++ " " ++ (← wrapped id)
    | v =>
      let text := (← get).plainText v
      if u.trailing then return text ++ " " ++ u.symbol
      else return u.symbol ++ " " ++ parenthesized text

/-- The text of a node, given how the nodes below it are rendered. -/
def renderNode (sql wrapped : NodeId → WorkspaceM String) (id : NodeId) : WorkspaceM String := do
  match (← get).node id with
  | .junction j => Rendered.sql <$> compileJunction sql id j
  | .comparison c => renderComparison wrapped c
  | .unary u => renderUnary sql wrapped u
  | .fragment text => return text
  | .abstract => throw .abstractNode

/-- Asks for a text, and asks again if a condition without a text is in the way: the answer is the
same, but every expansion on the way to that condition is made a second time. -/
def askAgain (ask : WorkspaceM String) : WorkspaceM String :=
  tryCatch ask fun
    | .noAttribute => ask
    | fault => throw fault

/-- The text of a node beside an operator, given how the nodes below it are rendered. A tree with
several conditions is in parentheses already, and one with a single node for its condition is
compiled and then wrapped as that node is. -/
def wrapNode (sql wrapped : NodeId → WorkspaceM String) (id : NodeId) : WorkspaceM String := do
  let own := askAgain (renderNode sql wrapped id)
  match (← get).node id with
  | .junction j =>
    match j.conditions with
    | [.node child] =>
      discard (compileJunction sql id j)
      wrapped child
    | [] | [_] => parenthesized <$> own
    | _ => own
  | _ => parenthesized <$> own

mutual
def sqlWithin : Nat → NodeId → WorkspaceM String
  | 0, _ => throw .tooDeep
  | depth + 1, id => askAgain (renderNode (sqlWithin depth) (wrappedWithin depth) id)

/-- The text, beside an operator, of a node whose nodes are nested at most this deep. -/
def wrappedWithin : Nat → NodeId → WorkspaceM String
  | 0, _ => throw .tooDeep
  | depth + 1, id => wrapNode (sqlWithin depth) (wrappedWithin depth) id
end

def sql (id : NodeId) : WorkspaceM String := do sqlWithin (← get).depthBound id

def wrapped (id : NodeId) : WorkspaceM String := do wrappedWithin (← get).depthBound id

def compile (id : NodeId) : WorkspaceM Rendered := do
  let depth := (← get).depthBound
  compileJunction (sqlWithin depth) id (← junction id)

end WorkspaceM
end WhereClause
