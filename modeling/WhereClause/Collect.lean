import WhereClause.Build
import WhereClause.Render

/-!
# Collecting bindings

The nodes of a tree are visited deepest first and from left to right, a shared node once for every
way to reach it. After rendering, their own bindings in this order are the bindings of the whole.
-/

namespace WhereClause

namespace Forest

/-- The nodes at and below a node, at most this deep, every node after those below it. -/
def postorderWithin (forest : Forest) : Nat → NodeId → List NodeId
  | 0, _ => []
  | depth + 1, id => (forest.node id).children.flatMap (forest.postorderWithin depth) ++ [id]

/-- The nodes at and below a node, every node after those below it. -/
def postorder (forest : Forest) (id : NodeId) : List NodeId :=
  forest.postorderWithin (forest.depthBound) id

def allBindings (forest : Forest) (id : NodeId) : List Binding :=
  (forest.postorder id).flatMap fun id => Table.values (forest.ownBindings id)

end Forest

/-- The values bound to named placeholders; of several under one name, the last. -/
def namedValues (settings : Settings) (bindings : List Binding) : Table String Value :=
  Table.putAll ((bindings.filter BindingOf.isNamed).map fun binding =>
    (binding.placeholder settings, binding.value)) []

def namedTypes (settings : Settings) (bindings : List Binding) : Table String (Option String) :=
  Table.putAll ((bindings.filter BindingOf.isNamed).map fun binding =>
    (binding.placeholder settings, binding.type)) []

def positionalValues (bindings : List Binding) : List Value :=
  (bindings.filter fun binding => !binding.isNamed).map BindingOf.value

structure Outcome where
  sql : String
  parameters : Table String Value
  types : Table String (Option String)
  positional : List Value

def Outcome.toValue (mark : Mark) (outcome : Outcome) : Value :=
  .outcome mark outcome.sql outcome.parameters outcome.types outcome.positional

namespace WorkspaceM

def collectBindings (id : NodeId) : WorkspaceM (List Binding) := do
  discard (sql id)
  return (← forest).allBindings id

def collectParameters (id : NodeId) : WorkspaceM (Table String Value) := do
  let bindings ← collectBindings id
  return namedValues (← get).settings bindings

def outcomeOf (tree : NodeId) : WorkspaceM Outcome := do
  let bindings ← collectBindings tree
  let settings := (← get).settings
  return ⟨← sql tree, namedValues settings bindings, namedTypes settings bindings,
    positionalValues bindings⟩

/-- Compiles a description. A tree is compiled as it is; anything else becomes a tree first. -/
def compileDescription (description types connective : Value) : WorkspaceM Outcome := do
  let forest ← forest
  match description.node? with
  | some id =>
    if (forest.junction? id).isSome then outcomeOf id
    else outcomeOf (← newTree description types connective none)
  | none => outcomeOf (← newTree description types connective none)

end WorkspaceM
end WhereClause
