import WhereClause.Binder
import WhereClause.Connective

/-!
# Nodes

The conditions that are objects. A junction joins conditions by a connective and is compiled at
most once; a comparison and a unary condition are complete when they are made.
-/

namespace WhereClause

structure Rendered where
  sql : String
  bindings : Bindings

/-- Conditions joined by one connective. A condition is a text or a node; anything else is kept
until rendering refuses it. -/
structure Junction where
  connective : Connective
  conditions : List Value := []
  /-- The list in which the tree was built, once compiling has put another one in its place. -/
  retired : List Value := []
  binder : BinderId
  /-- The result of compiling, after which the tree takes no more conditions. -/
  compiled : Option Rendered := none

namespace Junction

def stage (j : Junction) : Stage := if j.compiled.isSome then .compiled else .built

def listAt (j : Junction) (stage : Stage) : List Value :=
  if stage = j.stage then j.conditions else j.retired

def appendAt (j : Junction) (stage : Stage) (more : List Value) : Junction :=
  if stage = j.stage then { j with conditions := j.conditions ++ more }
  else { j with retired := j.retired ++ more }

@[simp] theorem listAt_stage (j : Junction) : j.listAt j.stage = j.conditions := by
  simp [listAt]

theorem listAt_appendAt (j : Junction) (stage other : Stage) (more : List Value) :
    (j.appendAt stage more).listAt other =
      if stage = other then j.listAt other ++ more else j.listAt other := by
  cases stage <;> cases other <;> cases compiled : j.compiled <;>
    simp [listAt, appendAt, Junction.stage, compiled]

end Junction

/-- What a field is compared with: a bound value, or a node that is rendered in place. -/
inductive Operand
  | bound (value : Value) (placeholder : String)
  | nested (id : NodeId)

def Operand.value : Operand → Value
  | bound value _ => value
  | nested id => .node id

def Operand.placeholder? : Operand → Option String
  | bound _ placeholder => some placeholder
  | nested _ => none

structure Comparison where
  field : String
  operand : Operand
  type : Option String
  operator : String
  binder : BinderId

structure Unary where
  symbol : String
  argument : Value
  trailing : Bool

inductive Node
  | junction (j : Junction)
  | comparison (c : Comparison)
  | unary (u : Unary)
  | fragment (text : String)
  | abstract

/-- The nodes directly below a node, in the order in which they are rendered. -/
def Node.children : Node → List NodeId
  | junction j => j.conditions.filterMap Value.node?
  | comparison c => c.operand.value.node?.toList
  | unary u => u.argument.node?.toList
  | fragment _ | abstract => []

end WhereClause
