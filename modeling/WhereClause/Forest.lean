import WhereClause.Node

/-!
# Forests

A forest holds every node and binder made so far, and what was added to lists since they were made.
A handle that names nothing reads as a condition without a text, or as an empty binder.

* `node_setNode`, `binder_setBinder`: a change of one object leaves every other one as it was.
* `sequence?_extendList`: what is added to a list is at its end, and no other list gets it.
-/

namespace WhereClause

structure Forest where
  nodes : Array Node := #[]
  binders : Array Binder := #[]
  additions : Table Mark (List Value) := []
  nextMark : Nat := 1

namespace Forest

def node (forest : Forest) (id : NodeId) : Node := forest.nodes[id.index]?.getD .abstract

def binder (forest : Forest) (id : BinderId) : Binder :=
  forest.binders[id.index]?.getD { identifier := "" }

def setNode (id : NodeId) (node : Node) (forest : Forest) : Forest :=
  { forest with nodes := forest.nodes.setIfInBounds id.index node }

def setBinder (id : BinderId) (binder : Binder) (forest : Forest) : Forest :=
  { forest with binders := forest.binders.setIfInBounds id.index binder }

def junction? (forest : Forest) (id : NodeId) : Option Junction :=
  match forest.node id with
  | .junction j => some j
  | _ => none

def isEmptyTree (forest : Forest) (id : NodeId) : Bool :=
  (forest.junction? id).any (·.conditions.isEmpty)

def isFilledTree (forest : Forest) (id : NodeId) : Bool :=
  (forest.junction? id).any (!·.conditions.isEmpty)

/-- The elements of a list that the forest keeps, which come after those it was made with. -/
def kept (forest : Forest) : Value → List Value
  | .list mark _ => (Table.get? mark forest.additions).getD []
  | .conditions tree stage => ((forest.junction? tree).map (·.listAt stage)).getD []
  | _ => []

/-- The elements that a sequence holds now, if the value is a sequence. -/
def sequence? (forest : Forest) (v : Value) : Option (List Value) :=
  v.written?.map (· ++ forest.kept v)

/-- The values that a value binds when it is bound element by element. What is no sequence is one
element. -/
def elements (forest : Forest) (v : Value) : List Value :=
  match v with
  | .null => []
  | v => (forest.sequence? v).getD [v]

def extendList (forest : Forest) (v : Value) (more : List Value) : Forest :=
  match v with
  | .list mark _ =>
    { forest with additions := Table.put mark (forest.kept v ++ more) forest.additions }
  | .conditions tree stage =>
    match forest.junction? tree with
    | some j => forest.setNode tree (.junction (j.appendAt stage more))
    | none => forest
  | _ => forest

/-- Whether a value counts as given. Nothing, zero, and whatever is empty do not. -/
def isTruthy (forest : Forest) (v : Value) : Bool :=
  match v with
  | .null => false
  | .bool b => b
  | .int n => n != 0
  | .float x => !x.isZero
  | .text s => !s.isEmpty
  | .bytes b => !b.isEmpty
  | .dict _ entries => !entries.isEmpty
  | .node id => !forest.isEmptyTree id
  | .binder id => !(forest.binder id).bindings.isEmpty
  | v => (forest.sequence? v).all (!·.isEmpty)

/-- A bound on how deep nodes are nested, as long as no node is below itself. -/
def depthBound (forest : Forest) : Nat := forest.nodes.size + 1

/-- The bindings made by a node itself, without those of the nodes below it: after compiling, the
expanded ones. -/
def ownBindings (forest : Forest) (id : NodeId) : Bindings :=
  match forest.node id with
  | .junction j =>
    match j.compiled with
    | some rendered => rendered.bindings
    | none => (forest.binder j.binder).bindings
  | .comparison c => (forest.binder c.binder).bindings
  | _ => []

theorem node_setNode (forest : Forest) (id other : NodeId) (node : Node) :
    (forest.setNode id node).node other =
      if id = other ∧ id.index < forest.nodes.size then node else forest.node other := by
  cases id with | mk i
  cases other with | mk j
  simp only [Forest.node, setNode, Array.getElem?_setIfInBounds, NodeId.mk.injEq]
  by_cases same : i = j
  · subst same
    by_cases bound : i < forest.nodes.size <;> simp [bound]
  · simp [same]

theorem binder_setBinder (forest : Forest) (id other : BinderId) (binder : Binder) :
    (forest.setBinder id binder).binder other =
      if id = other ∧ id.index < forest.binders.size then binder else forest.binder other := by
  cases id with | mk i
  cases other with | mk j
  simp only [Forest.binder, setBinder, Array.getElem?_setIfInBounds, BinderId.mk.injEq]
  by_cases same : i = j
  · subst same
    by_cases bound : i < forest.binders.size <;> simp [bound]
  · simp [same]

@[simp] theorem node_setBinder (forest : Forest) (id : BinderId) (other : NodeId)
    (binder : Binder) : (forest.setBinder id binder).node other = forest.node other := rfl

@[simp] theorem binder_setNode (forest : Forest) (id : NodeId) (other : BinderId) (node : Node) :
    (forest.setNode id node).binder other = forest.binder other := rfl

theorem sequence?_extendList (forest : Forest) (mark other : Mark) (vs ws more : List Value) :
    (forest.extendList (.list mark vs) more).sequence? (.list other ws) =
      if mark = other then (forest.sequence? (.list other ws)).map (· ++ more)
      else forest.sequence? (.list other ws) := by
  by_cases same : mark = other
  · subst same
    simp [sequence?, extendList, kept, Value.written?, Table.get?_put]
  · simp [sequence?, extendList, kept, Value.written?, Table.get?_put, same]

end Forest
end WhereClause
