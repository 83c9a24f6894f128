import WhereClause.Numeral
import WhereClause.Term

/-!
# Values

The values that describe conditions, are bound to placeholders, and come back from calls. Trees,
comparisons and binders are shared objects: a value holds a handle, and what the handle names is
kept in a `Forest`. A list is shared too, and it can grow. It holds the elements that it was made
with, and a forest keeps what was added at its end since.

Containers, bindings, results and callables carry a mark, by which two objects of one content are
told apart.
-/

namespace WhereClause

structure NodeId where
  index : Nat
  deriving DecidableEq, Repr

structure BinderId where
  index : Nat
  deriving DecidableEq, Repr

structure Mark where
  number : Nat
  deriving DecidableEq, Repr

/-- The mark of a value that is used up where it is made, so that it is never compared. -/
def Mark.passing : Mark := ⟨0⟩

/-- The two lists of conditions that a tree has in turn: the one in which it is built, and the one
that compiling puts in its place. -/
inductive Stage
  | built | compiled
  deriving DecidableEq, Repr

/-- A value bound to a placeholder. The fragment is the placeholder without its colon; an empty one
stands for a positional placeholder. -/
structure BindingOf (α : Type) where
  fragment : String
  value : α
  type : Option String

inductive Value
  | null
  | bool (b : Bool)
  | int (n : Int)
  | float (x : Floating)
  | text (s : String)
  | bytes (b : List UInt8)
  | list (mark : Mark) (elements : List Value)
  | tuple (mark : Mark) (elements : List Value)
  | set (mark : Mark) (elements : List Value)
  | frozenSet (mark : Mark) (elements : List Value)
  | dict (mark : Mark) (entries : List (Value × Value))
  | node (id : NodeId)
  | binder (id : BinderId)
  | conditions (tree : NodeId) (stage : Stage)
  | binding (mark : Mark) (b : BindingOf Value)
  | compiled (tree : NodeId)
  /-- The SQL text of a whole description, its named values and their types, and its positional
  values. -/
  | outcome (mark : Mark) (sql : String) (parameters : List (String × Value))
      (types : List (String × Option String)) (positional : List Value)
  | callable (mark : Mark) (calls : List (Method × List Term))
  | method (mark : Mark) (owner : Value) (name : Method)

abbrev Binding := BindingOf Value

namespace Value

/-- Whether a value counts as a position: an integer, a finite floating-point number or a numeral.
Truth values do not. -/
def isNumeric : Value → Bool
  | int _ => true
  | float x => x.isFinite
  | text s => isNumeral s
  | _ => false

def text? : Value → Option String
  | text s => some s
  | _ => none

def ofText? : Option String → Value
  | some s => text s
  | none => null

def node? : Value → Option NodeId
  | node id => some id
  | _ => none

/-- The elements that a sequence was made with, if the value is a sequence. -/
def written? : Value → Option (List Value)
  | list _ vs | tuple _ vs | set _ vs | frozenSet _ vs => some vs
  | conditions .. => some []
  | _ => none

def isList : Value → Bool
  | list .. | conditions .. => true
  | _ => false

def isOrdered : Value → Bool
  | list .. | conditions .. | tuple .. => true
  | _ => false

def isCallable : Value → Bool
  | callable .. | method .. => true
  | _ => false

mutual
/-- Whether the value never changes, so that it can be a key or an element of a set. -/
def isHashable : Value → Bool
  | null | bool _ | int _ | float _ | text _ | bytes _ | frozenSet .. | callable .. | method .. =>
    true
  | tuple _ elements => allHashable elements
  | binding _ b => b.value.isHashable
  | list .. | set .. | dict .. | node _ | binder _ | conditions .. | compiled _ | outcome .. =>
    false

def allHashable : List Value → Bool
  | [] => true
  | v :: rest => v.isHashable && allHashable rest
end

end Value
end WhereClause
