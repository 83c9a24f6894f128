import WhereClause.Comparator
import WhereClause.Floating

/-!
# Terms

A term describes a value that is yet to be made: literals, containers, names of earlier values, and
constructions of conditions and binders. Evaluating a term twice makes its objects twice. A
callable is a chain of method calls kept as terms until it is applied.
-/

namespace WhereClause

inductive Method
  | connective | add | append | compare (comparator : Comparator) | isNull | isNotNull
  | negate | conjoin | disjoin
  | bind | placeholder | reserve | register | bindings | count
  | compile | wrapped | children | length | text
  | unknown
  deriving DecidableEq, Repr

/-- A value to be made. A construction lists its arguments in the order in which they are made;
an absent one takes its default. -/
inductive Term
  | null
  | bool (b : Bool)
  | int (n : Int)
  | float (x : Floating)
  | text (s : String)
  | bytes (b : List UInt8)
  | list (elements : List Term)
  | tuple (elements : List Term)
  | set (elements : List Term)
  | frozenSet (elements : List Term)
  | dict (entries : List (Term × Term))
  | named (name : String)
  /-- A chain of calls on the tree it is applied to, each on the result of the one before. -/
  | callable (calls : List (Method × List Term))
  /-- A tree of conditions, on the binder stored under a name or on a new one. -/
  | junction (conditions types connective : Option Term) (binder : Option String)
  | comparison (field value type operator : Option Term)
  | unary (symbol argument trailing : Option Term)
  | fragment (text : Option Term)
  | abstract
  | binder (identifier count : Option Term)
  | binding (fragment value type : Option Term)

end WhereClause
