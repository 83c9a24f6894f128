/-!
# Faults

Why an operation fails, one constructor per cause. A fault that a caller can name has a message;
the others are misuse of a value, and only their kind is told.
-/

namespace WhereClause

inductive Reason
  | missing | notText | badEncoding | tooShort | badPattern | notInteger | badInteger | oversized
  | fractional | infinite | notBoolean | badBoolean | notBinder | unknownField
  deriving DecidableEq, Repr

structure Issue where
  field : String
  reason : Reason
  deriving DecidableEq, Repr

/-- Why an operation fails. -/
inductive Fault
  | blankOperator (field : String)
  | missingSymbol
  | missingArgument
  | abstractNode
  | frozen (identifier : String)
  | invalid (issues : List Issue)
  /-- A value is of the wrong type for what is done with it, or has the wrong number of
  arguments. -/
  | wrongType
  | noAttribute
  | outOfRange
  | unknownName
  | tooDeep
  deriving DecidableEq, Repr

def Fault.message? : Fault → Option String
  | blankOperator field => some ("Comparison on `" ++ field ++ "` must have an operator")
  | missingSymbol => some "UnaryOperatorExpression must have a symbol"
  | missingArgument => some "UnaryOperatorExpression must have an argument"
  | abstractNode => some "Subclasses must implement `sql` property"
  | frozen identifier =>
    some ("QueryExpression " ++ identifier ++ " is already compiled and cannot be modified")
  | _ => none

end WhereClause
