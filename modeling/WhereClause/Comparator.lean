/-!
# Comparators

The comparisons for which a tree has a method of its own, each with its SQL operator.
-/

namespace WhereClause

inductive Comparator
  | equal | unequal | greater | less | atLeast | atMost | like | unlike | among | notAmong
  deriving DecidableEq, Repr

def Comparator.operator : Comparator → String
  | equal => "="
  | unequal => "!="
  | greater => ">"
  | less => "<"
  | atLeast => ">="
  | atMost => "<="
  | like => "LIKE"
  | unlike => "NOT LIKE"
  | among => "IN"
  | notAmong => "NOT IN"

end WhereClause
