import WhereClause.Text.Letter
import WhereClause.Text.Number

/-!
# Word characters

A placeholder written in SQL text ends where no word character follows. Combining marks are none.
-/

namespace WhereClause.Text

def isWordChar (c : Char) : Bool :=
  isLetter c || isDigit c || isLetterNumber c || isOtherNumber c || c == '_'

end WhereClause.Text
