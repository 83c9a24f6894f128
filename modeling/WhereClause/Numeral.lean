import WhereClause.Text.Blank
import WhereClause.Text.Number

/-!
# Numerals

A text is a numeral if it is a decimal number with optional sign, fraction and exponent, with any
blanks around it. A key or token written as a numeral names no field: it is a position.
-/

namespace WhereClause.Numeral
open Text

def afterSign : List Char → List Char
  | [] => []
  | c :: rest => if c == '+' || c == '-' then rest else c :: rest

/-- The text after digits with an optional fraction, or a fraction alone. At least one digit
stands on one side of the point. -/
def afterMantissa? (s : List Char) : Option (List Char) :=
  let whole := s.takeWhile isDigit
  match s.dropWhile isDigit with
  | '.' :: rest =>
    if whole.isEmpty && (rest.takeWhile isDigit).isEmpty then none
    else some (rest.dropWhile isDigit)
  | rest => if whole.isEmpty then none else some rest

def afterExponent : List Char → List Char
  | [] => []
  | c :: rest =>
    if (c == 'e' || c == 'E') && !((afterSign rest).takeWhile isDigit).isEmpty then
      (afterSign rest).dropWhile isDigit
    else c :: rest

def matchesChars (s : List Char) : Bool :=
  match afterMantissa? (afterSign (s.dropWhile isBlank)) with
  | some rest => (afterExponent rest).all isBlank
  | none => false

end WhereClause.Numeral

namespace WhereClause

def isNumeral (s : String) : Bool := Numeral.matchesChars s.toList

end WhereClause
