import WhereClause.Conversion
import WhereClause.Text.Quoted
import WhereClause.Text.Upper

/-!
# Connectives

The word that joins the conditions of a tree, in capitals. One that is set on a tree as bytes is
kept as bytes, and is written in SQL the way bytes are shown.
-/

namespace WhereClause

inductive Connective
  | text (s : String)
  | bytes (b : List UInt8)
  deriving DecidableEq, Repr

namespace Connective

/-- The byte of the capital of an ASCII letter, and any other byte as it is. -/
def upperByte (b : UInt8) : UInt8 := if 97 ≤ b ∧ b ≤ 122 then b - 32 else b

def ofValue? : Value → Option Connective
  | .text s => some (text (Text.upper s))
  | .bytes b => some (bytes (b.map upperByte))
  | _ => none

def toValue : Connective → Value
  | text s => .text s
  | bytes b => .bytes b

def written : Connective → String
  | text s => s
  | bytes b => Text.quotedBytes b

end Connective
end WhereClause
