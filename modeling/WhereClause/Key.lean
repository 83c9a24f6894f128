import WhereClause.Text.Blank
import WhereClause.Value

/-!
# Keys

The key of an entry says what the entry is. `AND`, `OR`, `XOR` and `NOT` in any letter case are
keywords; any other key that is no number holds a field and an operator.

* `split_field_ne_space`: the field of a key holds no space.
-/

namespace WhereClause

structure Key where
  field : String
  operator : String
  deriving DecidableEq, Repr

namespace Key

def defaultOperator : String := "="

def splitChars (s : List Char) : Key :=
  ⟨String.ofList (s.takeWhile (· ≠ ' ')),
    match s.dropWhile (· ≠ ' ') with
    | [] => defaultOperator
    | _ :: operator => String.ofList operator⟩

def split (key : String) : Key := splitChars (Text.trimChars key.toList)

def capitals (s : String) : String := String.ofList (s.toList.map Char.toUpper)

def connective? (key : String) : Option String :=
  let word := capitals key
  if word = "AND" ∨ word = "OR" ∨ word = "XOR" then some word else none

def isNegation (key : String) : Bool := capitals key == "NOT"

def isMembership (key : Key) : Bool :=
  let operator := capitals (Text.trim key.operator)
  operator == "IN" || operator == "NOT IN"

theorem split_field_ne_space (key : String) : ' ' ∉ (split key).field.toList := by
  intro member
  simp only [split, splitChars, String.toList_ofList] at member
  have := List.all_eq_true.mp (List.all_takeWhile (p := (· ≠ ' '))
    (l := Text.trimChars key.toList)) _ member
  simp at this

end Key
end WhereClause
