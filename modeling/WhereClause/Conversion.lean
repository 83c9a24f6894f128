import WhereClause.Fault
import WhereClause.Value
import WhereClause.WrittenInteger

/-!
# Lenient texts, integers and truth values

A field may be given as another value that stands for what it needs without doubt: a text as its
UTF-8 bytes; a count as a truth value, a whole floating-point number or a written integer; a flag as
zero, one or a word.
-/

namespace WhereClause
namespace Value

def decoded? (b : List UInt8) : Option String := String.fromUTF8? ⟨b.toArray⟩

def toText : Value → Except Reason String
  | text s => .ok s
  | bytes b =>
    match decoded? b with
    | some s => .ok s
    | none => .error .badEncoding
  | _ => .error .notText

def toType : Value → Except Reason (Option String)
  | null => .ok none
  | v => v.toText.map some

/-- The bound, `2 ^ 63`, on the magnitude of a number that is taken for one of another kind. -/
def wordBound : Int := 9223372036854775808

def toInteger (v : Value) : Except Reason Int :=
  match v with
  | int n => .ok n
  | bool b => .ok (if b then 1 else 0)
  | float x =>
    match x.toInt? with
    | some n => if -wordBound < n && n < wordBound then .ok n else .error .oversized
    | none => .error (if x.isFinite then .fractional else .infinite)
  | text _ | bytes _ =>
    match v.toText with
    | .ok s => WrittenInteger.ofText s
    | .error _ => .error .badInteger
  | _ => .error .notInteger

def readBool? (s : String) : Option Bool :=
  let word := String.ofList (s.toList.map Char.toLower)
  if ["1", "on", "t", "true", "y", "yes"].contains word then some true
  else if ["0", "off", "f", "false", "n", "no"].contains word then some false
  else none

def boolOfInt (n : Int) : Except Reason Bool :=
  if n = 0 then .ok false else if n = 1 then .ok true else .error .badBoolean

def toBoolean (v : Value) : Except Reason Bool :=
  match v with
  | bool b => .ok b
  | int n => if -wordBound ≤ n && n < wordBound then boolOfInt n else .error .notBoolean
  | float x =>
    match x.toInt? with
    | some n => if -wordBound < n && n < wordBound then boolOfInt n else .error .notBoolean
    | none => .error .notBoolean
  | text _ | bytes _ =>
    match v.toText.toOption.bind readBool? with
    | some b => .ok b
    | none => .error .badBoolean
  | _ => .error .notBoolean

end Value

def issue? {α : Type} (field : String) : Except Reason α → Option Issue
  | .ok _ => none
  | .error reason => some ⟨field, reason⟩

def Value.givenText : Option Value → Except Reason String
  | none => .error .missing
  | some v => v.toText

end WhereClause
