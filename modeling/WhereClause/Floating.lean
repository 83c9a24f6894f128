/-!
# Floating-point numbers

A finite floating-point number is held as the shortest decimal that reads back as it, with no zero
at the end of its coefficient. Numbers are only stored, tested and shown, never computed with.

The text of a number has a point or an exponent. Positional notation is used for magnitudes from
`10 ^ (-4)` up to, but not including, `10 ^ 16`.

* `nearest_of_lt`: a whole number of at most 53 binary digits is its own nearest.
-/

namespace WhereClause

inductive Floating
  /-- The number `coefficient * 10 ^ exponent`, negated if `negative`. Zero has a sign too. -/
  | finite (negative : Bool) (coefficient : Nat) (exponent : Int)
  | infinite (negative : Bool)
  | nan
  deriving DecidableEq, Repr

namespace Floating

def isZero : Floating → Bool
  | finite _ coefficient _ => coefficient == 0
  | _ => false

def isFinite : Floating → Bool
  | finite .. => true
  | _ => false

def precision : Nat := 53

/-- The whole number nearest to `n` among those of this precision; of two equally near, the one with
the even last digit. -/
def nearest (n : Nat) : Nat :=
  let unit := Nat.pow 2 (n.log2 + 1 - precision)
  let below := n / unit
  let rest := n % unit
  if unit < 2 * rest || (2 * rest == unit && below % 2 == 1) then (below + 1) * unit
  else below * unit

/-- The number as an integer, if it is one. The shortest decimal that reads back as a large number
need not be equal to it, but it is nearest to it. -/
def toInt? : Floating → Option Int
  | finite negative coefficient exponent =>
    if coefficient = 0 then some 0
    else if exponent < 0 then none
    else
      let magnitude : Int := Int.ofNat (nearest (coefficient * Nat.pow 10 exponent.toNat))
      some (if negative then -magnitude else magnitude)
  | _ => none

def ofDigits (digits : List Char) : Nat :=
  digits.foldl (fun n c => 10 * n + (c.toNat - 48)) 0

/-- The finite number with these digits, the point standing after the last of them moved by
`exponent`. Zeros at the end go into the exponent. -/
def ofScientific (negative : Bool) (digits : List Char) (exponent : Int) : Floating :=
  let kept := (digits.reverse.dropWhile (· == '0')).reverse
  if kept.isEmpty then finite negative 0 0
  else finite negative (ofDigits kept) (exponent + (digits.length - kept.length : Nat))

def readExponent? : List Char → Option Int
  | [] => some 0
  | 'e' :: '-' :: digits => if digits.all Char.isDigit then some (-(ofDigits digits)) else none
  | 'e' :: '+' :: digits => if digits.all Char.isDigit then some (ofDigits digits) else none
  | 'e' :: digits => if digits.all Char.isDigit then some (ofDigits digits) else none
  | _ => none

def readMagnitude? (negative : Bool) (s : List Char) : Option Floating :=
  if s = "inf".toList then some (infinite negative)
  else if s = "nan".toList then some nan
  else
    let whole := s.takeWhile Char.isDigit
    match s.dropWhile Char.isDigit with
    | '.' :: rest =>
      let fraction := rest.takeWhile Char.isDigit
      (readExponent? (rest.dropWhile Char.isDigit)).map fun exponent =>
        ofScientific negative (whole ++ fraction) (exponent - fraction.length)
    | rest => (readExponent? rest).map (ofScientific negative whole)

def ofText? (s : String) : Option Floating :=
  match s.toList with
  | '-' :: rest => readMagnitude? true rest
  | rest => readMagnitude? false rest

def exponentText (exponent : Int) : String :=
  let digits := toString exponent.natAbs
  (if exponent < 0 then "e-" else "e+") ++ (if digits.length < 2 then "0" ++ digits else digits)

/-- The digits with a point after the first `point` of them; zeros fill the places between the
digits and the point, and one digit stands on either side. -/
def positionalText (digits : List Char) (point : Int) : String :=
  if point ≤ 0 then
    "0." ++ String.ofList (List.replicate (-point).toNat '0' ++ digits)
  else if digits.length ≤ point.toNat then
    String.ofList (digits ++ List.replicate (point.toNat - digits.length) '0') ++ ".0"
  else
    String.ofList (digits.take point.toNat) ++ "." ++ String.ofList (digits.drop point.toNat)

/-- The digits with a point after the first, and the exponent that makes up for it. -/
def scientificText (digits : List Char) (exponent : Int) : String :=
  match digits with
  | [] => ""
  | [d] => String.ofList [d] ++ exponentText exponent
  | d :: rest => String.ofList (d :: '.' :: rest) ++ exponentText exponent

def text : Floating → String
  | nan => "nan"
  | infinite negative => if negative then "-inf" else "inf"
  | finite negative coefficient exponent =>
    let digits := (toString coefficient).toList
    let point : Int := digits.length + exponent
    (if negative then "-" else "") ++
      if -4 < point && point ≤ 16 then positionalText digits point
      else scientificText digits (point - 1)

theorem nearest_of_lt {n : Nat} (small : n < Nat.pow 2 precision) : nearest n = n := by
  have short : n.log2 + 1 - precision = 0 := by
    by_cases zero : n = 0
    · simp [zero, precision]
    · have := (Nat.log2_lt zero).mpr small
      omega
  simp [nearest, short, Nat.mod_one]

end Floating
end WhereClause
