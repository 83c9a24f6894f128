import WhereClause.Fault
import WhereClause.Floating
import WhereClause.Text.Blank

/-!
# Written integers

An integer is written with decimal digits after an optional sign. Blanks may stand around it, zeros
in front of its digits, single underscores between them, and a fraction of zeros behind them.
Reading takes these away one after another, and bare digits have to be left.

* `withoutFraction_of_not_mem`, `ungrouped_of_not_mem`: what has no point has no fraction to lose,
  and what has no underscore stays as it is.
-/

namespace WhereClause.WrittenInteger

/-- A blank that may stand around an integer: any but the four controls that separate units of
data. -/
def isPadding (c : Char) : Bool := Text.isBlank c && !(0x1C ≤ c.toNat && c.toNat ≤ 0x1F)

def unpadded (s : List Char) : List Char :=
  ((s.dropWhile isPadding).reverse.dropWhile isPadding).reverse

/-- Whether a minus sign stands in front, and the text after a sign of either kind. -/
def signed : List Char → Bool × List Char
  | '-' :: rest => (true, rest)
  | '+' :: rest => (false, rest)
  | s => (false, s)

/-- What follows a row of zeros and underscores that ends with `last`: other digits, or nothing but
a fraction. In the second case `last` stands for the number. -/
def afterZeros? (last : Char) : List Char → Option (List Char)
  | [] => some [last]
  | c :: rest =>
    if c == '0' || c == '_' then afterZeros? c rest
    else if c.isDigit then some (c :: rest)
    else if c == '.' then some (last :: c :: rest)
    else none

def withoutZeros? : List Char → Option (List Char)
  | [] => none
  | c :: rest =>
    if c == '0' then afterZeros? c rest
    else if c.isDigit then some (c :: rest)
    else none

/-- The text before the first point, if zeros and nothing else follow the point. -/
def withoutFraction (s : List Char) : List Char :=
  let fraction := (s.dropWhile (· != '.')).drop 1
  if !fraction.isEmpty && fraction.all (· == '0') then s.takeWhile (· != '.') else s

/-- Whether underscores stand singly and the text does not end with one. The flag says whether one
may come next. -/
def standSingly : Bool → List Char → Bool
  | allowed, [] => allowed
  | allowed, c :: rest =>
    if c == '_' then allowed && standSingly false rest else standSingly true rest

/-- The text without its underscores, if they stand singly and inside it. -/
def ungrouped (s : List Char) : List Char :=
  if standSingly false s then s.filter (· != '_') else s

def maxLength : Nat := 4300

def ofBare (negative : Bool) (s : List Char) : Except Reason Int :=
  let digits := s.takeWhile Char.isDigit
  if digits.head? == some '0' then
    if s.length = 1 then .ok 0 else .error .badInteger
  else if maxLength < digits.length + (if negative then 1 else 0) then .error .oversized
  else if digits.isEmpty || digits.length < s.length then .error .badInteger
  else
    let magnitude : Int := Int.ofNat (Floating.ofDigits digits)
    .ok (if negative then -magnitude else magnitude)

def ofText (s : String) : Except Reason Int :=
  let (negative, magnitude) := signed (unpadded s.toList)
  match withoutZeros? magnitude with
  | some rest => ofBare negative (ungrouped (withoutFraction rest))
  | none => .error .badInteger

theorem withoutFraction_of_not_mem {s : List Char} (plain : '.' ∉ s) : withoutFraction s = s := by
  have none_left : s.dropWhile (· != '.') = [] := by
    apply Text.dropWhile_eq_nil_of_all.mpr
    intro c member
    have : c ≠ '.' := fun h => plain (h ▸ member)
    simpa using this
  simp [withoutFraction, none_left]

theorem ungrouped_of_not_mem {s : List Char} (plain : '_' ∉ s) : ungrouped s = s := by
  have kept : s.filter (· != '_') = s := by
    apply List.filter_eq_self.mpr
    intro c member
    have : c ≠ '_' := fun h => plain (h ▸ member)
    simpa using this
  simp [ungrouped, kept]

end WhereClause.WrittenInteger
