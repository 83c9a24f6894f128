import WhereClause.Text.Printable

/-!
# Quoted text

How a text or a byte string shows inside a list, a tuple or a table: between single quotes, or
between double quotes if it holds a single quote and no double one. Backslashes, the quote in use
and everything unprintable are escaped.
-/

namespace WhereClause.Text

def hexDigits : Nat → Nat → List Char
  | 0, _ => []
  | width + 1, n => hexDigits width (n / 16) ++ [Nat.digitChar (n % 16)]

/-- The quote that needs the fewest escapes, the single one if in doubt. -/
def quoteFor (s : List Char) : Char :=
  if s.contains '\'' && !s.contains '"' then '"' else '\''

def shortEscape? (quote c : Char) : Option (List Char) :=
  if c == quote || c == '\\' then some ['\\', c]
  else if c == '\n' then some ['\\', 'n']
  else if c == '\r' then some ['\\', 'r']
  else if c == '\t' then some ['\\', 't']
  else none

def escapeChar (quote c : Char) : List Char :=
  match shortEscape? quote c with
  | some escaped => escaped
  | none =>
    if isPrintable c then [c]
    else if c.toNat < 0x100 then ['\\', 'x'] ++ hexDigits 2 c.toNat
    else if c.toNat < 0x10000 then ['\\', 'u'] ++ hexDigits 4 c.toNat
    else ['\\', 'U'] ++ hexDigits 8 c.toNat

def quoted (s : String) : String :=
  let quote := quoteFor s.toList
  String.ofList (quote :: s.toList.flatMap (escapeChar quote) ++ [quote])

/-- A byte as a quoted byte string shows it: only printable ASCII shows as itself. -/
def escapeByte (quote : Char) (b : UInt8) : List Char :=
  match shortEscape? quote (Char.ofNat b.toNat) with
  | some escaped => escaped
  | none =>
    if 32 ≤ b.toNat && b.toNat < 127 then [Char.ofNat b.toNat]
    else ['\\', 'x'] ++ hexDigits 2 b.toNat

def quotedBytes (bytes : List UInt8) : String :=
  let quote := quoteFor (bytes.map fun b => Char.ofNat b.toNat)
  String.ofList ('b' :: quote :: bytes.flatMap (escapeByte quote) ++ [quote])

end WhereClause.Text
