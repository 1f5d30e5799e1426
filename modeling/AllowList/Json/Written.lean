import AllowList.Json.Value
import AllowList.Numeric.Shortest
import AllowList.Text.Hex

/-!
# Numbers and texts as JSON writes them

A whole number is written in base ten. Any other number is written with its
shortest digits: with a point and at least one digit behind it while the power
of its first digit lies between −5 and 15, and else as a numeral times a signed
power of ten, the numeral without a point when it has one digit.

A text stands between quotes; a quote, a backslash and the controls are
escaped, the common controls by a letter and the rest by their code point.
-/

namespace AllowList.Json

open Numeric (Binary64 Decimal decimal)

/-- A whole number. -/
def writtenInt (value : Int) : List Char :=
  if value < 0 then '-' :: decimal value.natAbs else decimal value.natAbs

/-- The digits of a number whose first digit has the given power of ten, with a
point between the units and the tenths. -/
def writtenPoint (digits : List Char) (power : Int) : List Char :=
  if power < 0 then
    ['0', '.'] ++ List.replicate (-power - 1).toNat '0' ++ digits
  else
    let whole := power.toNat + 1
    if digits.length ≤ whole then
      digits ++ List.replicate (whole - digits.length) '0' ++ ['.', '0']
    else
      digits.take whole ++ '.' :: digits.drop whole

/-- The digits of a number as a numeral with one digit before the point, times
a power of ten whose sign is always written. -/
def writtenPower (digits : List Char) (power : Int) : List Char :=
  let numeral := match digits with
    | first :: second :: more => first :: '.' :: second :: more
    | short => short
  let sign := if power < 0 then '-' else '+'
  numeral ++ 'e' :: sign :: decimal power.natAbs

/-- A floating-point number. -/
def writtenReal (value : Binary64) : List Char :=
  let shortest := value.shortest
  let digits := decimal shortest.digits
  let power := if shortest.digits = 0 then 0 else shortest.exponent + (digits.length - 1 : Nat)
  let unsigned :=
    if -5 ≤ power ∧ power < 16 then writtenPoint digits power else writtenPower digits power
  if value.negative then '-' :: unsigned else unsigned

/-- A number. -/
def Number.written : Json.Number → List Char
  | .int value => writtenInt value
  | .real value => writtenReal value

/-- The letter that stands for a character behind a backslash. -/
def escapeLetter? (c : Char) : Option Char :=
  if c = '"' then some '"'
  else if c = '\\' then some '\\'
  else if c = '\n' then some 'n'
  else if c = '\r' then some 'r'
  else if c = '\t' then some 't'
  else if c.toNat = 8 then some 'b'
  else if c.toNat = 12 then some 'f'
  else none

/-- A code unit of 16 bits as an escape. -/
def escapedUnit (unit : Nat) : List Char :=
  '\\' :: 'u' :: Text.hexPadded 4 unit

/-- A character of a text; those outside ASCII stay as they are. -/
def writtenChar (c : Char) : List Char :=
  match escapeLetter? c with
  | some letter => ['\\', letter]
  | none => if c.toNat < 32 then escapedUnit c.toNat else [c]

/-- The code units of 16 bits that a character takes: itself, or a pair of
surrogates. -/
def units (c : Char) : List Nat :=
  let code := c.toNat
  if code < 0x10000 then [code]
  else [0xD800 + (code - 0x10000) / 0x400, 0xDC00 + (code - 0x10000) % 0x400]

/-- A character of a text, in ASCII: any other is escaped by its code units. -/
def writtenAscii (c : Char) : List Char :=
  if c.toNat < 128 then writtenChar c else (units c).flatMap escapedUnit

/-- A text between quotes, given how each character is written. -/
def writtenText (write : Char → List Char) (text : String) : List Char :=
  '"' :: text.toList.flatMap write ++ ['"']

end AllowList.Json
