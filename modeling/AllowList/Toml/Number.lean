import AllowList.Numeric.Decimal
import AllowList.Text.Hex
import AllowList.Text.Rows
import AllowList.Toml.Value

/-!
# Numbers as TOML reads them

Underscores may stand between the digits of a number. A whole number begins
with a zero only if that is its only digit, or names its base, sixteen, eight
or two, by a zero and a letter. Any other number has a point, a power of ten or
both, or is spelled out as infinite or no number. Reading sets no limit to what
a number may be.
-/

namespace AllowList.Toml

/-- The digits of a number without the underscores between them. -/
def digits? (isDigit : Char → Bool) (chars : List Char) : Option (List Char) :=
  let groups := Text.pieces '_' chars
  if groups.all fun group => !group.isEmpty && group.all isDigit then some groups.flatten else none

/-- Whether a number lies below zero, and what stands behind its sign. -/
def signed : List Char → Bool × List Char
  | '-' :: rest => (true, rest)
  | '+' :: rest => (false, rest)
  | chars => (false, chars)

/-- The digits of a whole number in base ten. -/
def wholeDigits? (chars : List Char) : Option (List Char) :=
  match digits? Numeric.isDigit chars with
  | none => none
  | some digits => if digits.head? = some '0' ∧ digits.length ≠ 1 then none else some digits

/-- The base that a whole number names, and what stands behind it. -/
def based? : List Char → Option (Nat × List Char)
  | '0' :: 'x' :: rest => some (16, rest)
  | '0' :: 'o' :: rest => some (8, rest)
  | '0' :: 'b' :: rest => some (2, rest)
  | _ => none

/-- The number that digits of a base stand for. -/
def valueIn (base : Nat) (digits : List Char) : Nat :=
  digits.foldl (fun value c => base * value + (Text.hexValue? c).getD 0) 0

/-- A whole number. -/
def integer? (chars : List Char) : Option Int :=
  match based? chars with
  | some (base, rest) =>
    (digits? (fun c => (Text.hexValue? c).any (· < base)) rest).map fun digits =>
      (valueIn base digits : Int)
  | none =>
    let (negative, rest) := signed chars
    (wholeDigits? rest).map fun digits =>
      let value := (Numeric.valueOf digits : Int)
      if negative then -value else value

/-- Whether a character stands in front of a power of ten. -/
def isPowerMark (c : Char) : Bool :=
  c = 'e' || c = 'E'

/-- The power of ten of a number, given with its mark. -/
def power? : List Char → Option Int
  | [] => some 0
  | _ :: rest =>
    let (negative, rest) := signed rest
    (digits? Numeric.isDigit rest).map fun digits =>
      let value := (Numeric.valueOf digits : Int)
      if negative then -value else value

/-- The digits behind the point, given with the point. -/
def fraction? : List Char → Option (List Char)
  | [] => some []
  | _ :: rest => digits? Numeric.isDigit rest

/-- A number with a point or a power of ten, infinite or no number at all. -/
def real? (chars : List Char) : Option Real :=
  let (negative, rest) := signed chars
  if rest = "inf".toList ∨ rest = "nan".toList then some .special
  else
    let mantissa := rest.takeWhile fun c => !isPowerMark c
    let power := rest.drop mantissa.length
    let whole := mantissa.takeWhile (· ≠ '.')
    let fraction := mantissa.drop whole.length
    if fraction.isEmpty && power.isEmpty then none
    else
      match wholeDigits? whole, fraction? fraction, power? power with
      | some whole, some fraction, some power =>
        some (.decimal negative (Numeric.valueOf (whole ++ fraction)) (power - fraction.length))
      | _, _, _ => none

end AllowList.Toml
