import AllowList.Numeric.Decimal
import AllowList.Numeric.Power

/-!
# Binary floating-point numbers of 64 bits

A finite number is a sign and `mantissa · 2 ^ exponent`. The mantissa has at
most 53 bits, the exponent is at least −1074 and at most 971, and the mantissa
has all its 53 bits unless the exponent is the least one, so that each number
has one form. Zero keeps its sign.

`ofDecimal?` is the number nearest to a decimal; of two equally near ones it is
the one with the even mantissa. A decimal beyond the largest number has none.
-/

namespace AllowList.Numeric

/-- A finite binary floating-point number. -/
structure Binary64 where
  /-- Whether the number lies below zero or is the negative zero. -/
  negative : Bool
  /-- The significant bits. -/
  mantissa : Nat
  /-- The power of two that the mantissa is multiplied by. -/
  exponent : Int
  deriving DecidableEq, Repr, Inhabited

namespace Binary64

/-- The least exponent. -/
def leastExponent : Int := -1074

/-- The greatest exponent. -/
def greatestExponent : Int := 971

/-- The zero of a sign. -/
def zero (negative : Bool) : Binary64 :=
  ⟨negative, 0, leastExponent⟩

/-- The whole number nearest to a quotient; of two equally near ones, the even
one. -/
def nearest (num den : Nat) : Nat :=
  let quotient := num / den
  let twice := 2 * (num % den)
  if twice < den then quotient
  else if den < twice then quotient + 1
  else quotient + quotient % 2

/-- A quotient divided by a power of two, as a quotient of whole numbers. -/
def scaled (num den : Nat) (exponent : Int) : Nat × Nat :=
  if 0 ≤ exponent then (num, den * twoTo exponent.toNat) else (num * twoTo (-exponent).toNat, den)

/-- The exponent at which a positive quotient has a mantissa of 53 bits, or the
least exponent if it is greater. -/
def exponentFor (num den : Nat) : Int :=
  let guess := (num.log2 : Int) - den.log2 - 53
  let (n, d) := scaled num den guess
  max leastExponent (if n / d < twoTo 53 then guess else guess + 1)

/-- The number nearest to a positive quotient, if it is not too large. -/
def ofRatio? (negative : Bool) (num den : Nat) : Option Binary64 :=
  let exponent := exponentFor num den
  let (n, d) := scaled num den exponent
  let mantissa := nearest n d
  let rounded : Binary64 :=
    if mantissa = twoTo 53 then ⟨negative, twoTo 52, exponent + 1⟩ else ⟨negative, mantissa, exponent⟩
  if greatestExponent < rounded.exponent then none else some rounded

/-- The number nearest to `digits · 10 ^ exponent`, if it is not too large. The
power of ten next above the decimal settles what is far out of range, so that
no great power is ever computed. -/
def ofDecimal? (negative : Bool) (digits : Nat) (exponent : Int) : Option Binary64 :=
  if digits = 0 then some (zero negative)
  else
    let above := ((decimal digits).length : Int) + exponent
    if 400 < above then none
    else if above < -400 then some (zero negative)
    else if 0 ≤ exponent then ofRatio? negative (digits * tenTo exponent.toNat) 1
    else ofRatio? negative digits (tenTo (-exponent).toNat)

end Binary64

end AllowList.Numeric
