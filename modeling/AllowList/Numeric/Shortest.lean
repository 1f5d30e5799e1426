import AllowList.Numeric.Binary64
import AllowList.Numeric.Decimal

/-!
# The shortest decimal of a binary number

A binary number is written with the fewest decimal digits that read back as
the same number. The decimals that do so are those in its rounding interval,
whose ends lie half way to the neighbouring numbers and belong to it when the
mantissa is even. For one digit, two digits and so on up to seventeen, the two
decimals next to the number are tried; the first count with a hit is taken,
and of two hits the nearer.
-/

namespace AllowList.Numeric

/-- A decimal number: `digits · 10 ^ exponent`. -/
structure Decimal where
  digits : Nat
  exponent : Int
  deriving DecidableEq, Repr, Inhabited

namespace Decimal

/-- The decimal `digits · 10 ^ exponent` without zeros at the end of its digits. -/
def stripped (digits : Nat) (exponent : Int) : Decimal :=
  if digits = 0 ∨ digits % 10 ≠ 0 then ⟨digits, exponent⟩
  else stripped (digits / 10) (exponent + 1)
termination_by digits

end Decimal

namespace Binary64

/-- A quarter of the unit of a number's mantissa, in steps of `10 ^ exponent`,
as a quotient of whole numbers. -/
def quarterStep (number : Binary64) (exponent : Int) : Nat × Nat :=
  let binary := number.exponent - 2
  (twoTo binary.toNat * tenTo (-exponent).toNat, twoTo (-binary).toNat * tenTo exponent.toNat)

/-- The quarters of a mantissa's unit at which the rounding interval begins:
half a unit below, or a quarter where the numbers below lie twice as close. -/
def lowEnd (number : Binary64) : Nat :=
  if number.mantissa = twoTo 52 ∧ leastExponent < number.exponent then 4 * number.mantissa - 1
  else 4 * number.mantissa - 2

/-- The quarters of a mantissa's unit at which the rounding interval ends. -/
def highEnd (number : Binary64) : Nat :=
  4 * number.mantissa + 2

/-- Whether `digits · 10 ^ exponent` reads back as the number. -/
def readsBack (number : Binary64) (digits : Nat) (exponent : Int) : Bool :=
  let (n, d) := number.quarterStep exponent
  if number.mantissa % 2 = 0 then
    number.lowEnd * n ≤ digits * d && digits * d ≤ number.highEnd * n
  else
    number.lowEnd * n < digits * d && digits * d < number.highEnd * n

/-- The decimal next to the number, on the grid of a power of ten, that reads
back as the number; of two, the nearer. -/
def onGrid? (number : Binary64) (exponent : Int) : Option Decimal :=
  let (n, d) := number.quarterStep exponent
  let value := 4 * number.mantissa * n
  let below := value / d
  match number.readsBack below exponent, number.readsBack (below + 1) exponent with
  | true, true =>
    let twice := 2 * (value % d)
    if twice < d ∨ (twice = d ∧ below % 2 = 0) then some ⟨below, exponent⟩
    else some ⟨below + 1, exponent⟩
  | true, false => some ⟨below, exponent⟩
  | false, true => some ⟨below + 1, exponent⟩
  | false, false => none

/-- The power of ten of a positive number's first digit. -/
def leadingPower (number : Binary64) : Int :=
  let (n, d) := scaled (number.mantissa * tenTo 400) 1 (-number.exponent)
  ((decimal (n / d)).length : Int) - 401

/-- The shortest decimal that reads back as the number, its sign left out. -/
def shortest (number : Binary64) : Decimal :=
  if number.mantissa = 0 then ⟨0, 0⟩
  else
    let power := number.leadingPower
    let tried := (List.range 17).findSome? fun more => number.onGrid? (power - (more : Nat))
    match tried with
    | none => ⟨0, 0⟩
    | some decimal => .stripped decimal.digits decimal.exponent

end Binary64

end AllowList.Numeric
