import AllowList.Numeric.Binary64

/-!
# Products with powers of ten

A decimal can be turned into a binary number in few steps, none of them on great
whole numbers: its significand is rounded, and then multiplied or divided by a
rounded power of ten. Each step rounds, so that what comes out lies near the
decimal but need not be the number nearest to it.

Above `10 ^ 308` there is no power of ten. To divide by a greater one takes
several divisions; a product with one is too large.
-/

namespace AllowList.Numeric.Binary64

/-- A number as a quotient of whole numbers, its sign left out. -/
def ratio (number : Binary64) : Nat × Nat :=
  scaled number.mantissa 1 (-number.exponent)

/-- The product of two numbers, if it is not too large. -/
def times? (left right : Binary64) : Option Binary64 :=
  let negative := left.negative != right.negative
  let (num, den) := left.ratio
  let (num', den') := right.ratio
  if num * num' = 0 then some (zero negative) else ofRatio? negative (num * num') (den * den')

/-- The quotient of two numbers, the second of which is not zero, if it is not
too large. -/
def over? (left right : Binary64) : Option Binary64 :=
  let negative := left.negative != right.negative
  let (num, den) := left.ratio
  let (num', den') := right.ratio
  if num * den' = 0 then some (zero negative) else ofRatio? negative (num * den') (den * num')

/-- The number nearest to a whole number, if that is not too large. -/
def ofNat? (value : Nat) : Option Binary64 :=
  if value = 0 then some (zero false) else ofRatio? false value 1

/-- The greatest power of ten that is not too large. -/
def greatestPower : Nat := 308

/-- A number divided by a power of ten, step by step. Zero stays what it is. -/
def lowered? (number : Binary64) (power : Nat) : Option Binary64 :=
  if power ≤ greatestPower then do number.over? (← ofNat? (tenTo power))
  else if number.mantissa = 0 then some number
  else do
    let lower ← number.over? (← ofNat? (tenTo greatestPower))
    lower.lowered? (power - greatestPower)
termination_by power
decreasing_by
  unfold greatestPower at *
  omega

/-- A number multiplied by a power of ten, if the product is not too large. -/
def raised? (number : Binary64) (power : Nat) : Option Binary64 :=
  if power ≤ greatestPower then do number.times? (← ofNat? (tenTo power))
  else if number.mantissa = 0 then some number
  else none

/-- The number that `significand · 10 ^ power` comes to, if it is not too large. -/
def ofSignificand? (negative : Bool) (significand : Nat) (power : Int) : Option Binary64 := do
  let number ← ofNat? significand
  let number ← if 0 ≤ power then number.raised? power.toNat else number.lowered? (-power).toNat
  some { number with negative := negative }

end AllowList.Numeric.Binary64
