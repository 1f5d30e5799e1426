/-!
# Hexadecimal digits

Escapes name a code point by hexadecimal digits in lower case. `hexDigits`
writes a number in as few as it takes, `hexPadded` in a given count, and
`hexValue?` reads one digit back, in either case.
-/

namespace AllowList.Text

/-- The hexadecimal digit of a number below sixteen. -/
def hexDigit (n : Nat) : Char :=
  if n < 10 then Char.ofNat (48 + n) else Char.ofNat (87 + n)

/-- The lowest `count` hexadecimal digits of a number, highest first. -/
def hexPadded : Nat → Nat → List Char
  | 0, _ => []
  | count + 1, n => hexPadded count (n / 16) ++ [hexDigit (n % 16)]

/-- How many hexadecimal digits a number takes; zero takes one. -/
def hexWidth (n : Nat) : Nat :=
  if n < 16 then 1 else hexWidth (n / 16) + 1
termination_by n

/-- The hexadecimal digits of a number, without leading zeros. -/
def hexDigits (n : Nat) : List Char :=
  hexPadded (hexWidth n) n

/-- The value of a hexadecimal digit, in upper or lower case. -/
def hexValue? (c : Char) : Option Nat :=
  if 48 ≤ c.toNat ∧ c.toNat ≤ 57 then some (c.toNat - 48)
  else if 97 ≤ c.toNat ∧ c.toNat ≤ 102 then some (c.toNat - 87)
  else if 65 ≤ c.toNat ∧ c.toNat ≤ 70 then some (c.toNat - 55)
  else none

end AllowList.Text
