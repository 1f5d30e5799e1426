/-!
# Decimal numerals

`decimal` writes a natural number in base ten without leading zeros, and
`valueOf` reads a run of digits. Reading what was written gives the number
back, and what is written begins with a zero only when it is the number zero.
-/

namespace AllowList.Numeric

/-- Whether a character is a decimal digit. -/
def isDigit (c : Char) : Bool :=
  48 ≤ c.toNat && c.toNat ≤ 57

/-- The character for a digit below ten. -/
def digitChar (d : Nat) : Char :=
  Char.ofNat (48 + d)

/-- The decimal digits of a number, highest first. -/
def decimal (n : Nat) : List Char :=
  if n < 10 then [digitChar n] else decimal (n / 10) ++ [digitChar (n % 10)]
termination_by n

/-- The number that a run of digits stands for; no digits stand for zero. -/
def valueOf (digits : List Char) : Nat :=
  digits.foldl (fun value c => 10 * value + (c.toNat - 48)) 0

theorem toNat_digitChar {d : Nat} (small : d < 10) : (digitChar d).toNat = 48 + d := by
  have cases : d = 0 ∨ d = 1 ∨ d = 2 ∨ d = 3 ∨ d = 4 ∨ d = 5 ∨ d = 6 ∨ d = 7 ∨ d = 8 ∨ d = 9 := by
    omega
  rcases cases with rfl | rfl | rfl | rfl | rfl | rfl | rfl | rfl | rfl | rfl <;> rfl

/-- A numeral is made of digits. -/
theorem isDigit_of_mem_decimal {n : Nat} {c : Char} (inside : c ∈ decimal n) :
    isDigit c = true := by
  rw [decimal] at inside
  split at inside
  · rename_i small
    simp only [List.mem_singleton] at inside
    subst inside
    simp [isDigit, toNat_digitChar small]
    omega
  · simp only [List.mem_append, List.mem_singleton] at inside
    rcases inside with front | rfl
    · exact isDigit_of_mem_decimal front
    · have small : n % 10 < 10 := Nat.mod_lt n (by decide)
      simp [isDigit, toNat_digitChar small]
      omega
termination_by n

/-- Every number has a digit. -/
theorem decimal_ne_nil (n : Nat) : decimal n ≠ [] := by
  rw [decimal]
  split <;> simp

/-- Reading a numeral gives the number it was written for. -/
@[simp] theorem valueOf_decimal (n : Nat) : valueOf (decimal n) = n := by
  rw [decimal]
  split
  · rename_i small
    simp [valueOf, toNat_digitChar small]
  · have shorter := valueOf_decimal (n / 10)
    have small : n % 10 < 10 := Nat.mod_lt n (by decide)
    simp only [valueOf, List.foldl_append, List.foldl_cons, List.foldl_nil] at shorter ⊢
    rw [shorter, toNat_digitChar small]
    omega
termination_by n

end AllowList.Numeric
