import AllowList.Json.Escape
import AllowList.Json.Value
import AllowList.Numeric.Significand

/-!
# Numbers as JSON reads them

A number is digits, which begin with a zero only if that is the only digit,
then perhaps a point and digits, then perhaps a power of ten; a minus sign may
stand in front. Without point and power it stays a whole number as far as 64
bits hold it.

Any other number becomes a binary floating-point number, through a significand
of 64 bits: digits are taken into it while they fit, those in front of the point
that do not fit count as zeros, and those behind it are passed over. The
significand is then multiplied or divided by a power of ten, with a rounding at
each step, so that the last bits may differ from those of the nearest binary
number. What becomes too large on the way is refused.
-/

namespace AllowList.Json

/-- Digits, at least one. -/
def readDigits (chars : List Char) : Step (List Char) :=
  let digits := chars.takeWhile Numeric.isDigit
  if digits.isEmpty then .error (faultAt chars)
  else .ok (digits, chars.dropWhile Numeric.isDigit)

/-- The digits of a number in front of its point. A zero stands alone. -/
def readWhole (chars : List Char) : Step (List Char) :=
  match readDigits chars with
  | .error fault => .error fault
  | .ok (digits, rest) =>
    if digits.head? = some '0' ∧ digits.length ≠ 1 then .error .malformed else .ok (digits, rest)

/-- The digits of a number behind its point, if it has one. -/
def readFraction : List Char → Step (Option (List Char))
  | '.' :: rest => (readDigits rest).map fun read => (some read.1, read.2)
  | chars => .ok (none, chars)

/-- The power of ten that a number is multiplied by, if it gives one. -/
def readPower : List Char → Step (Option Int)
  | [] => .ok (none, [])
  | c :: rest =>
    if c = 'e' ∨ c = 'E' then
      let negative := rest.head? = some '-'
      let digits := if negative ∨ rest.head? = some '+' then rest.tail else rest
      (readDigits digits).map fun read =>
        let power := (Numeric.valueOf read.1 : Int)
        (some (if negative then -power else power), read.2)
    else .ok (none, c :: rest)

/-- A whole number that a 64-bit integer holds, unsigned or below zero. The
negative zero is none. -/
def wholeNumber? (negative : Bool) (value : Nat) : Option Int :=
  if negative then
    if 0 < value ∧ value ≤ Numeric.twoTo 63 then some (-(value : Int)) else none
  else if value < Numeric.wordCount then some value
  else none

/-- Takes digits into a number as long as 64 bits hold it. The digits that are
left come with it. -/
def gather (value : Nat) : List Char → Nat × List Char
  | [] => (value, [])
  | c :: rest =>
    let next := 10 * value + (c.toNat - 48)
    if next < Numeric.wordCount then gather next rest else (value, c :: rest)

/-- The binary number of a sign, the digits before and behind the point, and a
power of ten. Behind the point digits may be taken although one before it was
not. -/
def realOf? (negative : Bool) (whole fraction : List Char) (power : Int) :
    Option Numeric.Binary64 :=
  let (front, dropped) := gather 0 whole
  let (significand, ignored) := gather front fraction
  let taken := fraction.length - ignored.length
  Numeric.Binary64.ofSignificand? negative significand (dropped.length - taken + power)

/-- The number of a sign, the digits before and behind the point, and a power
of ten. -/
def numberOf? (negative : Bool) (whole : List Char) (fraction : Option (List Char))
    (power : Option Int) : Option Json.Number :=
  let exact : Option Int :=
    if fraction.isNone ∧ power.isNone then wholeNumber? negative (Numeric.valueOf whole) else none
  match exact with
  | some value => some (.int value)
  | none => (realOf? negative whole (fraction.getD []) (power.getD 0)).map .real

/-- A number, its sign read already. One that is too large is malformed. -/
def readNumber (negative : Bool) (chars : List Char) : Except Fault (Json × List Char) := do
  let (whole, rest) ← readWhole chars
  let (fraction, rest) ← readFraction rest
  let (power, rest) ← readPower rest
  match numberOf? negative whole fraction power with
  | some number => .ok (.num number, rest)
  | none => .error .malformed

/-- Behind digits there are fewer characters than they began with. -/
theorem length_of_readDigits {chars rest digits : List Char}
    (read : readDigits chars = .ok (digits, rest)) : rest.length < chars.length := by
  unfold readDigits at read
  simp only at read
  split at read
  · simp at read
  · rename_i found
    simp only [Except.ok.injEq, Prod.mk.injEq] at read
    have parts : (chars.takeWhile Numeric.isDigit).length + (chars.dropWhile Numeric.isDigit).length
        = chars.length := by
      rw [← List.length_append, List.takeWhile_append_dropWhile]
    have nonempty : 0 < (chars.takeWhile Numeric.isDigit).length := by
      rw [List.length_pos_iff]
      simpa using found
    rw [← read.2]
    omega

theorem length_of_readFraction {chars rest : List Char} {digits : Option (List Char)}
    (read : readFraction chars = .ok (digits, rest)) : rest.length ≤ chars.length := by
  unfold readFraction at read
  split at read
  · rename_i behind
    match digitsRead : readDigits behind with
    | .error _ => simp [digitsRead, Except.map] at read
    | .ok (found, after) =>
      simp only [digitsRead, Except.map, Except.ok.injEq, Prod.mk.injEq] at read
      have := length_of_readDigits digitsRead
      rw [← read.2, List.length_cons]
      omega
  · simp only [Except.ok.injEq, Prod.mk.injEq] at read
    simp [read.2]

theorem length_of_readPower {chars rest : List Char} {power : Option Int}
    (read : readPower chars = .ok (power, rest)) : rest.length ≤ chars.length := by
  unfold readPower at read
  split at read
  · simp only [Except.ok.injEq, Prod.mk.injEq] at read
    simp [← read.2]
  · rename_i c behind
    simp only at read
    split at read
    · generalize signed : (if behind.head? = some '-' ∨ behind.head? = some '+' then behind.tail
        else behind) = digits at read
      have fewer : digits.length ≤ behind.length := by
        rw [← signed]
        split <;> simp
      cases digitsRead : readDigits digits with
      | error _ => simp [digitsRead, Except.map] at read
      | ok found =>
        simp only [digitsRead, Except.map, Except.ok.injEq, Prod.mk.injEq] at read
        have shorter : found.2.length < digits.length := length_of_readDigits digitsRead
        rw [← read.2, List.length_cons]
        omega
    · simp only [Except.ok.injEq, Prod.mk.injEq] at read
      simp [← read.2]

/-- Behind a number there are fewer characters than it began with. -/
theorem length_of_readNumber {negative : Bool} {chars rest : List Char} {value : Json}
    (read : readNumber negative chars = .ok (value, rest)) : rest.length < chars.length := by
  unfold readNumber at read
  simp only [bind, Except.bind] at read
  split at read
  · simp at read
  · rename_i whole wholeRead
    split at read
    · simp at read
    · rename_i fraction fractionRead
      split at read
      · simp at read
      · rename_i power powerRead
        split at read
        · simp only [Except.ok.injEq, Prod.mk.injEq] at read
          have first : whole.2.length < chars.length := by
            unfold readWhole at wholeRead
            split at wholeRead
            · simp at wholeRead
            · rename_i digitsRead
              split at wholeRead
              · simp at wholeRead
              · simp only [Except.ok.injEq] at wholeRead
                rw [← wholeRead]
                exact length_of_readDigits digitsRead
          have second := length_of_readFraction fractionRead
          have third := length_of_readPower powerRead
          rw [← read.2]
          omega
        · simp at read

end AllowList.Json
