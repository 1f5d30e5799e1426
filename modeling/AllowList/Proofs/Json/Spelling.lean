import AllowList.Json.Canonical
import AllowList.Json.Token
import AllowList.Proofs.Text.Parts
import Mathlib.Algebra.Ring.Int.Defs
import Mathlib.Tactic.SplitIfs

/-!
# Texts and whole numbers read back

What is written for a character of a text is read back as that character, and nothing
behind it is touched: a letter behind a backslash, four digits for a code unit, or two
units for a character beyond 16 bits. What is written for a whole number of 64 bits is
read back as that number, if what follows cannot go on with it.
-/

namespace AllowList.Json

open Numeric (decimal isDigit valueOf)

/-- A hexadecimal digit has the value it was written for. -/
theorem hexValue?_hexDigit {n : Nat} (small : n < 16) :
    Text.hexValue? (Text.hexDigit n) = some n := by
  have each : ∀ n < 16, Text.hexValue? (Text.hexDigit n) = some n := by decide
  exact each n small

/-- A code unit is read back from its four digits. -/
theorem readUnit_hexPadded {unit : Nat} (small : unit < 0x10000) (rest : List Char) :
    readUnit (Text.hexPadded 4 unit ++ rest) = .ok (unit, rest) := by
  have first : Text.hexValue? (Text.hexDigit (unit / 16 / 16 / 16 % 16)) = _ :=
    hexValue?_hexDigit (Nat.mod_lt _ (by decide))
  have second : Text.hexValue? (Text.hexDigit (unit / 16 / 16 % 16)) = _ :=
    hexValue?_hexDigit (Nat.mod_lt _ (by decide))
  have third : Text.hexValue? (Text.hexDigit (unit / 16 % 16)) = _ :=
    hexValue?_hexDigit (Nat.mod_lt _ (by decide))
  have fourth : Text.hexValue? (Text.hexDigit (unit % 16)) = _ :=
    hexValue?_hexDigit (Nat.mod_lt _ (by decide))
  simp only [Text.hexPadded, List.nil_append, List.cons_append, readUnit, first, second, third,
    fourth]
  congr 2
  omega

/-- A character is not half of a pair of surrogates. -/
theorem not_surrogate (c : Char) : ¬(0xD800 ≤ c.toNat ∧ c.toNat ≤ 0xDFFF) := by
  have valid := c.valid
  intro inside
  rcases valid with low | high
  · have : c.toNat < 0xD800 := low
    omega
  · have : 0xDFFF < c.toNat := high.1
    omega

/-- No character is beyond the last code point. -/
theorem toNat_lt (c : Char) : c.toNat < 0x110000 := by
  rcases c.valid with low | high
  · have : c.toNat < 0xD800 := low
    omega
  · exact high.2

/-- A character of 16 bits is read back from its code unit. -/
theorem readEscape_unit {c : Char} (small : c.toNat < 0x10000) (rest : List Char) :
    readEscape ('u' :: Text.hexPadded 4 c.toNat ++ rest) = .ok (c, rest) := by
  have whole := not_surrogate c
  have noSecond : ¬(0xDC00 ≤ c.toNat ∧ c.toNat ≤ 0xDFFF) := by omega
  have noFirst : ¬(0xD800 ≤ c.toNat ∧ c.toNat ≤ 0xDBFF) := by omega
  rw [List.cons_append, readEscape, if_pos rfl, readCodeUnits, readUnit_hexPadded small]
  simp only [noSecond, noFirst, if_false, Char.ofNat_toNat]

/-- A character beyond 16 bits is read back from its pair of surrogates. -/
theorem readEscape_pair {c : Char} (large : 0x10000 ≤ c.toNat) (rest : List Char) :
    readEscape ('u' :: Text.hexPadded 4 (0xD800 + (c.toNat - 0x10000) / 0x400) ++
      (escapedUnit (0xDC00 + (c.toNat - 0x10000) % 0x400) ++ rest)) = .ok (c, rest) := by
  have last := toNat_lt c
  have code : 0x10000 + (0xD800 + (c.toNat - 0x10000) / 0x400 - 0xD800) * 0x400 +
      (0xDC00 + (c.toNat - 0x10000) % 0x400 - 0xDC00) = c.toNat := by omega
  -- from here on only the bounds of the two units count, not how they are computed
  generalize highEq : 0xD800 + (c.toNat - 0x10000) / 0x400 = high at code ⊢
  generalize lowEq : 0xDC00 + (c.toNat - 0x10000) % 0x400 = low at code ⊢
  have highSmall : high < 0x10000 := by omega
  have lowSmall : low < 0x10000 := by omega
  have first : 0xD800 ≤ high ∧ high ≤ 0xDBFF := by omega
  have noSecond : ¬(0xDC00 ≤ high ∧ high ≤ 0xDFFF) := by omega
  have second : 0xDC00 ≤ low ∧ low ≤ 0xDFFF := by omega
  rw [List.cons_append, readEscape, if_pos rfl, readCodeUnits, readUnit_hexPadded highSmall]
  simp only [noSecond, if_false]
  rw [if_pos first, escapedUnit, List.cons_append, List.cons_append, readLowUnit,
    readUnit_hexPadded lowSmall]
  simp only [second, and_self, if_true, code, Char.ofNat_toNat]

/-- The letter that stands for a character is read back as that character. -/
theorem readEscape_letter {c letter : Char} (escape : escapeLetter? c = some letter)
    (rest : List Char) : readEscape (letter :: rest) = .ok (c, rest) := by
  have point {code : Nat} (same : c.toNat = code) : c = Char.ofNat code := by
    rw [← same, Char.ofNat_toNat]
  unfold escapeLetter? at escape
  split_ifs at escape with quote backslash newline back tab backspace feed
  all_goals cases escape
  · rw [quote]
    rfl
  · rw [backslash]
    rfl
  · rw [newline]
    rfl
  · rw [back]
    rfl
  · rw [tab]
    rfl
  · rw [point backspace]
    rfl
  · rw [point feed]
    rfl

/-- An escape is read back as the character that it stands for, in front of whatever text
follows. -/
theorem readText_escape {c : Char} {escaped more text rest : List Char}
    (escape : readEscape (escaped ++ more) = .ok (c, more))
    (behind : readText more = .ok (text, rest)) :
    readText ('\\' :: escaped ++ more) = .ok (c :: text, rest) := by
  have noQuote : ¬('\\' = '"') := by decide
  rw [List.cons_append, readText, if_neg noQuote, if_pos rfl]
  split
  case h_1 refused =>
    rw [escape] at refused
    cases refused
  case h_2 meant after read =>
    rw [escape] at read
    cases read
    simp only [behind]

/-- A character that needs no escape is read as it stands. -/
theorem readText_plain {c : Char} (noEscape : escapeLetter? c = none) (noControl : ¬c.toNat < 32)
    {more text rest : List Char} (behind : readText more = .ok (text, rest)) :
    readText (c :: more) = .ok (c :: text, rest) := by
  have noQuote : ¬c = '"' := by
    rintro rfl
    cases noEscape
  have noBackslash : ¬c = '\\' := by
    rintro rfl
    cases noEscape
  rw [readText, if_neg noQuote, if_neg noBackslash, if_neg noControl]
  simp only [behind]

/-- What is written for a character of a text is read back as that character. -/
theorem readText_writtenAscii (c : Char) {more text rest : List Char}
    (behind : readText more = .ok (text, rest)) :
    readText (writtenAscii c ++ more) = .ok (c :: text, rest) := by
  unfold writtenAscii
  split
  case isTrue ascii =>
    unfold writtenChar
    split
    case h_1 letter escape =>
      exact readText_escape (readEscape_letter escape more) behind
    case h_2 noEscape =>
      split
      case isTrue control =>
        have small : c.toNat < 0x10000 := by omega
        exact readText_escape (readEscape_unit small more) behind
      case isFalse noControl => exact readText_plain noEscape noControl behind
  case isFalse =>
    dsimp only [units]
    split
    case isTrue small =>
      rw [List.flatMap_cons, List.flatMap_nil, List.append_nil]
      exact readText_escape (readEscape_unit small more) behind
    case isFalse large =>
      have pair := readEscape_pair (Nat.le_of_not_lt large) more
      rw [← List.append_assoc] at pair
      simp only [List.flatMap_cons, List.flatMap_nil, List.append_nil]
      exact readText_escape pair behind

/-- A text is read back up to the quote that ends it. -/
theorem readText_flatMap (text rest : List Char) :
    readText (text.flatMap writtenAscii ++ '"' :: rest) = .ok (text, rest) := by
  induction text with
  | nil => rw [List.flatMap_nil, List.nil_append, readText, if_pos rfl]
  | cons c more ih =>
    rw [List.flatMap_cons, List.append_assoc]
    exact readText_writtenAscii c ih

/-- What cannot go on with a whole number: no digit, point or power stands first. -/
def EndsNumber (rest : List Char) : Prop :=
  ∀ c ∈ rest.head?, isDigit c = false ∧ c ≠ '.' ∧ c ≠ 'e' ∧ c ≠ 'E'

/-- A numeral begins with a zero only when it is the number zero. -/
theorem eq_zero_of_head?_decimal {n : Nat} (zero : (decimal n).head? = some '0') : n = 0 := by
  rw [decimal] at zero
  split at zero
  case isTrue small =>
    have code := congrArg Char.toNat (Option.some.inj zero)
    rw [Numeric.toNat_digitChar small] at code
    exact Nat.add_left_cancel code
  case isFalse large =>
    obtain ⟨first, more, digits⟩ := List.exists_cons_of_ne_nil (Numeric.decimal_ne_nil (n / 10))
    rw [digits] at zero
    have front : n / 10 = 0 := eq_zero_of_head?_decimal (digits ▸ zero)
    omega
termination_by n

/-- The digits of a numeral are read as they stand. -/
theorem readWhole_decimal (n : Nat) {rest : List Char} (ends : EndsNumber rest) :
    readWhole (decimal n ++ rest) = .ok (decimal n, rest) := by
  have digits : ∀ c ∈ decimal n, isDigit c = true := fun _ => Numeric.isDigit_of_mem_decimal
  have stops : Text.Stops isDigit rest := fun c first => (ends c first).1
  have run : readDigits (decimal n ++ rest) = .ok (decimal n, rest) := by
    unfold readDigits
    simp [Text.takeWhile_append_of_stops digits stops, Text.dropWhile_append_of_stops digits stops,
      Numeric.decimal_ne_nil]
  have noZero : ¬((decimal n).head? = some '0' ∧ (decimal n).length ≠ 1) := by
    rintro ⟨zero, several⟩
    have single : (decimal 0).length = 1 := by
      rw [decimal]
      rfl
    rw [eq_zero_of_head?_decimal zero] at several
    exact several single
  simp only [readWhole, run, noZero, if_false]

/-- A numeral whose number 64 bits can hold is read as that number. -/
theorem readNumber_decimal {negative : Bool} {n : Nat} {value : Int}
    (fits : wholeNumber? negative n = some value) {rest : List Char} (ends : EndsNumber rest) :
    readNumber negative (decimal n ++ rest) = .ok (.num (.int value), rest) := by
  have noFraction : readFraction rest = .ok (none, rest) := by
    unfold readFraction
    split
    · exact absurd rfl (ends '.' rfl).2.1
    · rfl
  have noPower : readPower rest = .ok (none, rest) := by
    cases rest with
    | nil => rfl
    | cons c more =>
      obtain ⟨_, _, noSmall, noLarge⟩ := ends c rfl
      have none : ¬(c = 'e' ∨ c = 'E') := by simp [noSmall, noLarge]
      rw [readPower, if_neg none]
  have exact : numberOf? negative (decimal n) none none = some (.int value) := by
    simp [numberOf?, Numeric.valueOf_decimal, fits]
  simp [readNumber, readWhole_decimal n ends, noFraction, noPower, exact, bind, Except.bind]

/-- A number that 64 bits can hold as a whole number, unsigned or below zero. -/
def Number.Fits : Json.Number → Prop
  | .int value => -2 ^ 63 ≤ value ∧ value < 2 ^ 64
  | .real _ => False

/-- A whole number below zero is read behind its sign. -/
theorem wholeNumber?_below {value : Int} (below : value < 0) (least : -2 ^ 63 ≤ value) :
    wholeNumber? true value.natAbs = some value := by
  have bound : Numeric.twoTo 63 = 2 ^ 63 := by decide
  have inside : 0 < value.natAbs ∧ value.natAbs ≤ Numeric.twoTo 63 := by
    rw [bound]
    omega
  rw [wholeNumber?, if_pos rfl, if_pos inside]
  congr 1
  omega

/-- A whole number that is not below zero is read without a sign. -/
theorem wholeNumber?_above {value : Int} (above : 0 ≤ value) (most : value < 2 ^ 64) :
    wholeNumber? false value.natAbs = some value := by
  have bound : Numeric.wordCount = 2 ^ 64 := by decide
  have inside : value.natAbs < Numeric.wordCount := by
    rw [bound]
    omega
  have unsigned : ¬(false = true) := by decide
  rw [wholeNumber?, if_neg unsigned, if_pos inside]
  congr 1
  omega

end AllowList.Json
