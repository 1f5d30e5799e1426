import AllowList.Numeric.Decimal

/-!
# Moments as TOML writes them

A moment is a date, a time of day, or both with a letter or a blank between
them; one with both may say how far its place is from the zero meridian. Every
part must lie in its range. The seconds may be left out.
-/

namespace AllowList.Toml

/-- A number of exactly so many digits, and what stands behind it. -/
def fixed? (count : Nat) (chars : List Char) : Option (Nat × List Char) :=
  let digits := chars.take count
  if digits.length = count ∧ digits.all Numeric.isDigit then
    some (Numeric.valueOf digits, chars.drop count)
  else none

/-- What stands behind a character that must come next. -/
def behind? (expected : Char) : List Char → Option (List Char)
  | [] => none
  | c :: rest => if c = expected then some rest else none

/-- The number of days of a month; no month has a day outside its year. -/
def daysIn (year month : Nat) : Nat :=
  match month with
  | 1 | 3 | 5 | 7 | 8 | 10 | 12 => 31
  | 4 | 6 | 9 | 11 => 30
  | 2 => if year % 4 = 0 ∧ (year % 100 ≠ 0 ∨ year % 400 = 0) then 29 else 28
  | _ => 0

/-- What stands behind a date. -/
def behindDate? (chars : List Char) : Option (List Char) := do
  let (year, rest) ← fixed? 4 chars
  let (month, rest) ← fixed? 2 (← behind? '-' rest)
  let (day, rest) ← fixed? 2 (← behind? '-' rest)
  if 1 ≤ day ∧ day ≤ daysIn year month then some rest else none

/-- What stands behind hours and minutes. -/
def behindClock? (chars : List Char) : Option (List Char) := do
  let (hour, rest) ← fixed? 2 chars
  let (minute, rest) ← fixed? 2 (← behind? ':' rest)
  if hour ≤ 23 ∧ minute ≤ 59 then some rest else none

/-- What stands behind the part of a second, if one comes next. -/
def behindFraction? : List Char → Option (List Char)
  | '.' :: rest =>
    let digits := rest.takeWhile Numeric.isDigit
    if digits.isEmpty then none else some (rest.drop digits.length)
  | chars => some chars

/-- What stands behind a time of day. A minute may have a leap second. -/
def behindTime? (chars : List Char) : Option (List Char) := do
  match ← behindClock? chars with
  | ':' :: rest =>
    let (second, rest) ← fixed? 2 rest
    if second ≤ 60 then behindFraction? rest else none
  | rest => some rest

/-- Whether a run of characters is a distance from the zero meridian, or empty. -/
def isOffset : List Char → Bool
  | [] => true
  | ['Z'] | ['z'] => true
  | '+' :: rest | '-' :: rest => behindClock? rest == some []
  | _ => false

/-- Whether a word is a date without a time. -/
def isDate (chars : List Char) : Bool :=
  behindDate? chars == some []

/-- Whether a word is a moment. -/
def isMoment (chars : List Char) : Bool :=
  match behindDate? chars with
  | none => behindTime? chars == some []
  | some [] => true
  | some (mark :: rest) =>
    (mark = 'T' || mark = 't' || mark = ' ') && (behindTime? rest).any isOffset

end AllowList.Toml
