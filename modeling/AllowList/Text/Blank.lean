import AllowList.Text.Bytes

/-!
# Blank characters

`isBlank` is the Unicode property `White_Space`, given by its table. Two kinds
of place are told apart by it: text is trimmed of every blank, while only a
space or a tab (`isGap`) separates the words of an entry.

`trim` cuts the blanks at both ends. `leading` is what it cuts in front, so
that the place of the trimmed text in its row is known.
-/

namespace AllowList.Text

/-- The code point ranges of the Unicode property `White_Space`, ascending. -/
def blankRanges : List (Nat × Nat) :=
  [(0x9, 0xD), (0x20, 0x20), (0x85, 0x85), (0xA0, 0xA0), (0x1680, 0x1680),
   (0x2000, 0x200A), (0x2028, 0x2029), (0x202F, 0x202F), (0x205F, 0x205F), (0x3000, 0x3000)]

/-- Whether a character is white space. -/
def isBlank (c : Char) : Bool :=
  blankRanges.any fun range => range.1 ≤ c.toNat && c.toNat ≤ range.2

/-- Whether a character may stand between two words of an entry. -/
def isGap (c : Char) : Bool :=
  c == ' ' || c == '\t'

/-- What may stand between two words is white space. -/
theorem isBlank_of_isGap {c : Char} (gap : isGap c = true) : isBlank c = true := by
  simp only [isGap, Bool.or_eq_true, beq_iff_eq] at gap
  rcases gap with rfl | rfl <;> decide

/-- The blanks in front of a text. -/
def leading (cs : List Char) : List Char :=
  cs.takeWhile isBlank

/-- The text without the blanks in front of it. -/
def trimFront (cs : List Char) : List Char :=
  cs.dropWhile isBlank

/-- The text without the blanks at its end: a character stays when it, or one
after it, is not blank. -/
def trimBack : List Char → List Char
  | [] => []
  | c :: rest =>
    match trimBack rest with
    | [] => if isBlank c then [] else [c]
    | kept => c :: kept

/-- The text without the blanks at either end. -/
def trim (cs : List Char) : List Char :=
  trimBack (trimFront cs)

end AllowList.Text
