import AllowList.Text.Blank

/-!
# Rows of a text

A text is read row by row; a newline ends each row but the last, so that every
text has at least one row. `placed` says where each row begins: its number,
counted from one, and the byte offset of its first character.
-/

namespace AllowList.Text

/-- What stands between the marks in a run of characters. -/
def pieces (mark : Char) : List Char → List (List Char)
  | [] => [[]]
  | c :: rest =>
    match pieces mark rest with
    | [] => [[c]]
    | piece :: more => if c = mark then [] :: piece :: more else (c :: piece) :: more

/-- There is always a piece. -/
theorem pieces_ne_nil (mark : Char) (cs : List Char) : pieces mark cs ≠ [] := by
  cases cs with
  | nil => simp [pieces]
  | cons c rest =>
    simp only [pieces]
    split
    · simp
    · split <;> simp

/-- The rows of a text: what stands between its newlines. -/
def rows (cs : List Char) : List (List Char) :=
  pieces '\n' cs

/-- Every text has a row. -/
theorem rows_ne_nil (cs : List Char) : rows cs ≠ [] :=
  pieces_ne_nil '\n' cs

/-- A row of a text with its number and the byte offset at which it begins. -/
structure Row where
  /-- The row's number, the first being one. -/
  number : Nat
  /-- The byte offset of the row's first character. -/
  start : Nat
  /-- The row's characters, without the newline that ends it. -/
  chars : List Char
  deriving DecidableEq, Repr

/-- Numbers rows from a given place on; a newline takes one byte. -/
def placeRows (number start : Nat) : List (List Char) → List Row
  | [] => []
  | chars :: more =>
    ⟨number, start, chars⟩ :: placeRows (number + 1) (start + byteLength chars + 1) more

/-- The rows of a text, each with its place. -/
def placed (cs : List Char) : List Row :=
  placeRows 1 0 (rows cs)

end AllowList.Text
