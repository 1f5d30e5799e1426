import AllowList.Diagnostic
import AllowList.Text.Rows

/-!
# Lines of a source list

A source list is read line by line. A line's content is what stands before the
first comment mark, without the blanks at either end; the byte offset of its
first character is kept, so that any part of it can be found in the text again.
-/

namespace AllowList.Source

/-- A row without its comment: what stands before the first double slash. -/
def uncommented : List Char → List Char
  | [] => []
  | c :: rest =>
    if c = '/' ∧ rest.head? = some '/' then [] else c :: uncommented rest

/-- The content of one line. -/
structure Line where
  /-- The line's number, the first being one. -/
  number : Nat
  /-- The byte offset of the content's first character. -/
  start : Nat
  /-- The content: no comment, and no blank at either end. -/
  content : List Char
  deriving DecidableEq, Repr

namespace Line

/-- The content of a row. -/
def ofRow (row : Text.Row) : Line :=
  let written := uncommented row.chars
  { number := row.number
    start := row.start + Text.byteLength (Text.leading written)
    content := Text.trim written }

/-- The lines of a source list. -/
def ofText (text : String) : List Line :=
  (Text.placed text.toList).map ofRow

/-- Where the content stands. -/
def span (line : Line) : Span :=
  ⟨line.start, line.start + Text.byteLength line.content⟩

/-- Where a part of the content stands that has `before` in front of it. -/
def spanOf (line : Line) (before part : List Char) : Span :=
  let start := line.start + Text.byteLength before
  ⟨start, start + Text.byteLength part⟩

end Line

end AllowList.Source
