/-!
# Wrapping words into lines

Words are laid out in lines of a given width. A word goes on the current line,
behind a blank, if it fits there, and otherwise begins the next line. A word
that is wider than a line is cut: its pieces fill lines of their own, and what
is left of it begins the next line. Widths count characters.
-/

namespace AllowList.Text

/-- Cuts a word into pieces of the given width, and what is left: at most the
width, and nothing only if the word is empty. -/
def chop (width : Nat) (word : List Char) : List (List Char) × List Char :=
  if width = 0 ∨ word.length ≤ width then ([], word)
  else
    let (pieces, left) := chop width (word.drop width)
    (word.take width :: pieces, left)
termination_by word.length
decreasing_by
  simp only [List.length_drop]
  omega

/-- The lines that come of words, given what stands on the current line. -/
def linesFrom (width : Nat) (current : List Char) : List (List Char) → List (List Char)
  | [] => [current]
  | word :: words =>
    if !current.isEmpty && current.length + 1 + word.length ≤ width then
      linesFrom width (current ++ ' ' :: word) words
    else
      let (pieces, left) := chop width word
      (if current.isEmpty then [] else [current]) ++ pieces ++ linesFrom width left words

/-- Lines as one text, a newline behind each. If nothing stands on them there is
no text. -/
def linesText (lines : List (List Char)) : List Char :=
  if lines = [[]] then [] else lines.flatMap (· ++ ['\n'])

/-- Words laid out in lines of a width; a line has room for one character at
least. -/
def wrap (width : Nat) (words : List (List Char)) : List Char :=
  linesText (linesFrom (max width 1) [] words)

end AllowList.Text
