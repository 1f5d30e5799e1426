import AllowList.Text.Hex

/-!
# Texts as TOML reads them

A text stands between quotes, on one line or between three quotes on several.
Between double quotes a backslash begins an escape; between single quotes every
character stands for itself. Controls other than the tab must be escaped. On
several lines, a newline right behind the opening quotes does not count, a
backslash at the end of a line takes the blank space behind it away, and one or
two quotes may stand in front of the closing ones.
-/

namespace AllowList.Toml

/-- What was read, and the characters behind it. -/
abbrev Step (α : Type) := Option (α × List Char)

/-- Whether a character is a control that may not stand in a text. -/
def isControl (c : Char) : Bool :=
  (c.toNat < 32 && c ≠ '\t') || c.toNat = 127

/-- The character of a code point. -/
def scalar? (code : Nat) : Option Char :=
  if code.isValidChar then some (Char.ofNat code) else none

/-- The number that hexadecimal digits stand for. -/
def hexNumber? (digits : List Char) : Option Nat :=
  digits.foldlM (fun value c => (Text.hexValue? c).map (16 * value + ·)) 0

/-- The character that a letter behind a backslash stands for. -/
def letterEscape? : Char → Option Char
  | '"' => some '"'
  | '\\' => some '\\'
  | 'b' => some (Char.ofNat 8)
  | 'e' => some (Char.ofNat 27)
  | 'f' => some (Char.ofNat 12)
  | 'n' => some '\n'
  | 'r' => some '\r'
  | 't' => some '\t'
  | _ => none

/-- How many digits of a code point follow a letter behind a backslash. -/
def codeWidth? : Char → Option Nat
  | 'x' => some 2
  | 'u' => some 4
  | 'U' => some 8
  | _ => none

/-- What stands behind a backslash. -/
def readEscape : List Char → Step Char
  | [] => none
  | c :: rest =>
    match letterEscape? c with
    | some meant => some (meant, rest)
    | none =>
      match codeWidth? c with
      | none => none
      | some width =>
        if rest.length < width then none
        else ((hexNumber? (rest.take width)).bind scalar?).map fun meant => (meant, rest.drop width)

/-- Behind an escape there are fewer characters than it began with. -/
theorem length_of_readEscape {chars rest : List Char} {c : Char}
    (read : readEscape chars = some (c, rest)) : rest.length < chars.length := by
  unfold readEscape at read
  split at read
  · simp at read
  · split at read
    · simp only [Option.some.injEq, Prod.mk.injEq] at read
      simp [← read.2]
    · split at read
      · simp at read
      · split at read
        · simp at read
        · simp only [Option.map_eq_some_iff, Prod.mk.injEq] at read
          obtain ⟨_, _, _, rfl⟩ := read
          simp only [List.length_drop, List.length_cons]
          omega

/-- What stands behind a newline, if one comes next. -/
def behindNewline? : List Char → Option (List Char)
  | '\n' :: rest => some rest
  | '\r' :: '\n' :: rest => some rest
  | _ => none

/-- The characters behind blanks and newlines. -/
def skipSpace : List Char → List Char
  | ' ' :: rest | '\t' :: rest | '\n' :: rest | '\r' :: '\n' :: rest => skipSpace rest
  | chars => chars

/-- The characters behind a backslash that ends its line. -/
def behindLineEnd? (chars : List Char) : Option (List Char) :=
  (behindNewline? (chars.dropWhile fun c => c = ' ' || c = '\t')).map skipSpace

/-- The end of a text between three quotes: up to two quotes in front of the
closing ones belong to it. -/
def closing (quote : Char) : List Char → List Char × List Char
  | a :: b :: rest =>
    if a = quote ∧ b = quote then ([a, b], rest)
    else if a = quote then ([a], b :: rest)
    else ([], a :: b :: rest)
  | [a] => if a = quote then ([a], []) else ([], [a])
  | [] => ([], [])

theorem length_skipSpace (chars : List Char) : (skipSpace chars).length ≤ chars.length := by
  fun_induction skipSpace chars <;> simp <;> omega

theorem length_of_behindNewline? {chars rest : List Char}
    (found : behindNewline? chars = some rest) : rest.length < chars.length := by
  unfold behindNewline? at found
  split at found <;> simp only [Option.some.injEq, reduceCtorEq] at found
  all_goals
    rw [← found]
    simp only [List.length_cons]
    omega

theorem length_of_behindLineEnd? {chars rest : List Char}
    (found : behindLineEnd? chars = some rest) : rest.length < chars.length := by
  unfold behindLineEnd? at found
  simp only [Option.map_eq_some_iff] at found
  obtain ⟨line, newline, rfl⟩ := found
  have skipped := length_skipSpace line
  have shorter := length_of_behindNewline? newline
  have dropped := (List.dropWhile_sublist (fun c => c = ' ' || c = '\t') (l := chars)).length_le
  omega

theorem length_closing (quote : Char) (chars : List Char) :
    (closing quote chars).2.length ≤ chars.length := by
  fun_cases closing quote chars <;> simp
  omega

/-- How a text is quoted. -/
structure Quoting where
  /-- The quote. -/
  quote : Char
  /-- Whether three quotes stand around the text, which may then go on over
  several lines. -/
  long : Bool

namespace Quoting

/-- Whether a backslash begins an escape. -/
def escapes (quoting : Quoting) : Bool :=
  quoting.quote = '"'

/-- The end of a text, if it comes next: quotes that still belong to the text,
and the characters behind it. -/
def end? (quoting : Quoting) (chars : List Char) : Step (List Char) :=
  if quoting.long then
    if chars.take 3 = List.replicate 3 quoting.quote then
      some (closing quoting.quote (chars.drop 3))
    else none
  else if chars.head? = some quoting.quote then some ([], chars.tail)
  else none

/-- What comes next in a text that does not end: the characters it stands for,
and those behind it. -/
def next (quoting : Quoting) : List Char → Step (List Char)
  | [] => none
  | c :: rest =>
    if c = '\\' && quoting.escapes then
      match if quoting.long then behindLineEnd? rest else none with
      | some behind => some ([], behind)
      | none => (readEscape rest).map fun read => ([read.1], read.2)
    else
      match if quoting.long then behindNewline? (c :: rest) else none with
      | some behind => some (['\n'], behind)
      | none => if isControl c then none else some ([c], rest)

/-- Reading on in a text leaves fewer characters. -/
theorem length_of_next {quoting : Quoting} {chars rest text : List Char}
    (read : quoting.next chars = some (text, rest)) : rest.length < chars.length := by
  unfold next at read
  split at read
  · simp at read
  · split at read
    · split at read
      · rename_i found
        split at found
        · have := length_of_behindLineEnd? found
          simp_all
          omega
        · simp at found
      · simp only [Option.map_eq_some_iff, Prod.mk.injEq] at read
        obtain ⟨found, foundRead, _, rfl⟩ := read
        have := length_of_readEscape foundRead
        simp only [List.length_cons]
        omega
    · split at read
      · rename_i found
        split at found
        · have := length_of_behindNewline? found
          simp_all
        · simp at found
      · split at read
        · simp at read
        · simp_all

/-- The characters of a text up to its closing quotes. -/
def read (quoting : Quoting) (chars : List Char) : Step (List Char) :=
  match quoting.end? chars with
  | some ended => some ended
  | none =>
    match next : quoting.next chars with
    | none => none
    | some (front, rest) =>
      have := length_of_next next
      (quoting.read rest).map fun back => (front ++ back.1, back.2)
termination_by chars.length

/-- Behind a text there are no more characters than it began with. -/
theorem length_of_read {quoting : Quoting} {chars rest text : List Char}
    (done : quoting.read chars = some (text, rest)) : rest.length ≤ chars.length := by
  fun_induction quoting.read chars generalizing text rest with
  | case1 chars ended found =>
    unfold end? at found
    split at found
    · split at found
      · have := length_closing quoting.quote (chars.drop 3)
        simp_all
        omega
      · simp at found
    · split at found
      · simp_all only [Option.some.injEq, Prod.mk.injEq]
        simp [← found.2]
      · simp at found
  | case2 => simp at done
  | case3 _ _ _ _ _ shorter ih =>
    simp only [Option.map_eq_some_iff, Prod.mk.injEq] at done
    obtain ⟨found, foundRead, _, rfl⟩ := done
    have := ih foundRead
    omega

end Quoting

/-- A text that follows its first quote, and whether it was written on one line.
Two more quotes make it a long one; a newline right behind these does not
count. -/
def readText (quote : Char) (chars : List Char) : Step (String × Bool) :=
  let long := chars.take 2 = [quote, quote]
  let body := if long then (behindNewline? (chars.drop 2)).getD (chars.drop 2) else chars
  (Quoting.read ⟨quote, long⟩ body).map fun read => ((String.ofList read.1, !long), read.2)

/-- Behind a text there are no more characters than behind its first quote. -/
theorem length_of_readText {quote : Char} {chars rest : List Char} {text : String × Bool}
    (read : readText quote chars = some (text, rest)) : rest.length ≤ chars.length := by
  unfold readText at read
  simp only [Option.map_eq_some_iff, Prod.mk.injEq] at read
  obtain ⟨found, foundRead, _, rfl⟩ := read
  have shorter := Quoting.length_of_read foundRead
  split at shorter
  · match newline : behindNewline? (chars.drop 2) with
    | none =>
      simp only [newline, Option.getD_none, List.length_drop] at shorter
      omega
    | some behind =>
      have := length_of_behindNewline? newline
      simp only [newline, Option.getD_some, List.length_drop] at shorter this
      omega
  · exact shorter

end AllowList.Toml
