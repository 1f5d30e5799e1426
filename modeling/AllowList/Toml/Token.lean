import AllowList.Toml.Text

/-!
# Tokens of TOML text

A TOML text is cut into marks, texts, words, blanks and newlines. A word is a
run of letters, digits and the few marks that numbers, moments and dotted keys
are written with; what it stands for depends on its place. Comments are left
out. A text with a character that belongs nowhere has no tokens at all.
-/

namespace AllowList.Toml

/-- A token of a TOML text. -/
inductive Token where
  | newline
  | blank (chars : List Char)
  | equals
  | comma
  | openList
  | closeList
  | openTable
  | closeTable
  /-- A text, and whether it was written on one line, as a key must be. -/
  | text (content : String) (oneLine : Bool)
  | word (chars : List Char)
  deriving DecidableEq, Repr, Inhabited

/-- Whether a character is blank within a line. -/
def isBlank (c : Char) : Bool :=
  c = ' ' || c = '\t'

/-- Whether a character may stand in a key without quotes. -/
def isBare (c : Char) : Bool :=
  c.isAlphanum || c = '_' || c = '-'

/-- Whether a character may stand in a word. -/
def isWordPart (c : Char) : Bool :=
  isBare c || c = '+' || c = '.' || c = ':'

/-- What stands behind a comment: the end of its line. -/
def skipComment : List Char → Option (List Char)
  | [] => some []
  | '\n' :: rest => some ('\n' :: rest)
  | '\r' :: '\n' :: rest => some ('\r' :: '\n' :: rest)
  | c :: rest => if isControl c then none else skipComment rest

/-- The token that a character is on its own. -/
def Token.ofMark? : Char → Option Token
  | '=' => some .equals
  | ',' => some .comma
  | '[' => some .openList
  | ']' => some .closeList
  | '{' => some .openTable
  | '}' => some .closeTable
  | '\n' => some .newline
  | _ => none

/-- The token that begins with a character, if it is no comment, and the
characters behind it. -/
def Token.next (c : Char) (rest : List Char) : Step (Option Token) :=
  match Token.ofMark? c with
  | some token => some (some token, rest)
  | none =>
    if c = '\r' then (behindNewline? (c :: rest)).map fun behind => (some .newline, behind)
    else if c = '#' then (skipComment rest).map fun behind => (none, behind)
    else if c = '"' || c = '\'' then (readText c rest).map fun read =>
        (some (.text read.1.1 read.1.2), read.2)
    else if isBlank c then
      some (some (.blank (c :: rest.takeWhile isBlank)), rest.dropWhile isBlank)
    else if isWordPart c then
      some (some (.word (c :: rest.takeWhile isWordPart)), rest.dropWhile isWordPart)
    else none

theorem length_of_skipComment {chars rest : List Char} (skipped : skipComment chars = some rest) :
    rest.length ≤ chars.length := by
  fun_induction skipComment chars with
  | case1 | case2 | case3 =>
    exact Nat.le_of_eq (congrArg List.length (Option.some.inj skipped).symm)
  | case4 => simp at skipped
  | case5 _ _ _ _ _ ih =>
    have := ih skipped
    simp only [List.length_cons]
    omega

/-- Behind a token there are no more characters than behind its first one. -/
theorem Token.length_of_next {c : Char} {chars rest : List Char} {token : Option Token}
    (next : Token.next c chars = some (token, rest)) : rest.length ≤ chars.length := by
  unfold Token.next at next
  split at next
  · simp_all
  · split at next
    · simp only [Option.map_eq_some_iff, Prod.mk.injEq] at next
      obtain ⟨behind, newline, _, rfl⟩ := next
      have := length_of_behindNewline? newline
      simp only [List.length_cons] at this
      omega
    · split at next
      · simp only [Option.map_eq_some_iff, Prod.mk.injEq] at next
        obtain ⟨behind, skipped, _, rfl⟩ := next
        exact length_of_skipComment skipped
      · split at next
        · simp only [Option.map_eq_some_iff, Prod.mk.injEq] at next
          obtain ⟨found, foundRead, _, rfl⟩ := next
          exact length_of_readText foundRead
        · split at next
          · simp only [Option.some.injEq, Prod.mk.injEq] at next
            rw [← next.2]
            exact (List.dropWhile_sublist _).length_le
          · split at next
            · simp only [Option.some.injEq, Prod.mk.injEq] at next
              rw [← next.2]
              exact (List.dropWhile_sublist _).length_le
            · simp at next

/-- The tokens of a text. -/
def tokens? : List Char → Option (List Token)
  | [] => some []
  | c :: rest =>
    match next : Token.next c rest with
    | none => none
    | some (token, behind) =>
      have := Token.length_of_next next
      (tokens? behind).map fun tokens => token.toList ++ tokens
termination_by chars => chars.length

end AllowList.Toml
