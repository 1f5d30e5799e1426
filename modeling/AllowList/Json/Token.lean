import AllowList.Json.Numeral

/-!
# Tokens of JSON text

A JSON text is cut into tokens: brackets, commas and colons, texts, and the
other scalars. Blanks between tokens do not count; only space, tab, line feed
and carriage return are blanks here.

What begins like a text or another scalar and is not one becomes a broken
token, which keeps why it broke: the text was cut short, or it is malformed.
Nothing after a broken token is looked at. Whether a broken token matters is up
to the reader of the tokens, since it may not be welcome where it stands.
-/

namespace AllowList.Json

/-- A token of a JSON text. -/
inductive Token where
  | openArray
  | closeArray
  | openObject
  | closeObject
  | comma
  | colon
  /-- A text between quotes, as it reads. -/
  | text (content : String)
  /-- A scalar other than a text. -/
  | scalar (value : Json)
  /-- The beginning of a text that is none. -/
  | brokenText (fault : Fault)
  /-- The beginning of another scalar that is none. -/
  | brokenScalar (fault : Fault)
  /-- A character that begins no token. -/
  | stray
  deriving Repr, Inhabited

/-- Whether a character may stand between tokens. -/
def isSpacing (c : Char) : Bool :=
  c = ' ' || c = '\t' || c = '\n' || c = '\r'

/-- The rest of a word that must come next. -/
def readWord : List Char → List Char → Step Unit
  | [], chars => .ok ((), chars)
  | _ :: _, [] => .error .cut
  | expected :: word, c :: rest => if c = expected then readWord word rest else .error .malformed

/-- A scalar other than a text that begins with the given character, or none if
that character begins no scalar. -/
def readScalar? (c : Char) (rest : List Char) : Option (Step Json) :=
  match c with
  | 'n' => some ((readWord "ull".toList rest).map fun read => (null, read.2))
  | 't' => some ((readWord "rue".toList rest).map fun read => (bool true, read.2))
  | 'f' => some ((readWord "alse".toList rest).map fun read => (bool false, read.2))
  | '-' => some (readNumber true rest)
  | c => if Numeric.isDigit c then some (readNumber false (c :: rest)) else none

/-- The token that a character is on its own. -/
def Token.ofMark? : Char → Option Token
  | '[' => some .openArray
  | ']' => some .closeArray
  | '{' => some .openObject
  | '}' => some .closeObject
  | ',' => some .comma
  | ':' => some .colon
  | _ => none

/-- The token that begins with a character, and the characters behind it; none
if no reading goes on from there. -/
def Token.next (c : Char) (rest : List Char) : Token × Option (List Char) :=
  match Token.ofMark? c with
  | some token => (token, some rest)
  | none =>
    if c = '"' then
      match readText rest with
      | .ok (chars, rest) => (.text (String.ofList chars), some rest)
      | .error fault => (.brokenText fault, none)
    else
      match readScalar? c rest with
      | some (.ok (value, rest)) => (.scalar value, some rest)
      | some (.error fault) => (.brokenScalar fault, none)
      | none => (.stray, none)

/-- Behind a word there are no more characters than the word began with. -/
theorem length_of_readWord {word chars rest : List Char}
    (read : readWord word chars = .ok ((), rest)) : rest.length ≤ chars.length := by
  induction word generalizing chars with
  | nil =>
    simp only [readWord, Except.ok.injEq, Prod.mk.injEq, true_and] at read
    simp [read]
  | cons expected word ih =>
    cases chars with
    | nil => simp [readWord] at read
    | cons c more =>
      simp only [readWord] at read
      split at read
      · have := ih read
        simp only [List.length_cons]
        omega
      · simp at read

/-- Behind a scalar there are no more characters than behind its first one. -/
theorem length_of_readScalar? {c : Char} {chars rest : List Char} {value : Json}
    (read : readScalar? c chars = some (.ok (value, rest))) : rest.length ≤ chars.length := by
  have ofWord : ∀ {word : List Char} {meant : Json},
      (readWord word chars).map (fun read => (meant, read.2)) = Except.ok (value, rest) →
        rest.length ≤ chars.length := by
    intro word meant mapped
    match wordRead : readWord word chars with
    | .error fault => simp [wordRead, Except.map] at mapped
    | .ok ((), behind) =>
      simp only [wordRead, Except.map, Except.ok.injEq, Prod.mk.injEq] at mapped
      have := length_of_readWord wordRead
      rw [← mapped.2]
      exact this
  unfold readScalar? at read
  split at read
  · exact ofWord (Option.some.inj read)
  · exact ofWord (Option.some.inj read)
  · exact ofWord (Option.some.inj read)
  · have := length_of_readNumber (Option.some.inj read)
    omega
  · split at read
    · have := length_of_readNumber (Option.some.inj read)
      simp only [List.length_cons] at this
      omega
    · simp at read

/-- Behind a token there are no more characters than behind its first one. -/
theorem Token.length_of_next {c : Char} {chars rest : List Char} {token : Token}
    (next : Token.next c chars = (token, some rest)) : rest.length ≤ chars.length := by
  unfold Token.next at next
  split at next
  · simp only [Prod.mk.injEq, Option.some.injEq] at next
    simp [next.2]
  · split at next
    · split at next
      · rename_i read
        simp only [Prod.mk.injEq, Option.some.injEq] at next
        have := length_of_readText read
        rw [← next.2]
        omega
      · simp at next
    · split at next
      · rename_i read
        simp only [Prod.mk.injEq, Option.some.injEq] at next
        rw [← next.2]
        exact length_of_readScalar? read
      · simp at next
      · simp at next

/-- The tokens of a text, as far as they can be told. -/
def tokens : List Char → List Token
  | [] => []
  | c :: rest =>
    if isSpacing c then tokens rest
    else
      match next : Token.next c rest with
      | (token, none) => [token]
      | (token, some behind) =>
        have := Token.length_of_next next
        token :: tokens behind
termination_by chars => chars.length

end AllowList.Json
