import AllowList.Proofs.Json.Arranged
import AllowList.Proofs.Json.Spelling

/-!
# Tokens of canonical text

The canonical text of a value is cut into the tokens that the value is made of: a break
of lines is no token, and each bracket, comma, colon, text and number stops where the
next begins. `tokensOf` tells those tokens without any text.
-/

namespace AllowList.Json

open Numeric (decimal isDigit)

/-- If a value is a number, then a whole one that 64 bits can hold. -/
def Fits (value : Json) : Prop :=
  ∀ number, value = num number → number.Fits

mutual

/-- The tokens that a value is made of. -/
def tokensOf : Json → List Token
  | null => [.scalar null]
  | bool value => [.scalar (bool value)]
  | num value => [.scalar (num value)]
  | str text => [.text text]
  | arr [] => [.openArray, .closeArray]
  | arr (item :: items) => .openArray :: (tokensOf item ++ itemTokens items)
  | obj [] => [.openObject, .closeObject]
  | obj ((key, value) :: rest) =>
    .openObject :: .text key :: .colon :: (tokensOf value ++ memberTokens rest)

/-- The tokens of an array behind its first item. -/
def itemTokens : List Json → List Token
  | [] => [.closeArray]
  | item :: items => .comma :: (tokensOf item ++ itemTokens items)

/-- The tokens of an object behind its first member. -/
def memberTokens : Members → List Token
  | [] => [.closeObject]
  | (key, value) :: rest =>
    .comma :: .text key :: .colon :: (tokensOf value ++ memberTokens rest)

end

/-- A token is followed by the tokens of what is behind it. -/
theorem tokens_of_next {c : Char} {rest behind : List Char} {token : Token}
    (mark : isSpacing c = false) (next : Token.next c rest = (token, some behind)) :
    tokens (c :: rest) = token :: tokens behind := by
  have solid : ¬isSpacing c = true := by simp [mark]
  rw [tokens, if_neg solid]
  split
  case h_1 other =>
    rw [next] at other
    cases other
  case h_2 other =>
    rw [next] at other
    cases other
    rfl

/-- A mark is a token on its own. -/
theorem tokens_mark {c : Char} {token : Token} (mark : Token.ofMark? c = some token)
    (rest : List Char) : tokens (c :: rest) = token :: tokens rest := by
  have solid : isSpacing c = false := by
    unfold Token.ofMark? at mark
    split at mark
    all_goals first | rfl | cases mark
  refine tokens_of_next solid ?_
  rw [Token.next, mark]

/-- A blank between tokens does not count. -/
theorem tokens_blank {c : Char} (blank : isSpacing c = true) (rest : List Char) :
    tokens (c :: rest) = tokens rest := by
  rw [tokens, if_pos blank]

/-- Blanks between tokens do not count. -/
theorem tokens_blanks {front : List Char} (blank : ∀ c ∈ front, isSpacing c = true)
    (rest : List Char) : tokens (front ++ rest) = tokens rest := by
  induction front with
  | nil => rfl
  | cons c more ih =>
    obtain ⟨own, others⟩ := List.forall_mem_cons.mp blank
    rw [List.cons_append, tokens_blank own, ih others]

/-- A break of lines is no token. -/
theorem tokens_lineBreak (depth : Nat) (rest : List Char) :
    tokens (lineBreak depth ++ rest) = tokens rest := by
  refine tokens_blanks (fun c present => ?_) rest
  rcases List.mem_cons.mp present with rfl | blank
  · rfl
  · rw [List.eq_of_mem_replicate blank]
    rfl

/-- A text between quotes is one token. -/
theorem tokens_text (text : String) (rest : List Char) :
    tokens (writtenText writtenAscii text ++ rest) = .text text :: tokens rest := by
  have read := readText_flatMap text.toList rest
  have written : writtenText writtenAscii text ++ rest =
      '"' :: (text.toList.flatMap writtenAscii ++ '"' :: rest) := by
    simp [writtenText]
  have noMark : Token.ofMark? '"' = none := rfl
  rw [written]
  refine tokens_of_next rfl ?_
  rw [Token.next, noMark]
  simp only [if_true, read, String.ofList_toList]

/-- A digit is no blank. -/
theorem isSpacing_of_digit {c : Char} (digit : isDigit c = true) : isSpacing c = false := by
  cases blank : isSpacing c with
  | false => rfl
  | true =>
    simp only [isSpacing, Bool.or_eq_true, decide_eq_true_eq] at blank
    rcases blank with ((rfl | rfl) | rfl) | rfl
    all_goals cases digit

/-- A digit begins a number. -/
theorem next_digit {c : Char} (digit : isDigit c = true) {rest behind : List Char} {number : Json}
    (read : readNumber false (c :: rest) = .ok (number, behind)) :
    Token.next c rest = (.scalar number, some behind) := by
  have noMark : Token.ofMark? c = none := by
    unfold Token.ofMark?
    split
    all_goals first | rfl | cases digit
  have noQuote : ¬c = '"' := by
    rintro rfl
    cases digit
  have scalar : readScalar? c rest = some (readNumber false (c :: rest)) := by
    unfold readScalar?
    split
    all_goals first | cases digit | skip
    exact if_pos digit
  rw [Token.next, noMark]
  simp only [noQuote, if_false, scalar, read]

/-- A whole number is one token. -/
theorem tokens_int {value : Int} (fits : Number.Fits (.int value)) {rest : List Char}
    (ends : EndsNumber rest) :
    tokens (writtenInt value ++ rest) = .scalar (num (.int value)) :: tokens rest := by
  obtain ⟨least, most⟩ := fits
  unfold writtenInt
  split
  case isTrue below =>
    have read := readNumber_decimal (wholeNumber?_below below least) ends
    have noMark : Token.ofMark? '-' = none := rfl
    have noQuote : '-' ≠ '"' := by decide
    have scalar : readScalar? '-' (decimal value.natAbs ++ rest) =
        some (readNumber true (decimal value.natAbs ++ rest)) := rfl
    refine tokens_of_next rfl ?_
    rw [List.append_eq, Token.next, noMark]
    simp only [noQuote, if_false, scalar, read]
  case isFalse above =>
    have read := readNumber_decimal (wholeNumber?_above (Int.not_lt.mp above) most) ends
    obtain ⟨first, more, digits⟩ := List.exists_cons_of_ne_nil (Numeric.decimal_ne_nil value.natAbs)
    have digit : isDigit first = true := by
      refine Numeric.isDigit_of_mem_decimal (n := value.natAbs) ?_
      rw [digits]
      exact List.mem_cons_self
    rw [digits] at read ⊢
    exact tokens_of_next (isSpacing_of_digit digit) (next_digit digit read)

/-- Nothing goes on with a number where a line is broken or a mark stands. -/
theorem endsNumber_cons {c : Char} (mark : isDigit c = false ∧ c ≠ '.' ∧ c ≠ 'e' ∧ c ≠ 'E')
    (rest : List Char) : EndsNumber (c :: rest) := by
  intro first same
  cases same
  exact mark

/-- Behind an item no number goes on. -/
theorem endsNumber_laidOutItems (items : List Json) (depth : Nat) (rest : List Char) :
    EndsNumber (laidOutItems depth items ++ rest) := by
  cases items with
  | nil => exact endsNumber_cons (c := '\n') (by decide) _
  | cons item more => exact endsNumber_cons (c := ',') (by decide) _

/-- Behind a member no number goes on. -/
theorem endsNumber_laidOutMembers (members : Members) (depth : Nat) (rest : List Char) :
    EndsNumber (laidOutMembers depth members ++ rest) := by
  cases members with
  | nil => exact endsNumber_cons (c := '\n') (by decide) _
  | cons member more => exact endsNumber_cons (c := ',') (by decide) _

-- What stands behind an item is the rest of its array, so the rest of the text varies; it
-- never begins with anything that a number could take in.
mutual

/-- The text of a value is cut into the value's tokens. -/
theorem tokens_laidOut : (value : Json) → value.Each Fits → (depth : Nat) →
    (rest : List Char) → EndsNumber rest →
    tokens (laidOut depth value ++ rest) = tokensOf value ++ tokens rest
  | null, _, _, rest, _ => tokens_of_next (c := 'n') rfl rfl
  | bool true, _, _, rest, _ => tokens_of_next (c := 't') rfl rfl
  | bool false, _, _, rest, _ => tokens_of_next (c := 'f') rfl rfl
  | num (.int value), fits, _, rest, ends => tokens_int (fits _ rfl) ends
  | num (.real value), fits, _, _, _ => absurd (fits _ rfl) id
  | str text, _, _, rest, _ => tokens_text text rest
  | arr [], _, _, rest, _ => by
    rw [laidOut, tokensOf, List.cons_append, tokens_mark rfl, List.cons_append, tokens_mark rfl]
    rfl
  | arr (item :: items), fits, depth, rest, _ => by
    obtain ⟨_, itemFits, itemsFit⟩ := fits
    have first := tokens_laidOut item itemFits (depth + 1) _
      (endsNumber_laidOutItems items depth rest)
    have others := tokens_laidOutItems items itemsFit depth rest
    rw [laidOut, tokensOf]
    simp only [List.cons_append, List.append_assoc]
    rw [tokens_mark rfl, tokens_lineBreak, first, others]
  | obj [], _, _, rest, _ => by
    rw [laidOut, tokensOf, List.cons_append, tokens_mark rfl, List.cons_append, tokens_mark rfl]
    rfl
  | obj ((key, value) :: members), fits, depth, rest, _ => by
    obtain ⟨_, valueFits, membersFit⟩ := fits
    have first := tokens_laidOut value valueFits (depth + 1) _
      (endsNumber_laidOutMembers members depth rest)
    have others := tokens_laidOutMembers members membersFit depth rest
    rw [laidOut, tokensOf]
    simp only [List.cons_append, List.append_assoc]
    rw [tokens_mark rfl, tokens_lineBreak, tokens_text, tokens_mark rfl, tokens_blank rfl, first,
      others]

/-- The text of an array behind its first item is cut into its tokens. -/
theorem tokens_laidOutItems : (items : List Json) → EachItem Fits items → (depth : Nat) →
    (rest : List Char) →
    tokens (laidOutItems depth items ++ rest) = itemTokens items ++ tokens rest
  | [], _, depth, rest => by
    rw [laidOutItems, itemTokens, List.append_assoc, tokens_lineBreak]
    exact tokens_mark rfl rest
  | item :: items, fits, depth, rest => by
    obtain ⟨itemFits, itemsFit⟩ := fits
    have first := tokens_laidOut item itemFits (depth + 1) _
      (endsNumber_laidOutItems items depth rest)
    have others := tokens_laidOutItems items itemsFit depth rest
    rw [laidOutItems, itemTokens]
    simp only [List.cons_append, List.append_assoc]
    rw [tokens_mark rfl, tokens_lineBreak, first, others]

/-- The text of an object behind its first member is cut into its tokens. -/
theorem tokens_laidOutMembers : (members : Members) → EachMember Fits members →
    (depth : Nat) → (rest : List Char) →
    tokens (laidOutMembers depth members ++ rest) = memberTokens members ++ tokens rest
  | [], _, depth, rest => by
    rw [laidOutMembers, memberTokens, List.append_assoc, tokens_lineBreak]
    exact tokens_mark rfl rest
  | (key, value) :: members, fits, depth, rest => by
    obtain ⟨valueFits, membersFit⟩ := fits
    have first := tokens_laidOut value valueFits (depth + 1) _
      (endsNumber_laidOutMembers members depth rest)
    have others := tokens_laidOutMembers members membersFit depth rest
    rw [laidOutMembers, memberTokens]
    simp only [List.cons_append, List.append_assoc]
    rw [tokens_mark rfl, tokens_lineBreak, tokens_text, tokens_mark rfl, tokens_blank rfl, first,
      others]

end

/-- The canonical text of a value is cut into the tokens of the value arranged. -/
theorem tokens_canonicalChars {value : Json} (fits : value.arranged.Each Fits) :
    tokens (canonicalChars value) = tokensOf value.arranged := by
  have ends : EndsNumber ['\n'] := endsNumber_cons (by decide) []
  rw [canonicalChars, tokens_laidOut _ fits 0 _ ends, tokens_blank rfl, tokens, List.append_nil]

end AllowList.Json
