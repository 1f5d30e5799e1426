import AllowList.Proofs.Json.Arranged
import AllowList.Proofs.Json.Characters
import AllowList.Proofs.Json.Spelling

/-!
# Lexemes of JSON text

A text is cut into lexemes without regard to what it means: marks, texts between quotes, as
they read, and words, which are whatever else stands between blanks. Words are kept as they
stand, so the number that a word means does not count here.

A text spells a value if its lexemes are those of the value, with the members of every object
in their places. The lexemes tell the keys of every object, and so do they tell whether the
value that a text spells is arranged: `isArranged_of_spells`.
-/

namespace AllowList.Json

/-- A piece of a JSON text. -/
inductive Lexeme where
  | mark (c : Char)
  /-- A text between quotes, as it reads. -/
  | text (content : String)
  /-- Characters that stand together, such as those of a number. -/
  | word (chars : List Char)
  /-- A quote behind which no text ends. -/
  | broken
  deriving DecidableEq, Repr

/-- Whether a character is a lexeme on its own. -/
def isMark (c : Char) : Bool :=
  (Token.ofMark? c).isSome

/-- Whether a character may stand in a word. -/
def inWord (c : Char) : Bool :=
  !(isSpacing c || isMark c || c = '"')

/-- The lexemes of a text. -/
def lexemes : List Char → List Lexeme
  | [] => []
  | c :: rest =>
    if isSpacing c then lexemes rest
    else if isMark c then .mark c :: lexemes rest
    else if c = '"' then
      match read : readText rest with
      | .error _ => [.broken]
      | .ok (chars, behind) =>
        have := length_of_readText read
        .text (String.ofList chars) :: lexemes behind
    else
      have := (List.dropWhile_suffix (l := rest) inWord).length_le
      .word (c :: rest.takeWhile inWord) :: lexemes (rest.dropWhile inWord)
termination_by chars => chars.length

mutual

/-- The lexemes that a value is spelled with. -/
def lexemesOf : Json → List Lexeme
  | null => [.word "null".toList]
  | bool true => [.word "true".toList]
  | bool false => [.word "false".toList]
  | num number => [.word number.written]
  | str text => [.text text]
  | arr [] => [.mark '[', .mark ']']
  | arr (item :: items) => .mark '[' :: (lexemesOf item ++ itemLexemes items)
  | obj [] => [.mark '{', .mark '}']
  | obj ((key, value) :: rest) =>
    .mark '{' :: .text key :: .mark ':' :: (lexemesOf value ++ memberLexemes rest)

/-- The lexemes of an array behind its first item. -/
def itemLexemes : List Json → List Lexeme
  | [] => [.mark ']']
  | item :: items => .mark ',' :: (lexemesOf item ++ itemLexemes items)

/-- The lexemes of an object behind its first member. -/
def memberLexemes : Members → List Lexeme
  | [] => [.mark '}']
  | (key, value) :: rest =>
    .mark ',' :: .text key :: .mark ':' :: (lexemesOf value ++ memberLexemes rest)

end

/-- A text spells a value: it is cut into the value's lexemes. -/
def Spells (text : String) (value : Json) : Prop :=
  lexemes text.toList = lexemesOf value

section Cut

theorem lexemes_blank {c : Char} (blank : isSpacing c = true) (rest : List Char) :
    lexemes (c :: rest) = lexemes rest := by
  rw [lexemes, if_pos blank]

theorem lexemes_mark {c : Char} (mark : isMark c = true) (solid : isSpacing c = false)
    (rest : List Char) : lexemes (c :: rest) = .mark c :: lexemes rest := by
  have noBlank : ¬isSpacing c = true := by simp [solid]
  rw [lexemes, if_neg noBlank, if_pos mark]

/-- A break of lines is no lexeme. -/
theorem lexemes_lineBreak (depth : Nat) (rest : List Char) :
    lexemes (lineBreak depth ++ rest) = lexemes rest := by
  rw [lineBreak, List.cons_append, lexemes_blank rfl]
  induction 2 * depth with
  | zero => rfl
  | succ count ih => rw [List.replicate_succ, List.cons_append, lexemes_blank rfl, ih]

/-- A written text is one lexeme, and reads as the text. -/
theorem lexemes_writtenText (text : String) (rest : List Char) :
    lexemes (writtenText writtenAscii text ++ rest) = .text text :: lexemes rest := by
  have read := readText_flatMap text.toList rest
  have noBlank : ¬isSpacing '"' = true := by decide
  have noMark : ¬isMark '"' = true := by decide
  rw [writtenText, List.append_assoc, List.cons_append, List.singleton_append, lexemes,
    if_neg noBlank, if_neg noMark, if_pos rfl]
  split
  case h_1 refused =>
    rw [read] at refused
    cases refused
  case h_2 accepted =>
    rw [read] at accepted
    cases accepted
    rw [String.ofList_toList]

/-- Characters of a word are one lexeme, if nothing behind them goes on with the word. -/
theorem lexemes_word (word : List Char) {rest : List Char} (some : word ≠ [])
    (made : ∀ c ∈ word, inWord c = true) (stops : Text.Stops inWord rest) :
    lexemes (word ++ rest) = .word word :: lexemes rest := by
  obtain ⟨c, more, rfl⟩ := List.exists_cons_of_ne_nil some
  obtain ⟨own, others⟩ := List.forall_mem_cons.mp made
  simp only [inWord, Bool.not_eq_true', Bool.or_eq_false_iff, decide_eq_false_iff_not] at own
  obtain ⟨⟨noBlank, noMark⟩, noQuote⟩ := own
  rw [List.cons_append, lexemes, if_neg (by simp [noBlank]), if_neg (by simp [noMark]),
    if_neg noQuote, Text.takeWhile_append_of_stops others stops,
    Text.dropWhile_append_of_stops others stops]

/-- What may stand in a number may stand in a word. -/
theorem inWord_of_inNumber {c : Char} (inside : inNumber c = true) : inWord c = true := by
  have noBlank : isSpacing c = false := by
    cases blank : isSpacing c with
    | false => rfl
    | true =>
      simp only [isSpacing, Bool.or_eq_true, decide_eq_true_eq] at blank
      rcases blank with ((rfl | rfl) | rfl) | rfl
      all_goals cases inside
  have noMark : isMark c = false := by
    unfold isMark Token.ofMark?
    split
    all_goals first | rfl | cases inside
  have noQuote : c ≠ '"' := by
    rintro rfl
    cases inside
  simp [inWord, noBlank, noMark, noQuote]

/-- A number is one lexeme. -/
theorem lexemes_number (number : Json.Number) {rest : List Char} (stops : Text.Stops inWord rest) :
    lexemes (number.written ++ rest) = .word number.written :: lexemes rest :=
  lexemes_word number.written (written_ne_nil number)
    (fun _ present => inWord_of_inNumber (inNumber_of_mem_written present)) stops

/-- No word goes on at a blank or a mark. -/
theorem stops_cons {c : Char} (ends : inWord c = false) (rest : List Char) :
    Text.Stops inWord (c :: rest) := by
  rintro first ⟨⟩
  exact ends

/-- Behind an item no word goes on. -/
theorem stops_laidOutItems (items : List Json) (depth : Nat) (rest : List Char) :
    Text.Stops inWord (laidOutItems depth items ++ rest) := by
  cases items with
  | nil => exact stops_cons (c := '\n') (by decide) _
  | cons item more => exact stops_cons (c := ',') (by decide) _

/-- Behind a member no word goes on. -/
theorem stops_laidOutMembers (members : Members) (depth : Nat) (rest : List Char) :
    Text.Stops inWord (laidOutMembers depth members ++ rest) := by
  cases members with
  | nil => exact stops_cons (c := '\n') (by decide) _
  | cons member more => exact stops_cons (c := ',') (by decide) _

section Lines

variable {c : Char} (mark : isMark c = true) (solid : isSpacing c = false)
include mark solid

/-- A mark and a break of lines stand in front of an item. -/
theorem lexemes_item (depth : Nat) (item rest : List Char) :
    lexemes (c :: lineBreak depth ++ item ++ rest) = .mark c :: lexemes (item ++ rest) := by
  rw [List.append_assoc, List.cons_append, lexemes_mark mark solid, lexemes_lineBreak]

/-- A mark, a break of lines and the key stand in front of a member's value. -/
theorem lexemes_member (depth : Nat) (key : String) (value rest : List Char) :
    lexemes (c :: lineBreak depth ++ writtenText writtenAscii key ++ ':' :: ' ' :: value ++ rest) =
      .mark c :: .text key :: .mark ':' :: lexemes (value ++ rest) := by
  have colon : isMark ':' = true := rfl
  rw [List.append_assoc, lexemes_item mark solid, lexemes_writtenText, List.cons_append,
    lexemes_mark colon rfl, List.cons_append, lexemes_blank rfl]

end Lines

-- What stands behind a value is not fixed, so that an item can be followed by the rest of its
-- array; it only must not go on with a word.
mutual

/-- The text of a value is cut into the value's lexemes. -/
theorem lexemes_laidOut : (value : Json) → (depth : Nat) → (rest : List Char) →
    Text.Stops inWord rest →
    lexemes (laidOut depth value ++ rest) = lexemesOf value ++ lexemes rest
  | null, _, _, stops => lexemes_word "null".toList nofun (List.all_eq_true.mp rfl) stops
  | bool true, _, _, stops => lexemes_word "true".toList nofun (List.all_eq_true.mp rfl) stops
  | bool false, _, _, stops => lexemes_word "false".toList nofun (List.all_eq_true.mp rfl) stops
  | num number, _, _, stops => lexemes_number number stops
  | str text, _, rest, _ => lexemes_writtenText text rest
  | arr [], _, rest, _ => by
    rw [laidOut, List.cons_append, lexemes_mark rfl rfl, List.cons_append, lexemes_mark rfl rfl]
    rfl
  | arr (item :: items), depth, rest, _ => by
    have first := lexemes_laidOut item (depth + 1) _ (stops_laidOutItems items depth rest)
    have others := lexemes_laidOutItems items depth rest
    rw [laidOut, List.append_assoc, lexemes_item rfl rfl, first, others, lexemesOf,
      List.cons_append, List.append_assoc]
  | obj [], _, rest, _ => by
    rw [laidOut, List.cons_append, lexemes_mark rfl rfl, List.cons_append, lexemes_mark rfl rfl]
    rfl
  | obj ((key, value) :: members), depth, rest, _ => by
    have first := lexemes_laidOut value (depth + 1) _ (stops_laidOutMembers members depth rest)
    have others := lexemes_laidOutMembers members depth rest
    rw [laidOut, List.append_assoc, lexemes_member rfl rfl, first, others, lexemesOf]
    simp only [List.cons_append, List.append_assoc]

/-- The text of an array behind its first item is cut into its lexemes. -/
theorem lexemes_laidOutItems : (items : List Json) → (depth : Nat) → (rest : List Char) →
    lexemes (laidOutItems depth items ++ rest) = itemLexemes items ++ lexemes rest
  | [], depth, rest => by
    rw [laidOutItems, List.append_assoc, lexemes_lineBreak]
    exact lexemes_mark rfl rfl rest
  | item :: items, depth, rest => by
    have first := lexemes_laidOut item (depth + 1) _ (stops_laidOutItems items depth rest)
    have others := lexemes_laidOutItems items depth rest
    rw [laidOutItems, List.append_assoc, lexemes_item rfl rfl, first, others, itemLexemes,
      List.cons_append, List.append_assoc]

/-- The text of an object behind its first member is cut into its lexemes. -/
theorem lexemes_laidOutMembers : (members : Members) → (depth : Nat) → (rest : List Char) →
    lexemes (laidOutMembers depth members ++ rest) = memberLexemes members ++ lexemes rest
  | [], depth, rest => by
    rw [laidOutMembers, List.append_assoc, lexemes_lineBreak]
    exact lexemes_mark rfl rfl rest
  | (key, value) :: members, depth, rest => by
    have first := lexemes_laidOut value (depth + 1) _ (stops_laidOutMembers members depth rest)
    have others := lexemes_laidOutMembers members depth rest
    rw [laidOutMembers, List.append_assoc, lexemes_member rfl rfl, first, others, memberLexemes]
    simp only [List.cons_append, List.append_assoc]

end

end Cut

/-- The canonical text of a value spells the value arranged. -/
theorem spells_canonical (value : Json) : Spells value.canonical value.arranged := by
  have stops : Text.Stops inWord ['\n'] := stops_cons (by decide) []
  rw [Spells, canonical, String.toList_ofList, canonicalChars, lexemes_laidOut _ 0 _ stops,
    lexemes_blank rfl, lexemes, List.append_nil]

section Unambiguous

variable {behind rest : List Lexeme}

/-- Members with the same keys ascend if the others do. -/
theorem keysAscend_of_map_fst {left right : Members}
    (same : left.map Prod.fst = right.map Prod.fst) (ascends : KeysAscend left) :
    KeysAscend right := by
  induction left generalizing right with
  | nil =>
    rw [List.map_eq_nil_iff.mp same.symm]
    trivial
  | cons member left ih =>
    obtain ⟨other, more, rfl, key, keys⟩ := List.map_eq_cons_iff.mp same.symm
    obtain ⟨first, later⟩ := ascends
    constructor
    · intro next present
      have listed : next.1 ∈ left.map Prod.fst := keys ▸ List.mem_map_of_mem present
      obtain ⟨own, inside, sameKey⟩ := List.mem_map.mp listed
      rw [key, ← sameKey]
      exact first own inside
    · exact ih keys.symm later

/-- A value does not begin with the mark that closes an array. -/
theorem lexemesOf_ne_close (value : Json) : lexemesOf value ++ behind ≠ .mark ']' :: rest := by
  intro same
  match value with
  | null | bool true | bool false | num _ | str _ | arr [] | arr (_ :: _) | obj []
  | obj ((_, _) :: _) => cases same

/-- Lexemes of a value tell where it ends, and that whatever else is spelled with them is
arranged if the value is. -/
def Tells (value : Json) : Prop :=
  ∀ (other : Json) (behind rest : List Lexeme),
    lexemesOf value ++ behind = lexemesOf other ++ rest → value.IsArranged →
    other.IsArranged ∧ behind = rest

/-- Where a value begins with a lexeme that is no mark, it is a scalar. -/
theorem isArranged_of_scalar {lexeme : Lexeme} (scalar : ∀ c, lexeme ≠ .mark c) {value : Json}
    (same : lexeme :: behind = lexemesOf value ++ rest) : value.IsArranged ∧ behind = rest := by
  match value with
  | null | bool true | bool false | num _ | str _ => exact ⟨trivial, (List.cons.inj same).2⟩
  | arr [] | arr (_ :: _) | obj [] | obj ((_, _) :: _) =>
    exact absurd (List.cons.inj same).1 (scalar _)

/-- Items tell of an array what each of them tells. -/
theorem allArranged_of_itemLexemes {items others : List Json} (tells : ∀ item ∈ items, item.Tells)
    (same : itemLexemes items ++ behind = itemLexemes others ++ rest)
    (isArranged : AllArranged items) : AllArranged others ∧ behind = rest := by
  induction items generalizing others with
  | nil =>
    cases others with
    | nil => exact ⟨trivial, (List.cons.inj same).2⟩
    | cons other others => cases same
  | cons item items ih =>
    obtain ⟨own, later⟩ := List.forall_mem_cons.mp tells
    obtain ⟨itemArranged, itemsArranged⟩ := isArranged
    cases others with
    | nil => cases same
    | cons other others =>
      have inner := (List.cons.inj same).2
      rw [List.append_eq, List.append_eq, List.append_assoc, List.append_assoc] at inner
      obtain ⟨otherArranged, left⟩ := own other _ _ inner itemArranged
      obtain ⟨othersArranged, ends⟩ := ih later left itemsArranged
      exact ⟨⟨otherArranged, othersArranged⟩, ends⟩

/-- Members tell of an object what each of their values tells, and its keys. -/
theorem membersArranged_of_memberLexemes {members others : Members}
    (tells : ∀ member ∈ members, member.2.Tells)
    (same : memberLexemes members ++ behind = memberLexemes others ++ rest)
    (isArranged : MembersArranged members) :
    members.map Prod.fst = others.map Prod.fst ∧ MembersArranged others ∧ behind = rest := by
  induction members generalizing others with
  | nil =>
    cases others with
    | nil => exact ⟨rfl, trivial, (List.cons.inj same).2⟩
    | cons other others => cases same
  | cons member members ih =>
    obtain ⟨own, later⟩ := List.forall_mem_cons.mp tells
    obtain ⟨memberArranged, membersArranged⟩ := isArranged
    cases others with
    | nil => cases same
    | cons other others =>
      obtain ⟨key, value⟩ := member
      obtain ⟨otherKey, otherValue⟩ := other
      have named := List.cons.inj (List.cons.inj same).2
      have inner := (List.cons.inj named.2).2
      rw [List.append_eq, List.append_eq, List.append_assoc, List.append_assoc] at inner
      obtain ⟨valueArranged, left⟩ := own otherValue _ _ inner memberArranged
      obtain ⟨keys, othersArranged, ends⟩ := ih later left membersArranged
      have sameKey : key = otherKey := Lexeme.text.inj named.1
      refine ⟨?_, ⟨valueArranged, othersArranged⟩, ends⟩
      rw [List.map_cons, List.map_cons, keys, sameKey]

/-- Behind its opening mark an array is spelled like items behind a comma. -/
theorem tells_arr {items : List Json} (tells : ∀ item ∈ items, item.Tells) :
    (arr items).Tells := by
  intro other behind rest same isArranged
  cases items with
  | nil =>
    match other with
    | arr [] =>
      cases same
      exact ⟨trivial, rfl⟩
    | arr (first :: others) =>
      have closed := (List.cons.inj same).2.symm
      rw [List.append_eq, List.append_assoc] at closed
      exact absurd closed (lexemesOf_ne_close first)
    | null | bool true | bool false | num _ | str _ | obj [] | obj ((_, _) :: _) => cases same
  | cons item items =>
    match other with
    | arr [] =>
      have closed := (List.cons.inj same).2
      rw [List.append_eq, List.append_assoc] at closed
      exact absurd closed (lexemesOf_ne_close item)
    | arr (first :: others) =>
      have inner : itemLexemes (item :: items) ++ behind = itemLexemes (first :: others) ++ rest :=
        congrArg (List.cons (Lexeme.mark ',')) (List.cons.inj same).2
      exact allArranged_of_itemLexemes tells inner isArranged
    | null | bool true | bool false | num _ | str _ | obj [] | obj ((_, _) :: _) => cases same

/-- Behind its opening mark an object is spelled like members behind a comma. -/
theorem tells_obj {members : Members} (tells : ∀ member ∈ members, member.2.Tells) :
    (obj members).Tells := by
  intro other behind rest same isArranged
  obtain ⟨ascends, membersArranged⟩ := isArranged
  cases members with
  | nil =>
    match other with
    | obj [] =>
      cases same
      exact ⟨⟨trivial, trivial⟩, rfl⟩
    | null | bool true | bool false | num _ | str _ | arr [] | arr (_ :: _)
    | obj ((_, _) :: _) => cases same
  | cons member members =>
    match other with
    | obj (first :: others) =>
      have inner : memberLexemes (member :: members) ++ behind =
          memberLexemes (first :: others) ++ rest :=
        congrArg (List.cons (Lexeme.mark ',')) (List.cons.inj same).2
      obtain ⟨keys, othersArranged, ends⟩ :=
        membersArranged_of_memberLexemes tells inner membersArranged
      exact ⟨⟨keysAscend_of_map_fst keys ascends, othersArranged⟩, ends⟩
    | null | bool true | bool false | num _ | str _ | arr [] | arr (_ :: _) | obj [] => cases same

/-- The lexemes of every value tell so. -/
theorem tells (value : Json) : value.Tells := by
  induction value using containers_induction with
  | ofNull => exact fun _ _ _ same _ => isArranged_of_scalar (by simp) same
  | ofBool value =>
    cases value
    all_goals exact fun _ _ _ same _ => isArranged_of_scalar (by simp) same
  | ofNum number => exact fun _ _ _ same _ => isArranged_of_scalar (by simp) same
  | ofStr text => exact fun _ _ _ same _ => isArranged_of_scalar (by simp) same
  | ofArr items ih => exact tells_arr ih
  | ofObj members ih => exact tells_obj ih

/-- If a text spells an arranged value, then whatever value it spells is arranged. -/
theorem isArranged_of_spells {text : String} {value other : Json} (isArranged : value.IsArranged)
    (first : Spells text value) (second : Spells text other) : other.IsArranged := by
  have same : lexemesOf value ++ [] = lexemesOf other ++ [] := by
    rw [← first, ← second]
  exact (tells value other [] [] same isArranged).1

end Unambiguous

end AllowList.Json
