import AllowList.Json.Canonical
import Mathlib.Tactic.SplitIfs

/-!
# Characters of canonical text

Whatever characters a value's texts and keys hold, its canonical text is made of visible
ASCII characters, blanks and newlines: a character beyond ASCII is written by the hexadecimal
digits of its code units, and a number by digits, signs, a point and a letter. Only the breaks
of lines are newlines, since a newline of a text is escaped.
-/

namespace AllowList.Json

open Numeric (decimal isDigit)

/-- A character of ASCII that is no control, or the last one. -/
def IsPlain (c : Char) : Prop :=
  0x20 ≤ c.toNat ∧ c.toNat ≤ 0x7F

instance : DecidablePred IsPlain := fun _ => inferInstanceAs (Decidable (_ ∧ _))

/-- Whether a character may stand in a number. -/
def inNumber (c : Char) : Bool :=
  isDigit c || c = '-' || c = '+' || c = '.' || c = 'e'

section Texts

/-- Hexadecimal digits are plain. -/
theorem isPlain_of_mem_hexPadded {count n : Nat} {c : Char}
    (present : c ∈ Text.hexPadded count n) : IsPlain c := by
  induction count generalizing n with
  | zero => cases present
  | succ count ih =>
    rw [Text.hexPadded] at present
    rcases List.mem_append.mp present with front | last
    · exact ih front
    · have each : ∀ digit < 16, IsPlain (Text.hexDigit digit) := by decide
      rw [List.mem_singleton.mp last]
      exact each (n % 16) (Nat.mod_lt n (by decide))

/-- The escape of a code unit is plain. -/
theorem isPlain_of_mem_escapedUnit {unit : Nat} {c : Char} (present : c ∈ escapedUnit unit) :
    IsPlain c := by
  unfold escapedUnit at present
  rcases List.mem_cons.mp present with rfl | behind
  · decide
  · rcases List.mem_cons.mp behind with rfl | digit
    · decide
    · exact isPlain_of_mem_hexPadded digit

/-- The letter of an escape is plain. -/
theorem isPlain_of_escapeLetter? {c letter : Char} (escape : escapeLetter? c = some letter) :
    IsPlain letter := by
  unfold escapeLetter? at escape
  split_ifs at escape
  all_goals
    cases escape
    decide

/-- What is written for a character is plain. -/
theorem isPlain_of_mem_writtenAscii {c shown : Char} (present : shown ∈ writtenAscii c) :
    IsPlain shown := by
  by_cases ascii : c.toNat < 128
  · rw [writtenAscii, if_pos ascii, writtenChar] at present
    split at present
    case h_1 letter escape =>
      rcases List.mem_cons.mp present with rfl | last
      · decide
      · rw [List.mem_singleton.mp last]
        exact isPlain_of_escapeLetter? escape
    case h_2 =>
      by_cases control : c.toNat < 32
      · rw [if_pos control] at present
        exact isPlain_of_mem_escapedUnit present
      · rw [if_neg control, List.mem_singleton] at present
        rw [present]
        constructor <;> omega
  · rw [writtenAscii, if_neg ascii] at present
    obtain ⟨unit, _, inside⟩ := List.mem_flatMap.mp present
    exact isPlain_of_mem_escapedUnit inside

/-- A written text is plain. -/
theorem isPlain_of_mem_writtenText {text : String} {c : Char}
    (present : c ∈ writtenText writtenAscii text) : IsPlain c := by
  unfold writtenText at present
  rcases List.mem_append.mp present with front | last
  · rcases List.mem_cons.mp front with rfl | inside
    · decide
    · obtain ⟨own, _, written⟩ := List.mem_flatMap.mp inside
      exact isPlain_of_mem_writtenAscii written
  · rw [List.mem_singleton.mp last]
    decide

end Texts

section Numbers

theorem inNumber_of_isDigit {c : Char} (digit : isDigit c = true) : inNumber c = true := by
  rw [inNumber, digit]
  rfl

/-- What may stand in a number is plain. -/
theorem isPlain_of_inNumber {c : Char} (inside : inNumber c = true) : IsPlain c := by
  simp only [inNumber, isDigit, Bool.or_eq_true, Bool.and_eq_true, decide_eq_true_eq] at inside
  rcases inside with ((((⟨least, most⟩ | rfl) | rfl) | rfl) | rfl)
  · constructor <;> omega
  all_goals decide

theorem inNumber_of_mem_decimal {n : Nat} {c : Char} (present : c ∈ decimal n) :
    inNumber c = true :=
  inNumber_of_isDigit (Numeric.isDigit_of_mem_decimal present)

theorem inNumber_of_mem_replicate {count : Nat} {c : Char}
    (present : c ∈ List.replicate count '0') : inNumber c = true := by
  rw [List.eq_of_mem_replicate present]
  rfl

variable {digits : List Char} (made : ∀ c ∈ digits, inNumber c = true) {power : Int}
include made

theorem inNumber_of_mem_writtenPoint {c : Char} (present : c ∈ writtenPoint digits power) :
    inNumber c = true := by
  have ofMarks {c : Char} (listed : c ∈ ['0', '.']) : inNumber c = true :=
    List.all_eq_true.mp rfl c listed
  unfold writtenPoint at present
  split at present
  case isTrue =>
    rcases List.mem_append.mp present with front | own
    · rcases List.mem_append.mp front with opening | zero
      · exact ofMarks opening
      · exact inNumber_of_mem_replicate zero
    · exact made c own
  case isFalse =>
    dsimp only at present
    split at present
    case isTrue =>
      rcases List.mem_append.mp present with front | closing
      · rcases List.mem_append.mp front with own | zero
        · exact made c own
        · exact inNumber_of_mem_replicate zero
      · exact ofMarks (List.mem_reverse.mpr closing)
    case isFalse =>
      rcases List.mem_append.mp present with whole | behind
      · exact made c (List.mem_of_mem_take whole)
      · rcases List.mem_cons.mp behind with rfl | fraction
        · rfl
        · exact made c (List.mem_of_mem_drop fraction)

theorem inNumber_of_mem_writtenPower {c : Char} (present : c ∈ writtenPower digits power) :
    inNumber c = true := by
  unfold writtenPower at present
  rcases List.mem_append.mp present with numeral | scale
  · split at numeral
    case h_1 first second more =>
      have own {c : Char} (listed : c ∈ first :: second :: more) := made c listed
      rcases List.mem_cons.mp numeral with rfl | behind
      · exact own List.mem_cons_self
      · rcases List.mem_cons.mp behind with rfl | fraction
        · rfl
        · exact own (List.mem_cons_of_mem first fraction)
    case h_2 => exact made c numeral
  · rcases List.mem_cons.mp scale with rfl | signed
    · rfl
    · rcases List.mem_cons.mp signed with sign | own
      · rw [sign]
        split <;> rfl
      · exact inNumber_of_mem_decimal own

omit made

/-- A number is made of digits, signs, a point and a letter. -/
theorem inNumber_of_mem_written {number : Json.Number} {c : Char}
    (present : c ∈ number.written) : inNumber c = true := by
  cases number with
  | int value =>
    rw [Number.written, writtenInt] at present
    split at present
    case isTrue =>
      rcases List.mem_cons.mp present with rfl | own
      · rfl
      · exact inNumber_of_mem_decimal own
    case isFalse => exact inNumber_of_mem_decimal present
  | real value =>
    rw [Number.written, writtenReal] at present
    generalize (if value.shortest.digits = 0 then 0 else _ : Int) = power at present
    have unsigned {c : Char} (listed : c ∈ if -5 ≤ power ∧ power < 16 then
        writtenPoint (decimal value.shortest.digits) power
        else writtenPower (decimal value.shortest.digits) power) : inNumber c = true := by
      split at listed
      · exact inNumber_of_mem_writtenPoint (fun _ => inNumber_of_mem_decimal) listed
      · exact inNumber_of_mem_writtenPower (fun _ => inNumber_of_mem_decimal) listed
    split at present
    case isTrue =>
      rcases List.mem_cons.mp present with rfl | own
      · rfl
      · exact unsigned own
    case isFalse => exact unsigned present

/-- A number takes at least one character. -/
theorem written_ne_nil (number : Json.Number) : number.written ≠ [] := by
  cases number with
  | int value =>
    rw [Number.written, writtenInt]
    split
    case isTrue => exact List.cons_ne_nil _ _
    case isFalse => exact Numeric.decimal_ne_nil value.natAbs
  | real value =>
    have digits := Numeric.decimal_ne_nil value.shortest.digits
    rw [Number.written, writtenReal]
    generalize (if value.shortest.digits = 0 then 0 else _ : Int) = power
    split
    case isTrue => exact List.cons_ne_nil _ _
    case isFalse =>
      split
      case isTrue =>
        unfold writtenPoint
        split
        case isTrue => exact List.cons_ne_nil _ _
        case isFalse =>
          dsimp only
          split
          case isTrue => exact List.append_ne_nil_of_right_ne_nil _ (List.cons_ne_nil _ _)
          case isFalse => exact List.append_ne_nil_of_right_ne_nil _ (List.cons_ne_nil _ _)
      case isFalse => exact List.append_ne_nil_of_right_ne_nil _ (List.cons_ne_nil _ _)

end Numbers

/-- Every character of a text is a newline or plain. -/
def Shown (chars : List Char) : Prop :=
  ∀ c ∈ chars, c = '\n' ∨ IsPlain c

section Shown

/-- What is plain is shown. -/
theorem shown_of_isPlain {chars : List Char} (plain : ∀ c ∈ chars, IsPlain c) : Shown chars :=
  fun c present => Or.inr (plain c present)

theorem shown_of_all {chars : List Char} (all : chars.all (IsPlain ·) = true) : Shown chars :=
  shown_of_isPlain fun c present => of_decide_eq_true (List.all_eq_true.mp all c present)

theorem shown_append {front back : List Char} (first : Shown front) (second : Shown back) :
    Shown (front ++ back) :=
  List.forall_mem_append.mpr ⟨first, second⟩

theorem shown_cons {c : Char} {chars : List Char} (plain : IsPlain c) (behind : Shown chars) :
    Shown (c :: chars) :=
  List.forall_mem_cons.mpr ⟨Or.inr plain, behind⟩

/-- A break of lines is a newline and blanks. -/
theorem shown_lineBreak (depth : Nat) : Shown (lineBreak depth) := by
  intro c present
  rcases List.mem_cons.mp present with rfl | blank
  · exact Or.inl rfl
  · rw [List.eq_of_mem_replicate blank]
    exact Or.inr (by decide)

theorem shown_writtenText (text : String) : Shown (writtenText writtenAscii text) :=
  shown_of_isPlain fun _ => isPlain_of_mem_writtenText

/-- An item on a line of its own shows. -/
theorem shown_item {mark : Char} (plain : IsPlain mark) (depth : Nat) {item rest : List Char}
    (own : Shown item) (behind : Shown rest) : Shown (mark :: lineBreak depth ++ item ++ rest) :=
  shown_append (shown_append (shown_cons plain (shown_lineBreak depth)) own) behind

/-- A member on a line of its own shows. -/
theorem shown_member {mark : Char} (plain : IsPlain mark) (depth : Nat) (key : String)
    {value rest : List Char} (own : Shown value) (behind : Shown rest) :
    Shown (mark :: lineBreak depth ++ writtenText writtenAscii key ++ ':' :: ' ' :: value ++
      rest) := by
  have named := shown_item plain depth (shown_writtenText key)
    (shown_cons (by decide : IsPlain ':') (shown_cons (by decide : IsPlain ' ') own))
  exact shown_append named behind

mutual

/-- The text of a value shows. -/
theorem shown_laidOut : (value : Json) → (depth : Nat) → Shown (laidOut depth value)
  | null, _ => shown_of_all rfl
  | bool true, _ => shown_of_all rfl
  | bool false, _ => shown_of_all rfl
  | num _, _ => shown_of_isPlain fun _ present =>
    isPlain_of_inNumber (inNumber_of_mem_written present)
  | str text, _ => shown_writtenText text
  | arr [], _ => shown_of_all rfl
  | arr (item :: items), depth =>
    shown_item (by decide) (depth + 1) (shown_laidOut item (depth + 1))
      (shown_laidOutItems items depth)
  | obj [], _ => shown_of_all rfl
  | obj ((key, value) :: members), depth =>
    shown_member (by decide) (depth + 1) key (shown_laidOut value (depth + 1))
      (shown_laidOutMembers members depth)

/-- The text of an array behind its first item shows. -/
theorem shown_laidOutItems : (items : List Json) → (depth : Nat) →
    Shown (laidOutItems depth items)
  | [], depth => shown_append (shown_lineBreak depth) (shown_cons (by decide) nofun)
  | item :: items, depth =>
    shown_item (by decide) (depth + 1) (shown_laidOut item (depth + 1))
      (shown_laidOutItems items depth)

/-- The text of an object behind its first member shows. -/
theorem shown_laidOutMembers : (members : Members) → (depth : Nat) →
    Shown (laidOutMembers depth members)
  | [], depth => shown_append (shown_lineBreak depth) (shown_cons (by decide) nofun)
  | (key, value) :: members, depth =>
    shown_member (by decide) (depth + 1) key (shown_laidOut value (depth + 1))
      (shown_laidOutMembers members depth)

end

end Shown

section Ends

/-- The last character is plain, and so no newline. -/
def EndsPlain (chars : List Char) : Prop :=
  ∃ front last, chars = front ++ [last] ∧ IsPlain last

theorem endsPlain_append {back : List Char} (ends : EndsPlain back) (front : List Char) :
    EndsPlain (front ++ back) := by
  obtain ⟨inner, last, rfl, plain⟩ := ends
  exact ⟨front ++ inner, last, (List.append_assoc ..).symm, plain⟩

/-- What is plain ends so, if there is something. -/
theorem endsPlain_of_isPlain {chars : List Char} (some : chars ≠ [])
    (plain : ∀ c ∈ chars, IsPlain c) : EndsPlain chars := by
  obtain ⟨front, last, rfl⟩ := (List.eq_nil_or_concat chars).resolve_left some
  exact ⟨front, last, List.concat_eq_append, plain last (by simp)⟩

/-- An array ends with its mark. -/
theorem endsPlain_laidOutItems (items : List Json) (depth : Nat) :
    EndsPlain (laidOutItems depth items) := by
  induction items with
  | nil => exact ⟨lineBreak depth, ']', rfl, by decide⟩
  | cons item items ih => exact endsPlain_append ih _

/-- An object ends with its mark. -/
theorem endsPlain_laidOutMembers (members : Members) (depth : Nat) :
    EndsPlain (laidOutMembers depth members) := by
  induction members with
  | nil => exact ⟨lineBreak depth, '}', rfl, by decide⟩
  | cons member members ih => exact endsPlain_append ih _

/-- The text of a value does not end with a newline. -/
theorem endsPlain_laidOut (value : Json) (depth : Nat) : EndsPlain (laidOut depth value) := by
  match value with
  | null => exact ⟨['n', 'u', 'l'], 'l', rfl, by decide⟩
  | bool true => exact ⟨['t', 'r', 'u'], 'e', rfl, by decide⟩
  | bool false => exact ⟨['f', 'a', 'l', 's'], 'e', rfl, by decide⟩
  | num number =>
    exact endsPlain_of_isPlain (written_ne_nil number) fun _ present =>
      isPlain_of_inNumber (inNumber_of_mem_written present)
  | str text => exact ⟨_, '"', rfl, by decide⟩
  | arr [] => exact ⟨['['], ']', rfl, by decide⟩
  | arr (item :: items) => exact endsPlain_append (endsPlain_laidOutItems items depth) _
  | obj [] => exact ⟨['{'], '}', rfl, by decide⟩
  | obj (member :: members) => exact endsPlain_append (endsPlain_laidOutMembers members depth) _

end Ends

end AllowList.Json
