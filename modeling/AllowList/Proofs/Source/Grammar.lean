import AllowList.Proofs.Text.Parts
import AllowList.Source.Entry

/-!
# The language of source lists

What a line may say, told by its shape and not by how it is read: a row's content
is what stands before its first comment mark, trimmed; a body is a name, or a word,
a gap and a name; and an entry is a body behind a mark, a body on its own, or a
bracketed section mark. Nothing here scans a text.

Below each shape stands what the reader makes of it. A gap is as long as it can be
because neither a word nor a name holds a blank, so a text has at most one shape and
the scans find it.
-/

namespace AllowList

open Text

namespace Source

/-- The mark in front of a comment. -/
def slashes : List Char := ['/', '/']

/-- What stands in a row before its first comment mark: all of the row if it has no
such mark. -/
inductive BeforeComment : List Char → List Char → Prop where
  | whole {row : List Char} (unmarked : ¬slashes <:+: row) : BeforeComment row row
  | cut (part rest : List Char) (first : ¬slashes <:+: part ++ ['/']) :
    BeforeComment (part ++ slashes ++ rest) part

/-- The content of a row: what stands before its comment, trimmed. -/
def IsContent (row content : List Char) : Prop :=
  ∃ written, BeforeComment row written ∧ IsTrimmed written content

/-- A gap between words: spaces and tabs, at least one. -/
def IsGapRun (gap : List Char) : Prop :=
  gap ≠ [] ∧ ∀ c ∈ gap, isGap c = true

/-- A word or a name: characters that are not white space, at least one. -/
def IsWord (word : List Char) : Prop :=
  word ≠ [] ∧ ∀ c ∈ word, isBlank c = false

/-- A body of two words: a word, a gap and a name. -/
def TwoWords (body word name : List Char) : Prop :=
  ∃ gap, IsWord word ∧ IsGapRun gap ∧ IsWord name ∧ body = word ++ gap ++ name

end Source

open Source

/-- The keywords that qualify an entry of a role. -/
def Role.keywords : Role → List (String × Namespace)
  | .element => [("svg", .svg), ("math", .mathml)]
  | .attr => [("xlink", .xlink), ("xml", .xml), ("xmlns", .xmlns)]

/-- The namespace of a name that no keyword qualifies. -/
def Role.unqualified : Role → Option Namespace
  | .element => some .html
  | .attr => none

/-- A body stands for a qualified name in a role. -/
inductive Role.Names (role : Role) : List Char → QName → Prop where
  | alone {name : List Char} (single : IsWord name) :
    Names role name ⟨role.unqualified, String.ofList name⟩
  | qualified {body word name : List Char} {space : Namespace} (double : TwoWords body word name)
    (keyword : (String.ofList word, space) ∈ role.keywords) :
    Names role body ⟨some space, String.ofList name⟩

/-- A body of two words whose first qualifies no entry of the role. -/
def Role.Misqualified (role : Role) (body : List Char) : Prop :=
  ∃ word name, TwoWords body word name ∧ ∀ space, (String.ofList word, space) ∉ role.keywords

namespace Source

/-- The character that a marker is written with. -/
def Marker.char : Marker → Char
  | .allow => '-'
  | .remove => '!'

/-- A content begins with a marker, behind which nothing or a gap stands. -/
def IsMarked (content : List Char) (marker : Marker) (rest : List Char) : Prop :=
  content = [marker.char] ∧ rest = [] ∨
    ∃ gap, IsGapRun gap ∧ content = marker.char :: gap ++ rest

/-- A content that asks for an entry. -/
inductive Yields : List Char → Entry → Prop where
  | globalSection {content : List Char} (opens : content.head? = some '[')
    (closes : "Global]".toList <:+ content) : Yields content .globalSection
  | attr {content body : List Char} {name : QName} (marker : Marker)
    (marked : IsMarked content marker body) (names : Role.attr.Names body name) :
    Yields content (marker.entry name)
  | element {content : List Char} {name : QName} (unbracketed : content.head? ≠ some '[')
    (unmarked : ∀ marker rest, ¬IsMarked content marker rest)
    (names : Role.element.Names content name) : Yields content (.element name)

/-- A content that is refused for its keyword: its body, behind the mark if there is
one, has two words, and the first is no keyword there. -/
inductive Foreign : List Char → Prop where
  | attr {content body : List Char} (marker : Marker) (marked : IsMarked content marker body)
    (misqualified : Role.attr.Misqualified body) : Foreign content
  | element {content : List Char} (unbracketed : content.head? ≠ some '[')
    (unmarked : ∀ marker rest, ¬IsMarked content marker rest)
    (misqualified : Role.element.Misqualified content) : Foreign content

/-- A comment mark stands in front, or it stands further behind. -/
theorem slashes_infix_cons {c : Char} {rest : List Char} :
    slashes <:+: c :: rest ↔ (c = '/' ∧ rest.head? = some '/') ∨ slashes <:+: rest := by
  rw [List.infix_cons_iff]
  refine or_congr_left ?_
  cases rest with
  | nil => simp [slashes]
  | cons next more => simp [slashes, List.cons_prefix_cons, eq_comm]

/-- A row without a comment mark stays as it is. -/
theorem uncommented_of_unmarked {row : List Char} (unmarked : ¬slashes <:+: row) :
    uncommented row = row := by
  induction row with
  | nil => rfl
  | cons c rest ih =>
    rw [slashes_infix_cons, not_or] at unmarked
    rw [uncommented, if_neg unmarked.1, ih unmarked.2]

/-- A row with a comment mark begins with what stands in front of the mark, or with the
mark's first character. -/
theorem head?_of_cut (part rest : List Char) :
    (part ++ slashes ++ rest).head? = (part ++ ['/']).head? := by
  cases part <;> rfl

/-- A row is cut at its first comment mark. The induction walks over the part in
front: no mark begins in it, not even with its last character. -/
theorem uncommented_of_cut {part : List Char} (rest : List Char)
    (first : ¬slashes <:+: part ++ ['/']) : uncommented (part ++ slashes ++ rest) = part := by
  induction part with
  | nil => simp [slashes, uncommented]
  | cons c part ih =>
    rw [List.cons_append, slashes_infix_cons, not_or] at first
    rw [List.cons_append, List.cons_append, uncommented, head?_of_cut, if_neg first.1,
      ih first.2]

/-- What is kept of a row stands before its first comment mark. -/
theorem beforeComment_uncommented (row : List Char) : BeforeComment row (uncommented row) := by
  induction row with
  | nil => exact .whole (by simp [slashes])
  | cons c rest ih =>
    rw [uncommented]
    split
    case isTrue mark =>
      obtain ⟨rfl, second⟩ := mark
      obtain ⟨more, rfl⟩ := List.head?_eq_some_iff.mp second
      exact .cut [] more (by simp [slashes, List.infix_cons_iff])
    case isFalse unmarked =>
      generalize kept : uncommented rest = part at ih ⊢
      cases ih with
      | whole none => exact .whole fun marked => (slashes_infix_cons.mp marked).elim unmarked none
      | cut _ more first =>
        refine .cut (c :: part) more fun marked => ?_
        refine (slashes_infix_cons.mp marked).elim (fun opens => unmarked ⟨opens.1, ?_⟩) first
        rw [head?_of_cut]
        exact opens.2

/-- What is kept of a row is what stands before its first comment mark. -/
theorem beforeComment_iff {row part : List Char} :
    BeforeComment row part ↔ uncommented row = part := by
  constructor
  · intro before
    cases before with
    | whole unmarked => exact uncommented_of_unmarked unmarked
    | cut _ rest first => exact uncommented_of_cut rest first
  · rintro rfl
    exact beforeComment_uncommented row

/-- A row has one content: what is left of it when its comment is cut off and it is trimmed. -/
theorem isContent_iff_trim {row content : List Char} :
    IsContent row content ↔ trim (uncommented row) = content := by
  simp only [IsContent, beforeComment_iff, isTrimmed_iff, exists_eq_left']

/-- A row has one content, and it is the content of the row's line. -/
theorem isContent_iff {row : Row} {content : List Char} :
    IsContent row.chars content ↔ content = (Line.ofRow row).content := by
  rw [isContent_iff_trim]
  exact eq_comm

end Source

end AllowList
