import AllowList.Proofs.Source.Sections
import AllowList.Proofs.Text.Places

/-!
# What labels point at

Each label of an issue is about a part of its line's content: the word in front of a
name, when that is no keyword there; the name, when it holds white space; and otherwise
all of the content. The parts are told by the language of source lists. A label's span
is counted from the offset of the content, so it is right when what the reader has
passed over is what stands in front of the part.
-/

namespace AllowList.Source

open Text

/-- The body of a content: what stands behind its marker and the gap there, or, without
a marker, all of it. -/
inductive BodyOf (content : List Char) : List Char → Prop where
  | marked {body : List Char} (marker : Marker) (marked : IsMarked content marker body) :
    BodyOf content body
  | unmarked (unbracketed : content.head? ≠ some '[')
    (unmarked : ∀ marker rest, ¬IsMarked content marker rest) : BodyOf content content

/-- A body whose first word has a name behind it: all that follows the gap. -/
def QualifiedBody (body word name : List Char) : Prop :=
  ∃ gap, IsWord word ∧ IsGapRun gap ∧ Stops isGap name ∧ body = word ++ gap ++ name

/-- What a label is about: for a foreign keyword the primary label is about the word in
front of the name, a label on white space in a name is about all of that name, and any
other label is about the content. -/
structure IsAbout (content : List Char) (cause : Cause) (label : Label) (part : List Char) :
    Prop where
  keyword : cause.code = .unknownKeyword → label.isPrimary = true →
    ∃ body name, BodyOf content body ∧ TwoWords body part name
  name : label.message = "name contains whitespace" →
    ∃ body word, BodyOf content body ∧ QualifiedBody body word part
  content : ¬(cause.code = .unknownKeyword ∧ label.isPrimary = true) →
    label.message ≠ "name contains whitespace" → part = content

/-- What is split off a content and what is left are all of it. -/
theorem Marked.eq_append {content : List Char} {marked : Marked}
    (read : Marked.ofChars? content = some marked) : content = marked.opening ++ marked.body := by
  cases content with
  | nil => cases read
  | cons c rest =>
    obtain ⟨marker, _, split⟩ := Option.bind_eq_some_iff.mp read
    split at split
    · cases split
      simp
    · cases split

namespace Line

/-- A label of a line is about a part of its content, and its span is that part's. -/
def Labelled (line : Line) (cause : Cause) (label : Label) : Prop :=
  ∃ before part after, line.content = before ++ part ++ after ∧
    label.span = line.spanOf before part ∧ IsAbout line.content cause label part

/-- A label on all of the content, of an issue that asks for no other part. -/
theorem labelled_content (line : Line) {cause : Cause} {label : Label}
    (span : label.span = line.span)
    (keyword : ¬(cause.code = .unknownKeyword ∧ label.isPrimary = true))
    (name : label.message ≠ "name contains whitespace") : line.Labelled cause label := by
  refine ⟨[], line.content, [], by simp, span, ?_⟩
  exact
    { keyword := fun code primary => absurd ⟨code, primary⟩ keyword
      name := fun same => absurd same name
      content := fun _ _ => rfl }

/-- What is wrong with a body is labelled where it stands. -/
theorem labelled_of_nameOf {line : Line} {role : Role} {unqualified : Option Namespace}
    {before chars : List Char} {cause : Cause} (split : line.content = before ++ chars)
    (isBody : BodyOf line.content chars) (ends : EndsClear chars)
    (fault : nameOf line role unqualified before chars = .error cause) {label : Label}
    (present : label ∈ cause.labels line.span) : line.Labelled cause label := by
  unfold nameOf at fault
  cases read : Body.ofChars? chars with
  | none =>
    rw [read] at fault
    cases fault
    cases List.mem_singleton.mp present
    have other : "entry has no name" ≠ "name contains whitespace" := by decide
    exact line.labelled_content rfl (by simp [Cause.code]) other
  | some body =>
    simp only [read] at fault
    rcases Body.of_ofChars?_eq_some read with
      ⟨alone, single, rfl⟩ | ⟨word, gap, qualified, first, run, parts⟩
    · rw [if_neg (by simp [single.any_isBlank]), alone] at fault
      cases fault
    have stops := Body.stops_name read
    have nonempty := Body.name_ne_nil ends read
    rw [qualified] at fault
    by_cases spaced : body.name.any isBlank = true
    · rw [if_pos spaced] at fault
      cases fault
      cases List.mem_singleton.mp present
      have front : body.beforeName = word ++ gap := by rw [Body.beforeName, qualified]
      refine ⟨before ++ (word ++ gap), body.name, [], by simp [split, parts], ?_, ?_⟩
      · simp only [front]
      · exact
          { keyword := fun code => by cases code
            name := fun _ => ⟨chars, word, isBody, gap, first, run, stops, parts⟩
            content := fun _ other => absurd rfl other }
    · rw [if_neg spaced] at fault
      have clear : ∀ c ∈ body.name, isBlank c = false := by simpa using spaced
      have double : TwoWords chars word body.name := ⟨gap, first, run, ⟨nonempty, clear⟩, parts⟩
      cases found : qualify? role word with
      | some space =>
        simp only [found] at fault
        cases fault
      | none =>
        simp only [found] at fault
        cases fault
        rcases List.mem_cons.mp present with rfl | second
        · have other : "not a namespace keyword here" ≠ "name contains whitespace" := by decide
          refine ⟨before, word, gap ++ body.name, by simp [split, parts], rfl, ?_⟩
          exact
            { keyword := fun _ _ => ⟨chars, body.name, isBody, double⟩
              name := fun same => absurd same other
              content := fun neither => absurd ⟨rfl, rfl⟩ neither }
        · cases List.mem_singleton.mp second
          have other : "in this entry" ≠ "name contains whitespace" := by decide
          exact line.labelled_content rfl (by simp) other

/-- What a line is refused for is labelled where it stands. -/
theorem labelled_of_read {line : Line} (ends : EndsClear line.content) {cause : Cause}
    (refused : line.read = .error cause) {label : Label}
    (present : label ∈ cause.labels line.span) : line.Labelled cause label := by
  by_cases empty : line.content = []
  · rw [read_of_empty empty] at refused
    cases refused
  by_cases bracket : line.content.head? = some '['
  · rw [read_of_bracket bracket] at refused
    split at refused
    · cases refused
    · cases refused
      cases List.mem_singleton.mp present
      have other : "unrecognised section marker" ≠ "name contains whitespace" := by decide
      exact line.labelled_content rfl (by simp [Cause.code]) other
  cases found : Marked.ofChars? line.content with
  | some marked =>
    rw [read_of_marked found] at refused
    have isMarked := Marked.isMarked found
    exact labelled_of_nameOf (Marked.eq_append found) (.marked marked.marker isMarked)
      (isMarked.endsClear ends) (error_of_map refused) present
  | none =>
    rw [read_of_unmarked empty bracket found] at refused
    exact labelled_of_nameOf (List.nil_append _).symm
      (.unmarked bracket (not_isMarked_of_ofChars?_eq_none found)) ends (error_of_map refused)
      present

/-- A warning is labelled on all of the content. -/
theorem labelled_of_warning? {line : Line} {issue : Issue} (warned : line.warning? = some issue)
    {label : Label} (present : label ∈ issue.cause.labels line.span) :
    line.Labelled issue.cause label := by
  obtain ⟨name, _, rfl⟩ := Option.map_eq_some_iff.mp warned
  cases List.mem_singleton.mp present
  have other : "ignored" ≠ "name contains whitespace" := by decide
  exact line.labelled_content rfl (by simp [Cause.code]) other

end Line

end AllowList.Source
