import AllowList.Proofs.Source.Labels
import AllowList.Proofs.Source.Placement
import Mathlib.Data.List.Nodup

/-!
# What is told about a list

Every line of a list has at most one issue, and the issues come in the order of lines. A
line has an error when the language of source lists refuses it, and a warning when it is
an attribute's line and nothing has been opened in front of it. A list is refused when
it has an error, and then all its issues are given, warnings too.

Each issue begins with the number of its line, and its labels cut parts out of that line.
-/

namespace AllowList.Source

open Text

/-- A row's content asks for an entry. -/
def RowYields (row : List Char) (entry : Entry) : Prop :=
  ∃ content, IsContent row content ∧ Yields content entry

/-- The line of a row holds what the row's content asks for. -/
theorem RowReadBy.entry?_eq_some_iff {row : List Char} {line : Line}
    (reads : RowReadBy row line) {entry : Entry} :
    line.entry? = some entry ↔ RowYields row entry := by
  obtain ⟨content, exactly⟩ := reads
  rw [Line.entry?_eq_some_iff, exactly.yields]
  simp only [RowYields, content, exists_eq_left]

/-- A line is an attribute's when its row asks for one. -/
theorem RowReadBy.attribute?_isSome_iff {row : List Char} {line : Line}
    (reads : RowReadBy row line) :
    line.attribute?.isSome = true ↔
      ∃ (marker : Marker) (name : QName), RowYields row (marker.entry name) := by
  simp only [← reads.entry?_eq_some_iff]
  cases held : line.entry? with
  | none => simp [Line.attribute?, Line.name?, held]
  | some entry =>
    constructor
    · intro given
      cases entry with
      | globalSection => simp [Line.attribute?, Line.name?, held, Entry.name?] at given
      | element name => simp [Line.attribute?, Line.name?, held, Entry.name?] at given
      | allow name => exact ⟨.allow, name, rfl⟩
      | remove name => exact ⟨.remove, name, rfl⟩
    · rintro ⟨marker, name, same⟩
      cases same
      cases marker <;> simp [Line.attribute?, Line.name?, held, Entry.name?, Marker.entry]

/-- A line opens nothing when its row asks for nothing that does. -/
theorem RowReadBy.opens_eq_false_iff {row : List Char} {line : Line}
    (reads : RowReadBy row line) :
    line.opens = false ↔ ∀ entry, RowYields row entry → entry.opens = false := by
  simp only [← reads.entry?_eq_some_iff, Line.opens, Option.any_eq_false]

/-- Lines are numbered from one on. -/
theorem map_number_ofText (text : String) :
    (Line.ofText text).map Line.number = List.range' 1 (rows text.toList).length := by
  have same : Line.number ∘ Line.ofRow = Row.number := rfl
  rw [Line.ofText, List.map_map, same, placed, map_number_placeRows]

/-- No two lines have one number. -/
theorem nodup_number_ofText (text : String) : ((Line.ofText text).map Line.number).Nodup := by
  rw [map_number_ofText]
  exact List.nodup_range'

/-- Lines with one number are one line. -/
theorem eq_of_number {text : String} {left right : Line} (leftPresent : left ∈ Line.ofText text)
    (rightPresent : right ∈ Line.ofText text) (same : left.number = right.number) :
    left = right :=
  List.inj_on_of_nodup_map (nodup_number_ofText text) leftPresent rightPresent same

/-- The row at a position has a line there, with that position's number. -/
theorem exists_line_of_row {text : String} {front back : List (List Char)} {row : List Char}
    (rowsOf : text.toList.splitOn '\n' = front ++ row :: back) :
    ∃ before line behind, Line.ofText text = before ++ line :: behind ∧
      List.Forall₂ RowReadBy front before ∧ RowReadBy row line ∧
      line.number = front.length + 1 := by
  rw [← map_chars_placed] at rowsOf
  obtain ⟨before, others, split, rfl, tail⟩ := List.map_eq_append_iff.mp rowsOf
  obtain ⟨placedRow, behind, rfl, rfl, rfl⟩ := List.map_eq_cons_iff.mp tail
  refine ⟨before.map Line.ofRow, Line.ofRow placedRow, behind.map Line.ofRow, ?_, ?_, ?_, ?_⟩
  · rw [Line.ofText, split, List.map_append, List.map_cons]
  · rw [List.forall₂_map_left_iff, List.forall₂_map_right_iff, List.forall₂_same]
    exact fun earlier _ => rowReadBy_ofRow earlier
  · exact rowReadBy_ofRow placedRow
  · rw [List.length_map]
    exact number_of_placed split

/-- The errors of a list are those of its refused lines. -/
theorem errors_ofText (flags : Flags) (text : String) :
    (Draft.ofText flags text).errors = (Line.ofText text).filterMap Line.issue? := by
  have ends : ∀ line ∈ Line.ofText text, EndsClear line.content := by
    intro line present
    obtain ⟨row, _, rfl⟩ := List.mem_map.mp present
    exact Line.endsClear_ofRow row
  exact Draft.errors_foldl (.empty flags) ends

/-- The issue of a refused line has the line's number. -/
theorem line_of_issue? {line : Line} {issue : Issue} (refused : line.issue? = some issue) :
    issue.line = line.number := by
  unfold Line.issue? at refused
  split at refused
  · cases refused
    rfl
  · cases refused

/-- The warning of an attribute's line has the line's number. -/
theorem line_of_warning? {line : Line} {issue : Issue} (warned : line.warning? = some issue) :
    issue.line = line.number := by
  obtain ⟨_, _, rfl⟩ := Option.map_eq_some_iff.mp warned
  rfl

/-- A line has an error when it is refused. -/
theorem exists_error_iff (flags : Flags) {text : String} {line : Line}
    (present : line ∈ Line.ofText text) :
    (∃ issue ∈ (Draft.ofText flags text).issues,
        issue.line = line.number ∧ issue.isError = true) ↔ line.issue?.isSome = true := by
  have listed (issue : Issue) : issue ∈ (Draft.ofText flags text).errors ↔
      issue ∈ (Draft.ofText flags text).issues ∧ issue.isError = true := List.mem_filter
  simp only [errors_ofText, List.mem_filterMap] at listed
  constructor
  · rintro ⟨issue, told, sameNumber, error⟩
    obtain ⟨other, otherPresent, refused⟩ := (listed issue).mpr ⟨told, error⟩
    have number : other.number = line.number := by
      rw [← sameNumber, line_of_issue? refused]
    rw [← eq_of_number otherPresent present number, refused]
    rfl
  · intro refused
    obtain ⟨issue, isIssue⟩ := Option.isSome_iff_exists.mp refused
    obtain ⟨told, error⟩ := (listed issue).mp ⟨line, present, isIssue⟩
    exact ⟨issue, told, line_of_issue? isIssue, error⟩

/-- A line is loose when neither it nor a line in front of it opens a section. -/
theorem mem_loose_iff {before behind : List Line} {line : Line}
    (once : (before ++ line :: behind).Nodup) :
    line ∈ (Division.ofLines (before ++ line :: behind)).loose ↔
      line.opens = false ∧ ∀ earlier ∈ before, earlier.opens = false := by
  constructor
  · intro loose
    have whole := Division.lines_ofLines (before ++ line :: behind)
    have closed := (Division.ofLines (before ++ line :: behind)).closed
    refine ⟨closed line loose, fun earlier inFront => ?_⟩
    rw [Division.lines, List.append_eq_append_iff] at whole
    rcases whole with ⟨middle, split, _⟩ | ⟨middle, split, _⟩
    · -- the loose lines end in front of the line, which is one of them
      have again : line ∈ before := by
        rw [split]
        exact List.mem_append_left middle loose
      have apart := (List.nodup_append.mp once).2.2
      exact absurd rfl (apart line again line List.mem_cons_self)
    · refine closed earlier ?_
      rw [split]
      exact List.mem_append_left middle inFront
  · rintro ⟨own, earlier⟩
    have closed : ∀ other ∈ before ++ [line], other.opens = false := by
      intro other present
      rcases List.mem_append.mp present with inFront | same
      · exact earlier other inFront
      · rw [List.mem_singleton.mp same]
        exact own
    have loose := (Division.ofLines_append closed behind).1
    rw [List.append_assoc, List.singleton_append] at loose
    rw [loose]
    simp

/-- A line has a warning when it is an attribute's and nothing has been opened. -/
theorem exists_warning_iff (flags : Flags) {text : String} {before behind : List Line}
    {line : Line} (lines : Line.ofText text = before ++ line :: behind) :
    (∃ issue ∈ (Draft.ofText flags text).issues,
        issue.line = line.number ∧ issue.isError = false) ↔
      line.attribute?.isSome = true ∧ ∀ earlier ∈ before, earlier.opens = false := by
  have present : line ∈ Line.ofText text := by simp [lines]
  have once : (before ++ line :: behind).Nodup := by
    rw [← lines]
    exact (nodup_number_ofText text).of_map
  have looseOf : Division.ofText text = Division.ofLines (before ++ line :: behind) := by
    rw [Division.ofText, lines]
  have listed (issue : Issue) : issue ∈ (Draft.ofText flags text).warnings ↔
      issue ∈ (Draft.ofText flags text).issues ∧ (!issue.isError) = true := List.mem_filter
  simp only [warnings_ofText, List.mem_filterMap, Bool.not_eq_true'] at listed
  constructor
  · rintro ⟨issue, told, sameNumber, warning⟩
    obtain ⟨other, otherLoose, warned⟩ := (listed issue).mpr ⟨told, warning⟩
    have otherPresent : other ∈ Line.ofText text := by
      rw [← Division.lines_ofLines (Line.ofText text)]
      exact List.mem_append_left _ otherLoose
    have number : other.number = line.number := by
      rw [← sameNumber, line_of_warning? warned]
    cases eq_of_number otherPresent present number
    rw [looseOf, mem_loose_iff once] at otherLoose
    refine ⟨?_, otherLoose.2⟩
    obtain ⟨name, given, _⟩ := Option.map_eq_some_iff.mp warned
    simp [given]
  · rintro ⟨given, earlier⟩
    obtain ⟨name, named⟩ := Option.isSome_iff_exists.mp given
    have warned : line.warning? = some ⟨line.number, line.span, .detached name⟩ := by
      rw [Line.warning?, named]
      rfl
    have loose : line ∈ (Division.ofText text).loose := by
      rw [looseOf, mem_loose_iff once]
      exact ⟨line.opens_of_attribute? given, earlier⟩
    obtain ⟨told, warning⟩ := (listed _).mp ⟨line, loose, warned⟩
    exact ⟨_, told, rfl, warning⟩

/-- Issues that lines have one by one keep the order of the lines. -/
theorem sublist_number {issueOf : Line → Option Issue}
    (own : ∀ line issue, issueOf line = some issue → issue.line = line.number)
    (lines : List Line) :
    ((lines.filterMap issueOf).map Issue.line).Sublist (lines.map Line.number) := by
  induction lines with
  | nil => exact List.Sublist.slnil
  | cons line rest ih =>
    cases told : issueOf line with
    | none =>
      rw [List.filterMap_cons_none told, List.map_cons]
      exact ih.cons line.number
    | some issue =>
      rw [List.filterMap_cons_some told, List.map_cons, List.map_cons, own line issue told]
      exact ih.cons_cons line.number

/-- The issue of a line has the line's number, whatever has been opened. -/
theorem line_of_issueIn? {place : Place} {line : Line} {issue : Issue}
    (told : line.issueIn? place = some issue) : issue.line = line.number := by
  rcases Option.or_eq_some_iff.mp told with refused | ⟨_, warned⟩
  · exact line_of_issue? refused
  · split at warned
    · exact line_of_warning? warned
    · cases warned

/-- The issues of a list come in the order of lines, at most one for each. -/
theorem pairwise_line_ofText (flags : Flags) (text : String) :
    ((Draft.ofText flags text).issues.map Issue.line).Pairwise (· < ·) := by
  obtain ⟨_, issues⟩ := Draft.foldl_step (Draft.sound_empty flags) (Line.ofText text)
  have own (line : Line) (issue : Issue) (told : line.issueIn? .detached = some issue) :
      issue.line = line.number := line_of_issueIn? told
  have loose := sublist_number own (Division.ofText text).loose
  have later := sublist_number (fun _ _ => line_of_issue?)
    ((Division.ofText text).sections.flatMap Section.lines)
  have whole := loose.append later
  rw [← List.map_append, ← List.map_append, ← Division.lines, Division.ofText,
    Division.lines_ofLines, map_number_ofText] at whole
  rw [Draft.ofText, issues]
  exact List.Pairwise.sublist whole List.pairwise_lt_range'

/-- What stands in front of a row's comment is the beginning of the row. -/
theorem uncommented_prefix (row : List Char) : uncommented row <+: row := by
  have before := beforeComment_uncommented row
  generalize uncommented row = part at before
  cases before with
  | whole _ => exact List.prefix_refl row
  | cut _ rest _ =>
    rw [List.append_assoc]
    exact List.prefix_append part (slashes ++ rest)

/-- The content of a line stands in its row behind the blanks in front of it. -/
theorem exists_eq_content (row : Row) :
    ∃ rest, row.chars =
      leading (uncommented row.chars) ++ (Line.ofRow row).content ++ rest := by
  obtain ⟨comment, commented⟩ := uncommented_prefix row.chars
  obtain ⟨blanks, written, _⟩ := exists_eq_trim (uncommented row.chars)
  have written : uncommented row.chars = leading (uncommented row.chars) ++
      (Line.ofRow row).content ++ blanks := written
  refine ⟨blanks ++ comment, ?_⟩
  rw [← List.append_assoc, ← written, commented]

/-- A part of a line's content lies in the line's row, and its span cuts it out of the text. -/
theorem cuts_spanOf {text : String} {row : Row} {front back : List Char}
    (stands : RowAt text.toList row.number front row.chars back)
    (start : row.start = byteLength front) {before part after : List Char}
    (content : (Line.ofRow row).content = before ++ part ++ after) :
    byteLength front ≤ ((Line.ofRow row).spanOf before part).start ∧
      ((Line.ofRow row).spanOf before part).stop ≤ byteLength (front ++ row.chars) ∧
      ((Line.ofRow row).spanOf before part).Cuts text part := by
  obtain ⟨rest, inRow⟩ := exists_eq_content row
  have offset : (Line.ofRow row).start =
      byteLength front + byteLength (leading (uncommented row.chars)) := by
    rw [← start]
    rfl
  generalize leading (uncommented row.chars) = blanks at inRow offset
  rw [content] at inRow
  have whole : text.toList = (front ++ blanks ++ before) ++ part ++ (after ++ rest ++ back) := by
    rw [stands.whole, inRow]
    simp only [List.append_assoc]
  have placed : (Line.ofRow row).spanOf before part =
      ⟨byteLength (front ++ blanks ++ before),
        byteLength (front ++ blanks ++ before) + byteLength part⟩ := by
    rw [Line.spanOf, offset]
    simp only [byteLength_append]
  rw [placed]
  refine ⟨?_, ?_, cuts_of_append whole⟩
  · simp only [byteLength_append]
    omega
  · rw [inRow]
    simp only [byteLength_append]
    omega

/-- The label of a line cuts what it is about out of the line's row. -/
theorem cuts_of_labelled {text : String} {row : Row} {front back : List Char}
    (stands : RowAt text.toList row.number front row.chars back)
    (start : row.start = byteLength front) {cause : Cause} {label : Label}
    (labelled : (Line.ofRow row).Labelled cause label) :
    ∃ part, byteLength front ≤ label.span.start ∧
      label.span.stop ≤ byteLength (front ++ row.chars) ∧ label.span.Cuts text part ∧
      IsAbout (Line.ofRow row).content cause label part := by
  obtain ⟨before, part, after, content, span, isAbout⟩ := labelled
  obtain ⟨begins, ends, cuts⟩ := cuts_spanOf stands start content
  rw [span]
  exact ⟨part, begins, ends, cuts, isAbout⟩

/-- An issue is that of a line, refused or worth a warning. -/
theorem exists_row_of_issue {flags : Flags} {text : String} {issue : Issue}
    (told : issue ∈ (Draft.ofText flags text).issues) :
    ∃ row ∈ placed text.toList, issue.line = row.number ∧
      ∀ label ∈ issue.diagnostic.labels, (Line.ofRow row).Labelled issue.cause label := by
  cases error : issue.isError with
  | true =>
    have listed : issue ∈ (Draft.ofText flags text).errors := List.mem_filter.mpr ⟨told, error⟩
    rw [errors_ofText, List.mem_filterMap] at listed
    obtain ⟨line, present, refused⟩ := listed
    obtain ⟨row, placedRow, rfl⟩ := List.mem_map.mp present
    refine ⟨row, placedRow, line_of_issue? refused, fun label labelled => ?_⟩
    unfold Line.issue? at refused
    split at refused
    case h_1 cause read =>
      cases refused
      exact Line.labelled_of_read (Line.endsClear_ofRow row) read labelled
    case h_2 => cases refused
  | false =>
    have listed : issue ∈ (Draft.ofText flags text).warnings :=
      List.mem_filter.mpr ⟨told, by rw [error]; rfl⟩
    rw [warnings_ofText, List.mem_filterMap] at listed
    obtain ⟨line, loose, warned⟩ := listed
    have present : line ∈ Line.ofText text := by
      rw [← Division.lines_ofLines (Line.ofText text)]
      exact List.mem_append_left _ loose
    obtain ⟨row, placedRow, rfl⟩ := List.mem_map.mp present
    refine ⟨row, placedRow, line_of_warning? warned, fun label labelled => ?_⟩
    refine Line.labelled_of_warning? warned ?_
    obtain ⟨name, _, rfl⟩ := Option.map_eq_some_iff.mp warned
    exact labelled

/-- A list is refused with all its issues, and only when one is an error. -/
theorem value_read_eq_error_iff (flags : Flags) (text : String) (found : List Issue) :
    (read flags text).value = .error found ↔
      found = (Draft.ofText flags text).issues ∧
        ∃ issue ∈ (Draft.ofText flags text).issues, issue.isError = true := by
  rw [value_read, Draft.finish, ← List.any_eq_true]
  cases (Draft.ofText flags text).issues.any Issue.isError with
  | true => simp [eq_comm]
  | false => simp

/-- An issue weighs as an error when its cause does. -/
theorem severity_eq_error_iff {issue : Issue} :
    issue.diagnostic.severity = .error ↔ issue.isError = true := by
  simp [Issue.diagnostic, Issue.isError]

/-- Only a detached attribute weighs less than an error. -/
theorem isWarning_iff {issue : Issue} :
    (issue.diagnostic.severity = .warning ∧
      issue.diagnostic.code.map Code.text = some "E200") ↔ issue.isError = false := by
  obtain ⟨_, _, cause⟩ := issue
  cases cause <;> simp [Issue.diagnostic, Issue.isError, Cause.severity, Cause.code, Code.text]

/-- Lines open nothing when their rows ask for nothing that does. -/
theorem forall_closed_iff {front : List (List Char)} {before : List Line}
    (reads : List.Forall₂ RowReadBy front before) :
    (∀ line ∈ before, line.opens = false) ↔
      ∀ earlier ∈ front, ∀ entry, RowYields earlier entry → entry.opens = false := by
  induction reads with
  | nil => simp
  | cons first _ ih =>
    rw [List.forall_mem_cons, List.forall_mem_cons, first.opens_eq_false_iff, ih]

/-- What is told about a list is complete, in order, and points at the right text.

The issues come in strictly ascending order of lines, so no line has two. A row has an
error exactly when the language refuses it, and an `E200` warning exactly when it asks
for an attribute and no row in front of it asks for an element or opens the global
section. The list is refused exactly when some issue is an error, with all its issues.

The message of each issue begins with the number of a row of the text. Every label lies
in that row, its ends cut no character in two, and what it cuts out is what it is about:
a part of the row's content. -/
theorem issues_tell_exactly (flags : Flags) (text : String) :
    ((Draft.ofText flags text).issues.map Issue.line).Pairwise (· < ·) ∧
    (∀ (front back : List (List Char)) (row : List Char),
      text.toList.splitOn '\n' = front ++ row :: back →
      ((∃ issue ∈ (Draft.ofText flags text).issues, issue.line = front.length + 1 ∧
          issue.diagnostic.severity = .error) ↔ ¬RowAccepted row) ∧
      ((∃ issue ∈ (Draft.ofText flags text).issues, issue.line = front.length + 1 ∧
          issue.diagnostic.severity = .warning ∧
          issue.diagnostic.code.map Code.text = some "E200") ↔
        (∃ (marker : Marker) (name : QName), RowYields row (marker.entry name)) ∧
          ∀ earlier ∈ front, ∀ entry, RowYields earlier entry → entry.opens = false)) ∧
    (∀ found, (read flags text).value = .error found ↔
      found = (Draft.ofText flags text).issues ∧
        ∃ issue ∈ (Draft.ofText flags text).issues, issue.diagnostic.severity = .error) ∧
    ∀ issue ∈ (Draft.ofText flags text).issues, ∃ front row back content,
      RowAt text.toList issue.line front row back ∧ IsContent row content ∧
      (∃ rest, issue.diagnostic.message = "line " ++ toString issue.line ++ ": " ++ rest) ∧
      ∀ label ∈ issue.diagnostic.labels, ∃ part, byteLength front ≤ label.span.start ∧
        label.span.stop ≤ byteLength (front ++ row) ∧ label.span.Cuts text part ∧
        IsAbout content issue.cause label part := by
  refine ⟨pairwise_line_ofText flags text, ?_, ?_, ?_⟩
  · intro front back row rowsOf
    obtain ⟨before, line, behind, lines, inFront, reads, number⟩ := exists_line_of_row rowsOf
    have present : line ∈ Line.ofText text := by simp [lines]
    constructor
    · simp only [severity_eq_error_iff, ← number]
      rw [exists_error_iff flags present, Option.isSome_iff_ne_none, ne_eq,
        reads.issue?_eq_none_iff]
    · simp only [isWarning_iff, ← number]
      rw [exists_warning_iff flags lines, reads.attribute?_isSome_iff, forall_closed_iff inFront]
  · intro found
    simp only [severity_eq_error_iff]
    exact value_read_eq_error_iff flags text found
  · intro issue told
    obtain ⟨row, placedRow, number, labelled⟩ := exists_row_of_issue told
    obtain ⟨front, back, stands, start⟩ := exists_rowAt placedRow
    refine ⟨front, row.chars, back, (Line.ofRow row).content, number ▸ stands,
      isContent_iff.mpr rfl, ⟨issue.cause.message, rfl⟩, fun label present => ?_⟩
    exact cuts_of_labelled stands start (labelled label present)

/-- A list with an attribute that belongs nowhere, and a keyword that is none behind a
no-break space. -/
def strayEntries : String :=
  "- a\n\u00A0y é // c"

theorem issues_tell_exactly_strayEntries :
    (∃ (marker : Marker) (name : QName), RowYields "- a".toList (marker.entry name)) ∧
    ¬RowAccepted "\u00A0y é // c".toList ∧
    (read {} strayEntries).value = .error [⟨1, ⟨0, 3⟩, .detached (.bare "a")⟩,
      ⟨2, ⟨6, 10⟩, .foreignKeyword .element "y" ⟨6, 7⟩⟩] ∧
    ∃ part, Span.Cuts ⟨6, 7⟩ strayEntries part := by
  obtain ⟨_, rows, refused, labels⟩ := issues_tell_exactly {} strayEntries
  have issues : (Draft.ofText {} strayEntries).issues =
      [⟨1, ⟨0, 3⟩, .detached (.bare "a")⟩,
        ⟨2, ⟨6, 10⟩, .foreignKeyword .element "y" ⟨6, 7⟩⟩] := rfl
  have first := rows [] ["\u00A0y é // c".toList] "- a".toList (by decide)
  have second := rows ["- a".toList] [] "\u00A0y é // c".toList (by decide)
  rw [issues] at first second refused labels
  refine ⟨?_, ?_, ?_, ?_⟩
  · exact (first.2.mp ⟨_, List.mem_cons_self, rfl, rfl, rfl⟩).1
  · exact second.1.mp ⟨_, List.mem_cons_of_mem _ List.mem_cons_self, rfl, rfl⟩
  · exact (refused _).mpr ⟨rfl, _, List.mem_cons_of_mem _ List.mem_cons_self, rfl⟩
  · obtain ⟨_, _, _, _, _, _, _, cut⟩ :=
      labels _ (List.mem_cons_of_mem _ List.mem_cons_self)
    obtain ⟨part, _, _, cuts, _⟩ := cut _ List.mem_cons_self
    exact ⟨part, cuts⟩

end AllowList.Source
