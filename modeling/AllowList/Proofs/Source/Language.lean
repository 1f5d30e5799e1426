import AllowList.Proofs.Source.Reading
import AllowList.Source.Draft
import Mathlib.Data.List.Forall2

/-!
# The language that is accepted

A line is read as nothing, as an entry or with a fault exactly as the language of
source lists says, and a list is refused exactly when one of its lines is. Every
line is read whatever came of the lines before it, so each refused line is told
once, in the order of lines.
-/

namespace AllowList.Source

open Text

namespace Line

variable {line : Line}

/-- A line without content asks for nothing. -/
theorem read_of_empty (empty : line.content = []) : line.read = .ok none := by
  simp [read, empty]

/-- A line that opens with a bracket is a section mark or a fault. -/
theorem read_of_bracket (opens : line.content.head? = some '[') :
    line.read = if "Global]".toList.isSuffixOf line.content then .ok (some .globalSection)
      else .error .unknownSection := by
  obtain ⟨rest, same⟩ := List.head?_eq_some_iff.mp opens
  have nonempty : line.content.isEmpty = false := by rw [same, List.isEmpty_cons]
  simp only [read, nonempty, opens, Bool.false_eq_true, if_false, if_true]

/-- A line with a marker is read as an attribute's. -/
theorem read_of_marked {marked : Marked} (found : Marked.ofChars? line.content = some marked) :
    line.read = (nameOf line .attr Role.attr.unqualified marked.opening marked.body).map
      fun name => some (marked.marker.entry name) := by
  have first := (Marked.isMarked found).head?
  obtain ⟨rest, same⟩ := List.head?_eq_some_iff.mp first
  have nonempty : line.content.isEmpty = false := by rw [same, List.isEmpty_cons]
  have bracket : line.content.head? ≠ some '[' := by
    rw [first]
    exact fun equal => marked.marker.char_ne_bracket (Option.some.inj equal)
  simp only [read, nonempty, bracket, found, Bool.false_eq_true, if_false, Role.unqualified]

/-- A line without a bracket or a marker is read as an element's. -/
theorem read_of_unmarked (nonempty : line.content ≠ []) (bracket : line.content.head? ≠ some '[')
    (unmarked : Marked.ofChars? line.content = none) :
    line.read = (nameOf line .element Role.element.unqualified [] line.content).map
      fun name => some (.element name) := by
  have present : line.content.isEmpty = false := List.isEmpty_eq_false_iff.mpr nonempty
  simp only [read, present, bracket, unmarked, Bool.false_eq_true, if_false, Role.unqualified]

/-- From a content on which no marker stands none is split off. -/
theorem ofChars?_eq_none {content : List Char}
    (unmarked : ∀ marker rest, ¬IsMarked content marker rest) : Marked.ofChars? content = none := by
  cases found : Marked.ofChars? content with
  | none => rfl
  | some marked => exact absurd (Marked.isMarked found) (unmarked marked.marker marked.body)

/-- A content of the language is read as the entry it asks for. -/
theorem read_of_yields {entry : Entry} (yields : Yields line.content entry) :
    line.read = .ok (some entry) := by
  generalize same : line.content = content at yields
  cases yields with
  | globalSection opens closes =>
    subst same
    rw [read_of_bracket opens, if_pos (List.isSuffixOf_iff_suffix.mpr closes)]
  | attr marker marked names =>
    obtain ⟨opening, found⟩ := marked.ofChars? (opens_of_names names).stops
    subst same
    rw [read_of_marked found, nameOf_of_names line opening names]
    rfl
  | element bracket unmarked names =>
    subst same
    rw [read_of_unmarked (opens_of_names names).ne_nil bracket (ofChars?_eq_none unmarked),
      nameOf_of_names line [] names]
    rfl

/-- A content with a foreign word in front of its name is refused for the word. -/
theorem read_of_foreign (foreign : Foreign line.content) :
    ∃ cause, line.read = .error cause ∧ cause.code = .unknownKeyword := by
  generalize same : line.content = content at foreign
  cases foreign with
  | attr marker marked misqualified =>
    obtain ⟨_, _, double, _⟩ := id misqualified
    obtain ⟨opening, found⟩ := marked.ofChars? double.opens.stops
    obtain ⟨cause, refused, code⟩ :=
      nameOf_of_misqualified line opening misqualified
    subst same
    refine ⟨cause, ?_, code⟩
    rw [read_of_marked found, refused]
    rfl
  | element bracket unmarked misqualified =>
    obtain ⟨_, _, double, _⟩ := id misqualified
    obtain ⟨cause, refused, code⟩ :=
      nameOf_of_misqualified line [] misqualified
    subst same
    refine ⟨cause, ?_, code⟩
    rw [read_of_unmarked double.opens.ne_nil bracket (ofChars?_eq_none unmarked), refused]
    rfl

/-- Any other content is refused for its shape. -/
theorem read_of_neither (ends : EndsClear line.content) (nonempty : line.content ≠ [])
    (unyielding : ∀ entry, ¬Yields line.content entry) (unforeign : ¬Foreign line.content) :
    ∃ cause, line.read = .error cause ∧ cause.code = .malformedEntry := by
  by_cases bracket : line.content.head? = some '['
  · rw [read_of_bracket bracket]
    split
    case isTrue closes =>
      exact absurd (.globalSection bracket (List.isSuffixOf_iff_suffix.mp closes)) (unyielding _)
    case isFalse => exact ⟨.unknownSection, rfl, rfl⟩
  cases found : Marked.ofChars? line.content with
  | some marked =>
    have isMarked := Marked.isMarked found
    obtain ⟨cause, refused, code⟩ :=
      nameOf_of_neither line marked.opening (isMarked.endsClear ends)
        (fun name names => unyielding _ (.attr marked.marker isMarked names))
        (fun misqualified => unforeign (.attr marked.marker isMarked misqualified))
    refine ⟨cause, ?_, code⟩
    rw [read_of_marked found, refused]
    rfl
  | none =>
    have unmarked := not_isMarked_of_ofChars?_eq_none found
    obtain ⟨cause, refused, code⟩ :=
      nameOf_of_neither line [] ends
        (fun name names => unyielding _ (.element bracket unmarked names))
        (fun misqualified => unforeign (.element bracket unmarked misqualified))
    refine ⟨cause, ?_, code⟩
    rw [read_of_unmarked nonempty bracket found, refused]
    rfl

end Line

/-- A result is what the language says about a content: nothing for an empty one, its
entry for one of the language, and for any other a single error, whose code tells a
foreign keyword from every other fault. -/
structure ReadExactly (content : List Char) (result : Except Cause (Option Entry)) : Prop where
  nothing : result = .ok none ↔ content = []
  yields : ∀ entry, result = .ok (some entry) ↔ Yields content entry
  refused : (∃ cause, result = .error cause) ↔ content ≠ [] ∧ ∀ entry, ¬Yields content entry
  fault : ∀ cause, result = .error cause → cause.severity = .error ∧
    (cause.code.text = "E101" ∧ Foreign content ∨ cause.code.text = "E100" ∧ ¬Foreign content)

/-- No content is nothing and asks for an entry as well. -/
theorem Yields.ne_nil {content : List Char} {entry : Entry} (yields : Yields content entry) :
    content ≠ [] := by
  rintro rfl
  cases yields with
  | globalSection opens => cases opens
  | attr _ marked => cases marked.head?
  | element _ _ names => exact (opens_of_names names).ne_nil rfl

/-- No content is nothing and refused for its keyword as well. -/
theorem Foreign.ne_nil {content : List Char} (foreign : Foreign content) : content ≠ [] := by
  rintro rfl
  cases foreign with
  | attr _ marked => cases marked.head?
  | element _ _ misqualified =>
    obtain ⟨_, _, double, _⟩ := misqualified
    exact double.opens.ne_nil rfl

/-- The two codes of a refused entry are those of errors. -/
theorem severity_of_code {cause : Cause}
    (code : cause.code = .unknownKeyword ∨ cause.code = .malformedEntry) :
    cause.severity = .error := by
  cases cause with
  | detached name => simp [Cause.code] at code
  | unknownSection | missingName | spacedName | foreignKeyword | unknownSpace => rfl

namespace Line

variable {line : Line}

/-- Reading a line without content is reading it exactly. -/
theorem readExactly_of_empty (empty : line.content = []) : ReadExactly line.content line.read := by
  have unyielding (entry : Entry) : ¬Yields line.content entry :=
    fun yields => yields.ne_nil empty
  rw [read_of_empty empty]
  exact
    { nothing := by simp [empty]
      yields := by simp [unyielding]
      refused := by simp [empty]
      fault := by simp }

/-- Reading an entry of the language is reading it exactly. -/
theorem readExactly_of_yields {entry : Entry} (yields : Yields line.content entry) :
    ReadExactly line.content line.read := by
  have only (other : Entry) : some entry = some other ↔ Yields line.content other := by
    constructor
    · intro same
      cases same
      exact yields
    · intro another
      have read := (read_of_yields yields).symm.trans (read_of_yields another)
      exact Except.ok.inj read
  rw [read_of_yields yields]
  exact
    { nothing := by simp [yields.ne_nil]
      yields := by simpa using only
      refused := by simpa using fun _ => ⟨entry, yields⟩
      fault := by simp }

/-- Refusing a content that is not empty is reading it exactly if the code is that of
its fault: an entry of the language would not have been refused. -/
theorem readExactly_of_refused {cause : Cause} (nonempty : line.content ≠ [])
    (read : line.read = .error cause)
    (fault : cause.code = .unknownKeyword ∧ Foreign line.content ∨
      cause.code = .malformedEntry ∧ ¬Foreign line.content) :
    ReadExactly line.content line.read := by
  have unyielding (entry : Entry) : ¬Yields line.content entry := by
    intro yields
    rw [read_of_yields yields] at read
    cases read
  have severity : cause.severity = .error :=
    severity_of_code (fault.imp And.left And.left)
  rw [read]
  refine { nothing := ?_, yields := ?_, refused := ?_, fault := ?_ }
  · simp [nonempty]
  · simp [unyielding]
  · simp [nonempty, unyielding]
  · rintro _ ⟨⟩
    refine ⟨severity, fault.imp ?_ ?_⟩
    · exact fun told => ⟨congrArg Code.text told.1, told.2⟩
    · exact fun told => ⟨congrArg Code.text told.1, told.2⟩

/-- A line whose content does not end with white space is read exactly: the four ways
of reading it cover every content. -/
theorem readExactly (ends : EndsClear line.content) : ReadExactly line.content line.read := by
  by_cases empty : line.content = []
  · exact readExactly_of_empty empty
  by_cases yielding : ∃ entry, Yields line.content entry
  · obtain ⟨entry, yields⟩ := yielding
    exact readExactly_of_yields yields
  by_cases foreign : Foreign line.content
  · obtain ⟨cause, read, code⟩ := read_of_foreign foreign
    exact readExactly_of_refused empty read (.inl ⟨code, foreign⟩)
  · have unyielding : ∀ entry, ¬Yields line.content entry :=
      fun entry yields => yielding ⟨entry, yields⟩
    obtain ⟨cause, read, code⟩ := read_of_neither ends empty unyielding foreign
    exact readExactly_of_refused empty read (.inr ⟨code, foreign⟩)

/-- The issue of a line that is refused. -/
def issue? (line : Line) : Option Issue :=
  match line.read with
  | .error cause => some ⟨line.number, line.span, cause⟩
  | .ok _ => none

/-- The content of a row's line does not end with white space. -/
theorem endsClear_ofRow (row : Row) : EndsClear (ofRow row).content := by
  obtain ⟨_, _, _, _, _, _, ends⟩ := isTrimmed_iff.mpr (rfl : trim (uncommented row.chars) = _)
  exact ends

end Line

namespace Draft

/-- The errors that a draft has met. -/
def errors (draft : Draft) : List Issue :=
  draft.issues.filter Issue.isError

/-- Reporting an issue adds it to the errors if it is one. -/
theorem errors_report (draft : Draft) (issue : Issue) :
    (draft.report issue).errors = draft.errors ++ [issue].filter Issue.isError := by
  simp [report, errors, List.filter_append]

/-- Taking in an entry adds no error: one without a place is worth a warning. -/
theorem errors_take (draft : Draft) (line : Line) (entry : Entry) :
    (draft.take line entry).errors = draft.errors := by
  simp only [take]
  split
  · rfl
  · cases entry with
    | globalSection | element name => rfl
    | allow name | remove name =>
      rw [errors_report]
      simp [errors, Issue.isError, Cause.severity]

/-- One line adds its own issue to the errors if it is refused, and nothing else. -/
theorem errors_step (draft : Draft) {line : Line} (ends : EndsClear line.content) :
    (draft.step line).errors = draft.errors ++ line.issue?.toList := by
  cases read : line.read with
  | error cause =>
    have severity := ((Line.readExactly ends).fault cause read).1
    simp [step, Line.issue?, read, errors_report, Issue.isError, severity]
  | ok held =>
    cases held with
    | none => simp [step, Line.issue?, read]
    | some entry => simp [step, Line.issue?, read, errors_take]

/-- Lines add their issues in their order. -/
theorem errors_foldl (draft : Draft) {lines : List Line}
    (ends : ∀ line ∈ lines, EndsClear line.content) :
    (lines.foldl step draft).errors = draft.errors ++ lines.filterMap Line.issue? := by
  induction lines generalizing draft with
  | nil => simp
  | cons line rest ih =>
    rw [List.foldl_cons, ih _ fun other later => ends other (List.mem_cons_of_mem line later),
      errors_step draft (ends line List.mem_cons_self), List.append_assoc]
    refine congrArg (draft.errors ++ ·) ?_
    cases issue : line.issue? with
    | none => simp [issue]
    | some told => simp [issue]

/-- A draft is refused when it has met an error. -/
theorem finish_eq_ok_iff {draft : Draft} :
    (∃ policy, draft.finish = .ok policy) ↔ draft.errors = [] := by
  have none : draft.errors = [] ↔ draft.issues.any Issue.isError = false := by
    simp [errors, List.filter_eq_nil_iff]
  rw [none, finish]
  cases draft.issues.any Issue.isError with
  | true => simp
  | false => simp

end Draft

/-- A row's content asks for nothing or for an entry. -/
def RowAccepted (row : List Char) : Prop :=
  ∀ content, IsContent row content → content = [] ∨ ∃ entry, Yields content entry

/-- A row is a line's: the line has the row's content, which is the only one, and is
read exactly. -/
def RowReadBy (row : List Char) (line : Line) : Prop :=
  (∀ content, IsContent row content ↔ content = line.content) ∧
    ReadExactly line.content line.read

/-- Every row is read by its line. -/
theorem rowReadBy_ofRow (row : Row) : RowReadBy row.chars (Line.ofRow row) :=
  ⟨fun _ => isContent_iff, Line.readExactly (Line.endsClear_ofRow row)⟩

/-- A row is accepted when its line has no issue. -/
theorem RowReadBy.issue?_eq_none_iff {row : List Char} {line : Line} (reads : RowReadBy row line) :
    line.issue? = none ↔ RowAccepted row := by
  obtain ⟨content, exactly⟩ := reads
  have accepted : RowAccepted row ↔
      line.content = [] ∨ ∃ entry, Yields line.content entry := by
    simp only [RowAccepted, content, forall_eq]
  have refused : (∃ cause, line.read = .error cause) ↔ ¬RowAccepted row := by
    rw [exactly.refused, accepted, not_or, not_exists]
  rw [← not_iff_not, ← refused, Line.issue?]
  cases line.read with
  | error cause => simp
  | ok held => simp

/-- The language of source lists is accepted exactly. Each row of a text, as newlines
separate them, is read by a line of the same number, and what is read is what the
language says of the row's content. The errors of the list are those of its refused
lines, each once and in their order, and the list is accepted when every row is. -/
theorem ofText_accepts_exactly (flags : Flags) (text : String) :
    List.Forall₂ RowReadBy (text.toList.splitOn '\n') (Line.ofText text) ∧
    (Line.ofText text).map Line.number = List.range' 1 (text.toList.splitOn '\n').length ∧
    (Draft.ofText flags text).errors = (Line.ofText text).filterMap Line.issue? ∧
    ((∃ policy, (Draft.ofText flags text).finish = .ok policy) ↔
      ∀ row ∈ text.toList.splitOn '\n', RowAccepted row) := by
  have errors : (Draft.ofText flags text).errors = (Line.ofText text).filterMap Line.issue? := by
    have ends : ∀ line ∈ Line.ofText text, EndsClear line.content := by
      intro line present
      obtain ⟨row, _, rfl⟩ := List.mem_map.mp present
      exact Line.endsClear_ofRow row
    rw [Draft.ofText, Draft.errors_foldl _ ends]
    rfl
  refine ⟨?_, ?_, errors, ?_⟩
  · rw [← map_chars_placed, Line.ofText, List.forall₂_map_left_iff, List.forall₂_map_right_iff,
      List.forall₂_same]
    exact fun row _ => rowReadBy_ofRow row
  · have same : Line.number ∘ Line.ofRow = Row.number := rfl
    rw [Line.ofText, List.map_map, same, placed, map_number_placeRows, rows_eq_splitOn]
  · rw [Draft.finish_eq_ok_iff, errors, List.filterMap_eq_nil_iff, ← map_chars_placed, Line.ofText]
    simp only [List.forall_mem_map]
    refine forall₂_congr fun row _ => ?_
    exact (rowReadBy_ofRow row).issue?_eq_none_iff

/-- A bare keyword is a name, a mark glued to a name belongs to it, and a no-break space
separates nothing. -/
example : (Draft.ofText {} "svg\n-x // a name\n- xml lang\n- svg x\na\u00A0b\n[HTML").errors.map
    (fun issue => (issue.line, issue.cause.code.text)) =
      [(4, "E101"), (5, "E100"), (6, "E100")] := by
  decide

end AllowList.Source
