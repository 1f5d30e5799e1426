import AllowList.Proofs.Source.Issues

/-!
# Lists moved down

Behind another text and a newline, the rows of a list have greater numbers and stand
further on, and nothing else about them changes. So what a line asks for stays, and what
is told about it is told of a greater number and of places further on. A division moves
with its lines.
-/

namespace AllowList

open Text

/-- How far down a text is moved. -/
structure Text.Shift where
  /-- The number of rows in front of it. -/
  rows : Nat
  /-- The number of bytes in front of it. -/
  bytes : Nat

/-- How far down a text is moved that stands behind another and a newline. -/
def Text.Shift.behind (text : String) : Shift :=
  ⟨(Text.rows text.toList).length, text.utf8ByteSize + 1⟩

variable (shift : Shift)

/-- A row further down. -/
def Text.Row.moved (row : Row) : Row :=
  ⟨row.number + shift.rows, row.start + shift.bytes, row.chars⟩

/-- A span further down. -/
def Span.moved (span : Span) : Span :=
  ⟨span.start + shift.bytes, span.stop + shift.bytes⟩

/-- A label further down. -/
def Label.moved (label : Label) : Label :=
  { label with span := label.span.moved shift }

/-- A cause whose places are further down. -/
def Cause.moved : Cause → Cause
  | .spacedName place => .spacedName (place.moved shift)
  | .foreignKeyword role word place => .foreignKeyword role word (place.moved shift)
  | cause => cause

/-- An issue of a line further down. -/
def Issue.moved (issue : Issue) : Issue :=
  ⟨issue.line + shift.rows, issue.content.moved shift, issue.cause.moved shift⟩

/-- Moving an issue raises the number in its message and moves its labels. -/
theorem Issue.diagnostic_moved (issue : Issue) :
    (issue.moved shift).diagnostic =
      { issue.diagnostic with
        message := "line " ++ toString (issue.line + shift.rows) ++ ": " ++ issue.cause.message
        labels := issue.diagnostic.labels.map (Label.moved shift) } := by
  obtain ⟨number, content, cause⟩ := issue
  cases cause <;> rfl

namespace Text

/-- Rows are placed one list behind the other. -/
theorem placeRows_append (number start : Nat) (front back : List (List Char)) :
    placeRows number start (front ++ back) = placeRows number start front ++
      placeRows (number + front.length)
        (start + (front.map fun chars => byteLength chars + 1).sum) back := by
  induction front generalizing number start with
  | nil => rfl
  | cons chars more ih =>
    rw [List.cons_append, placeRows, placeRows, ih, List.cons_append, List.length_cons,
      List.map_cons, List.sum_cons, Nat.add_right_comm number 1, Nat.add_assoc number,
      Nat.add_assoc start, Nat.add_assoc start]

/-- Rows that are placed from further down on are the rows moved. -/
theorem placeRows_moved (number start : Nat) (rows : List (List Char)) :
    placeRows (number + shift.rows) (start + shift.bytes) rows =
      (placeRows number start rows).map (Row.moved shift) := by
  induction rows generalizing number start with
  | nil => rfl
  | cons chars more ih =>
    rw [placeRows, placeRows, List.map_cons, ← ih]
    simp only [Row.moved, Nat.add_right_comm]

/-- The rows of a text and their newlines have one byte more than the text, since no
newline ends the last. -/
theorem sum_byteLength_rows (cs : List Char) :
    ((rows cs).map fun chars => byteLength chars + 1).sum = byteLength cs + 1 := by
  unfold rows
  induction cs with
  | nil => rfl
  | cons c rest ih =>
    rw [pieces]
    split
    case h_1 split => exact absurd split (pieces_ne_nil '\n' rest)
    case h_2 piece more split =>
      rw [split, List.map_cons, List.sum_cons] at ih
      -- a newline begins a row and takes the byte that the row in front is counted for
      have newline : '\n'.utf8Size = 1 := rfl
      split
      case isTrue ends =>
        simp only [List.map_cons, List.sum_cons, byteLength_nil, byteLength_cons, ends, newline]
        omega
      case isFalse =>
        simp only [List.map_cons, List.sum_cons, byteLength_cons]
        omega

/-- Behind a newline begins a row, so two joined texts have the rows of both. -/
theorem placed_joined (first second : String) :
    placed (first ++ "\n" ++ second).toList =
      placed first.toList ++ (placed second.toList).map (Row.moved (.behind first)) := by
  have split : (first ++ "\n" ++ second).toList =
      first.toList ++ '\n' :: second.toList := by simp
  have both : rows (first ++ "\n" ++ second).toList =
      rows first.toList ++ rows second.toList := by
    simp only [rows_eq_splitOn]
    rw [split, List.splitOn_append_cons_self]
  rw [placed, both, placeRows_append, sum_byteLength_rows, byteLength_toList, placed, placed]
  exact congrArg _ (placeRows_moved (.behind first) 1 0 _)

end Text

namespace Source

/-- A line further down. -/
def Line.moved (line : Line) : Line :=
  ⟨line.number + shift.rows, line.start + shift.bytes, line.content⟩

namespace Line

/-- The lines of two joined texts are those of the first and, moved, of the second. -/
theorem ofText_joined (first second : String) :
    ofText (first ++ "\n" ++ second) =
      ofText first ++ (ofText second).map (moved (.behind first)) := by
  have same (row : Row) : ofRow (row.moved (.behind first)) =
      (ofRow row).moved (.behind first) := by
    simp only [ofRow, moved, Row.moved, Nat.add_right_comm]
  unfold ofText
  simp only [placed_joined, List.map_append, List.map_map, Function.comp_def, same]

/-- A part of a moved line stands further down. -/
theorem spanOf_moved (line : Line) (before part : List Char) :
    (line.moved shift).spanOf before part = (line.spanOf before part).moved shift := by
  simp only [spanOf, moved, Span.moved, Nat.add_right_comm]

/-- A name is found in a moved line as before, and refused with moved places. -/
theorem nameOf_moved (line : Line) (role : Role) (unqualified : Option Namespace)
    (before chars : List Char) :
    nameOf (line.moved shift) role unqualified before chars =
      (nameOf line role unqualified before chars).mapError (Cause.moved shift) := by
  unfold nameOf
  split
  · rfl
  · simp only [spanOf_moved]
    split
    · rfl
    · split
      · rfl
      · split
        · rfl
        · rfl

/-- A moved line is read as before, and refused with moved places. -/
theorem read_moved (line : Line) :
    (line.moved shift).read = line.read.mapError (Cause.moved shift) := by
  have content : (line.moved shift).content = line.content := rfl
  have commute {α β : Type} (result : Except Cause α) (entry : α → β) :
      (result.mapError (Cause.moved shift)).map entry =
        (result.map entry).mapError (Cause.moved shift) := by
    cases result <;> rfl
  unfold read
  simp only [content, nameOf_moved, commute]
  split
  · rfl
  · split
    · split
      · rfl
      · rfl
    · split
      · rfl
      · rfl

/-- A moved line asks for what it asked for. -/
theorem entry?_moved (line : Line) : entry? (line.moved shift) = entry? line := by
  unfold entry?
  rw [read_moved]
  cases line.read <;> rfl

theorem opens_moved (line : Line) : (line.moved shift).opens = line.opens := by
  rw [opens, entry?_moved, opens]

theorem name?_moved (marker : Marker) (line : Line) :
    (line.moved shift).name? marker = line.name? marker := by
  rw [name?, entry?_moved, name?]

/-- A moved line is refused as before, further down. -/
theorem issue?_moved (line : Line) :
    (line.moved shift).issue? = line.issue?.map (Issue.moved shift) := by
  unfold issue?
  rw [read_moved]
  cases line.read with
  | error cause =>
    simp only [Except.mapError, Option.map_some, Issue.moved, span, Span.moved, moved,
      Nat.add_right_comm]
  | ok held => rfl

/-- A moved line is worth the same warning, further down. -/
theorem warning?_moved (line : Line) :
    (line.moved shift).warning? = line.warning?.map (Issue.moved shift) := by
  have given : (line.moved shift).attribute? = line.attribute? := by
    simp only [attribute?, name?_moved]
  have place : (line.moved shift).span = line.span.moved shift := by
    simp only [span, moved, Span.moved, Nat.add_right_comm]
  unfold warning?
  rw [given, place, Option.map_map]
  rfl

/-- Wherever attributes go, a moved line has the same issue, further down. -/
theorem issueIn?_moved (place : Place) (line : Line) :
    (line.moved shift).issueIn? place = (line.issueIn? place).map (Issue.moved shift) := by
  unfold issueIn?
  rw [issue?_moved, warning?_moved]
  cases line.issue? with
  | some issue => rfl
  | none => split <;> rfl

end Line

/-- Moved lines give the names that they gave. -/
theorem namesOf_moved (lines : List Line) :
    namesOf (lines.map (Line.moved shift)) = namesOf lines := by
  funext marker
  simp only [namesOf, List.filterMap_map, Function.comp_def, Line.name?_moved]

/-- Lines that open nothing open nothing further down. -/
theorem closed_moved {lines : List Line} (closed : ∀ line ∈ lines, line.opens = false) :
    ∀ line ∈ lines.map (Line.moved shift), line.opens = false := by
  rw [List.forall_mem_map]
  intro line present
  rw [Line.opens_moved]
  exact closed line present

/-- A section further down. -/
def Section.moved (part : Section) : Section where
  opener := part.opener.moved shift
  body := part.body.map (Line.moved shift)
  opens := (Line.opens_moved shift part.opener).trans part.opens
  closed := closed_moved shift part.closed

/-- Moved sections add up to the same policy. -/
theorem policyOf_moved (flags : Flags) (sections : List Section) :
    policyOf flags (sections.map (Section.moved shift)) = policyOf flags sections := by
  have rule (part : Section) : (part.moved shift).rule? = part.rule? := by
    simp only [Section.rule?, Section.moved, Line.element?, Line.entry?_moved, namesOf_moved]
  have globals (marker : Marker) (part : Section) :
      (part.moved shift).globals marker = part.globals marker := by
    simp only [Section.globals, Section.moved, Line.entry?_moved, namesOf_moved]
  simp only [policyOf, List.filterMap_map, List.flatMap_map, Function.comp_def, rule, globals]

namespace Division

/-- A division further down. -/
def moved (division : Division) : Division where
  loose := division.loose.map (Line.moved shift)
  sections := division.sections.map (Section.moved shift)
  closed := closed_moved shift division.closed

/-- A moved division has the lines moved. -/
theorem lines_moved (division : Division) :
    (division.moved shift).lines = division.lines.map (Line.moved shift) := by
  have part (part : Section) :
      (part.moved shift).lines = part.lines.map (Line.moved shift) := rfl
  simp only [lines, moved, List.map_append, List.flatMap_map, List.map_flatMap, part]

/-- A division moves with its lines: they divide in one way only. -/
theorem ofLines_moved (lines : List Line) :
    ofLines (lines.map (Line.moved shift)) = (ofLines lines).moved shift := by
  have whole := lines_moved shift (ofLines lines)
  rw [lines_ofLines] at whole
  rw [← whole, ofLines_lines]

end Division

end Source

end AllowList
