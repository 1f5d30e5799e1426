import AllowList.Proofs.Source.Language

/-!
# Sections of a source list

A list begins with loose lines, and from then on it is made of sections: a line that
opens one, an element's or a section mark, and the lines up to the next that does. The
lines of a section belong to what opens it; loose lines belong nowhere.

A run over a list follows this division. What a section asks for depends on nothing in
front of it, since its first line says where the others go. Loose lines go to the place
that the run has come to before them.
-/

namespace AllowList

namespace Source

/-- Whether what follows an entry belongs to it. -/
def Entry.opens : Entry → Bool
  | .globalSection | .element _ => true
  | .allow _ | .remove _ => false

/-- The name that an attribute's entry gives under its marker. -/
def Entry.name? : Marker → Entry → Option QName
  | .allow, .allow name | .remove, .remove name => some name
  | _, _ => none

/-- An entry that opens nothing is an attribute's. -/
theorem Entry.exists_of_not_opens {entry : Entry} (closed : entry.opens = false) :
    ∃ (marker : Marker) (name : QName), entry = marker.entry name := by
  cases entry with
  | globalSection => cases closed
  | element name => cases closed
  | allow name => exact ⟨.allow, name, rfl⟩
  | remove name => exact ⟨.remove, name, rfl⟩

/-- A result that is refused was refused before it was mapped. -/
theorem error_of_map {α β : Type} {entry : α → β} {result : Except Cause α} {cause : Cause}
    (refused : result.map entry = .error cause) : result = .error cause := by
  cases result with
  | error other => exact congrArg Except.error (Except.error.inj refused)
  | ok name => cases refused

namespace Line

/-- The entry that a line holds. -/
def entry? (line : Line) : Option Entry :=
  match line.read with
  | .ok held => held
  | .error _ => none

/-- Whether a line opens a section: it is an element's line or a section mark. -/
def opens (line : Line) : Bool :=
  line.entry?.any Entry.opens

/-- The element of an element's line. -/
def element? (line : Line) : Option QName :=
  match line.entry? with
  | some (.element name) => some name
  | _ => none

/-- The name of an attribute's line with a given marker. -/
def name? (marker : Marker) (line : Line) : Option QName :=
  line.entry?.bind (Entry.name? marker)

/-- The name of an attribute's line, whatever its marker. -/
def attribute? (line : Line) : Option QName :=
  (line.name? .allow).or (line.name? .remove)

/-- The warning that an attribute's line is worth if it belongs nowhere. -/
def warning? (line : Line) : Option Issue :=
  line.attribute?.map fun name => ⟨line.number, line.span, .detached name⟩

/-- The issue of a line when attributes go to a given place. -/
def issueIn? (place : Place) (line : Line) : Option Issue :=
  line.issue?.or (if place = .detached then line.warning? else none)

theorem entry?_eq_some_iff {line : Line} {entry : Entry} :
    line.entry? = some entry ↔ line.read = .ok (some entry) := by
  unfold entry?
  cases line.read with
  | error cause => simp
  | ok held => simp

/-- A line that holds an entry has no fault. -/
theorem issue?_of_entry? {line : Line} {entry : Entry} (held : line.entry? = some entry) :
    line.issue? = none := by
  rw [issue?, entry?_eq_some_iff.mp held]

/-- A line opens a section as an element's line or as a section mark. -/
theorem opens_iff {line : Line} :
    line.opens = true ↔
      (∃ name, line.entry? = some (.element name)) ∨ line.entry? = some .globalSection := by
  rw [opens, Option.any_eq_true]
  constructor
  · rintro ⟨entry, held, opens⟩
    cases entry with
    | globalSection => exact Or.inr held
    | element name => exact Or.inl ⟨name, held⟩
    | allow name => cases opens
    | remove name => cases opens
  · rintro (⟨name, held⟩ | held)
    · exact ⟨_, held, rfl⟩
    · exact ⟨_, held, rfl⟩

/-- An attribute's line opens nothing. -/
theorem opens_of_attribute? {line : Line} (given : line.attribute?.isSome = true) :
    line.opens = false := by
  refine Bool.eq_false_iff.mpr fun opens => ?_
  rcases opens_iff.mp opens with ⟨name, held⟩ | held
  · simp [attribute?, name?, held, Entry.name?] at given
  · simp [attribute?, name?, held, Entry.name?] at given

/-- A line that opens nothing and holds an entry is an attribute's. -/
theorem exists_of_not_opens {line : Line} {entry : Entry} (closed : line.opens = false)
    (held : line.entry? = some entry) : ∃ (marker : Marker) (name : QName),
      entry = marker.entry name := by
  refine Entry.exists_of_not_opens ?_
  rw [opens, held] at closed
  exact closed

end Line

/-- The names that the attributes' lines of a list give under a marker. -/
def namesOf (lines : List Line) (marker : Marker) : List QName :=
  lines.filterMap (Line.name? marker)

/-- A part of a source list: a line that opens it, and the lines behind it that open
nothing. -/
structure Section where
  /-- The line that opens the section. -/
  opener : Line
  /-- The lines that belong to it. -/
  body : List Line
  opens : opener.opens = true
  closed : ∀ line ∈ body, line.opens = false

namespace Section

/-- All lines of a section. -/
def lines (part : Section) : List Line :=
  part.opener :: part.body

/-- The rule that a section makes if an element opens it. -/
def rule? (part : Section) : Option ElementRule :=
  part.opener.element?.map fun name =>
    { name, allowed := namesOf part.body .allow, removed := namesOf part.body .remove }

/-- What a section adds for every element under a marker, if a section mark opens it. -/
def globals (marker : Marker) (part : Section) : List QName :=
  if part.opener.entry? = some .globalSection then namesOf part.body marker else []

end Section

/-- Lines divided into loose ones and sections. -/
structure Division where
  /-- The lines in front of every section. -/
  loose : List Line
  /-- The sections, in order. -/
  sections : List Section
  closed : ∀ line ∈ loose, line.opens = false

namespace Division

/-- All lines of a division. -/
def lines (division : Division) : List Line :=
  division.loose ++ division.sections.flatMap Section.lines

/-- A section begins at each line that opens one. -/
def ofLines : List Line → Division
  | [] => ⟨[], [], by simp⟩
  | line :: rest =>
    if opens : line.opens = true then
      ⟨[], ⟨line, (ofLines rest).loose, opens, (ofLines rest).closed⟩ :: (ofLines rest).sections,
        by simp⟩
    else
      ⟨line :: (ofLines rest).loose, (ofLines rest).sections,
        List.forall_mem_cons.mpr ⟨Bool.eq_false_iff.mpr opens, (ofLines rest).closed⟩⟩

/-- The division of a source list. -/
def ofText (text : String) : Division :=
  ofLines (Line.ofText text)

/-- Every line is in one part of the division, and the parts keep the order of lines. -/
theorem lines_ofLines (lines : List Line) : (ofLines lines).lines = lines := by
  induction lines with
  | nil => rfl
  | cons line rest ih =>
    unfold Division.lines at ih
    by_cases opens : line.opens = true
    · simp only [ofLines, opens, dif_pos, Division.lines, List.flatMap_cons, Section.lines,
        List.nil_append, List.cons_append, ih]
    · simp only [ofLines, opens, dif_neg, Division.lines, List.cons_append, ih,
        not_false_eq_true, Bool.false_eq_true]

/-- Divisions are told by their lines, loose and in sections. -/
theorem eq_of_parts {left right : Division} (loose : left.loose = right.loose)
    (sections : left.sections = right.sections) : left = right := by
  obtain ⟨_, _, _⟩ := left
  cases loose
  cases sections
  rfl

/-- Lines that open nothing are loose, and the division goes on behind them. -/
theorem ofLines_append {front : List Line} (closed : ∀ line ∈ front, line.opens = false)
    (rest : List Line) :
    (ofLines (front ++ rest)).loose = front ++ (ofLines rest).loose ∧
      (ofLines (front ++ rest)).sections = (ofLines rest).sections := by
  induction front with
  | nil => exact ⟨rfl, rfl⟩
  | cons line front ih =>
    obtain ⟨own, later⟩ := List.forall_mem_cons.mp closed
    obtain ⟨loose, sections⟩ := ih later
    have shut : ¬line.opens = true := by simp [own]
    rw [List.cons_append, ofLines, dif_neg shut]
    exact ⟨congrArg (line :: ·) loose, sections⟩

/-- Sections divide as they are. -/
theorem ofLines_sections (sections : List Section) :
    (ofLines (sections.flatMap Section.lines)).loose = [] ∧
      (ofLines (sections.flatMap Section.lines)).sections = sections := by
  induction sections with
  | nil => exact ⟨rfl, rfl⟩
  | cons part rest ih =>
    obtain ⟨bodyLoose, bodySections⟩ := ofLines_append part.closed (rest.flatMap Section.lines)
    rw [ih.1, List.append_nil] at bodyLoose
    rw [List.flatMap_cons, Section.lines, List.cons_append, ofLines, dif_pos part.opens]
    refine ⟨rfl, ?_⟩
    simp only [bodyLoose, bodySections, ih.2]

/-- There is one way only to divide lines. -/
theorem ofLines_lines (division : Division) : ofLines division.lines = division := by
  obtain ⟨loose, sections⟩ := ofLines_append division.closed
    (division.sections.flatMap Section.lines)
  obtain ⟨behind, same⟩ := ofLines_sections division.sections
  apply eq_of_parts
  · rw [lines, loose, behind, List.append_nil]
  · rw [lines, sections, same]

end Division

end Source

end AllowList
