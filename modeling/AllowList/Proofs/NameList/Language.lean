import AllowList.NameList.Reader
import AllowList.Proofs.Namespace
import AllowList.Proofs.Text.Places

/-!
# The language of name lists

A name list is told line by line, a line being what stands between two newlines with the blanks
at its ends cut off. A header says which namespace the list has, and the last header counts; any
other line is a name unless it is empty or a comment. A header that names no namespace refuses the
list, and the first such header does.

A header begins like a comment, so it has no name in any case.
-/

namespace AllowList.NameList

open Text

/-- A header line, and what it says behind its colon. -/
def IsHeader (line value : List Char) : Prop :=
  ∃ rest, line = header ++ rest ∧ IsTrimmed rest value

/-- What names a namespace: nothing at all, its URI, or its keyword. -/
inductive Names : List Char → Namespace → Prop where
  | nothing : Names [] .html
  | uri (space : Namespace) : Names space.uri.toList space
  | keyword (space : Namespace) (word : String) (own : space.keyword? = some word) :
      Names word.toList space

/-- A line that, if it is a header, names a namespace. -/
def Understood (line : List Char) : Prop :=
  ∀ value, IsHeader line value → ∃ space, Names value space

/-- A line with a name on it: it is not empty, and neither mark of a comment begins it. -/
def HasName (line : List Char) : Prop :=
  line ≠ [] ∧ ¬"#".toList <+: line ∧ ¬"//".toList <+: line

instance : DecidablePred HasName := fun line =>
  inferInstanceAs (Decidable (line ≠ [] ∧ ¬"#".toList <+: line ∧ ¬"//".toList <+: line))

/-- The names on some lines. -/
def namesOn (lines : List (List Char)) : List String :=
  (lines.filter (HasName ·)).map String.ofList

/-- The namespace that lines tell: what the last header names, or else the given one. -/
inductive TellsSpace (given : Namespace) (lines : List (List Char)) : Namespace → Prop where
  | given (untold : ∀ line ∈ lines, ∀ value, ¬IsHeader line value) : TellsSpace given lines given
  | last (front back : List (List Char)) (line value : List Char) (space : Namespace)
      (split : lines = front ++ line :: back) (isHeader : IsHeader line value)
      (names : Names value space) (untold : ∀ later ∈ back, ∀ value, ¬IsHeader later value) :
      TellsSpace given lines space

/-- What names a namespace is taken for it. -/
theorem names_iff {value : List Char} {space : Namespace} :
    Names value space ↔ Namespace.ofText? (String.ofList value) = some space := by
  rw [Namespace.ofText?_eq_some_iff]
  constructor
  · rintro (_ | _ | ⟨_, word, own⟩)
    · exact Or.inl ⟨rfl, rfl⟩
    · exact Or.inr (Or.inl String.ofList_toList)
    · exact Or.inr (Or.inr (by rw [String.ofList_toList, own]))
  · rintro (⟨empty, rfl⟩ | isUri | keyword)
    · rw [String.ofList_eq_empty_iff.mp empty]
      exact .nothing
    · rw [← String.toList_ofList (l := value), isUri]
      exact .uri space
    · rw [← String.toList_ofList (l := value)]
      exact .keyword space _ keyword

section header

variable {line value : List Char}

/-- What stands behind the mark of a header is what it says, blanks around it cut off. -/
theorem isHeader_iff : IsHeader line value ↔ (after? header line).map trim = some value := by
  rw [after?, IsHeader]
  constructor
  · rintro ⟨rest, rfl, trimmed⟩
    simp [isTrimmed_iff.mp trimmed]
  · intro found
    split at found
    case isTrue begins =>
      obtain ⟨rest, rfl⟩ := List.isPrefixOf_iff_prefix.mp begins
      simp only [List.drop_left, Option.map_some, Option.some.injEq] at found
      exact ⟨rest, rfl, isTrimmed_iff.mpr found⟩
    case isFalse => cases found

/-- A header says one thing. -/
theorem IsHeader.unique {other : List Char} (isHeader : IsHeader line value)
    (again : IsHeader line other) : value = other := by
  have same := (isHeader_iff.mp isHeader).symm.trans (isHeader_iff.mp again)
  exact Option.some.inj same

/-- Whether a line is understood can be computed. -/
theorem understood_iff : Understood line ↔ ((after? header line).map trim).all
    (fun value => (Namespace.ofText? (String.ofList value)).isSome) = true := by
  simp only [Understood, isHeader_iff, names_iff, Option.all_eq_true, Option.isSome_iff_exists]

instance : DecidablePred Understood := fun _ => decidable_of_iff _ understood_iff.symm

/-- A line is skipped when it has no name. -/
theorem isSkipped_iff : isSkipped line = true ↔ ¬HasName line := by
  simp only [isSkipped, HasName, Bool.or_eq_true, List.isEmpty_iff, List.isPrefixOf_iff_prefix]
  tauto

/-- A header has no name. -/
theorem IsHeader.not_hasName (isHeader : IsHeader line value) : ¬HasName line := by
  obtain ⟨rest, rfl, _⟩ := isHeader
  rintro ⟨_, noHash, _⟩
  exact noHash ⟨" namespace:".toList ++ rest, rfl⟩

end header

section step

variable (list : NameList) {row : Row} {value : List Char}

/-- A header that names a namespace sets it. -/
theorem step_of_names {space : Namespace} (isHeader : IsHeader (trim row.chars) value)
    (names : Names value space) : step list row = .ok { list with space := space } := by
  obtain ⟨rest, found, trimmed⟩ := Option.map_eq_some_iff.mp (isHeader_iff.mp isHeader)
  simp only [step, found, trimmed, names_iff.mp names]

/-- A header that names none refuses the list. -/
theorem step_of_unnamed (isHeader : IsHeader (trim row.chars) value)
    (unnamed : ∀ space, ¬Names value space) :
    step list row = .error ⟨row.number, lineSpan row, .unknownSpace (String.ofList value)⟩ := by
  obtain ⟨rest, found, trimmed⟩ := Option.map_eq_some_iff.mp (isHeader_iff.mp isHeader)
  have unknown : Namespace.ofText? (String.ofList value) = none := by
    refine Option.eq_none_iff_forall_ne_some.mpr fun space known => ?_
    exact unnamed space (names_iff.mpr known)
  simp only [step, found, trimmed, unknown]

/-- Any other line adds its name if it has one. -/
theorem step_of_untold (untold : ∀ value, ¬IsHeader (trim row.chars) value) :
    step list row = .ok { list with names := list.names ++ namesOn [trim row.chars] } := by
  have missing : after? header (trim row.chars) = none := by
    refine Option.eq_none_iff_forall_ne_some.mpr fun rest found => ?_
    exact untold _ (isHeader_iff.mpr (by rw [found]; rfl))
  have skipped : isSkipped (trim row.chars) = true ↔ ¬HasName (trim row.chars) := isSkipped_iff
  by_cases named : HasName (trim row.chars)
  · have kept : isSkipped (trim row.chars) = false := by simpa [named] using skipped
    simp [step, missing, kept, namesOn, named]
  · have skips := skipped.mpr named
    simp [step, missing, skips, namesOn, named]

end step

/-- The names on more lines follow those on the first. -/
theorem namesOn_cons (line : List Char) (lines : List (List Char)) :
    namesOn (line :: lines) = namesOn [line] ++ namesOn lines := by
  rw [← List.singleton_append, namesOn, List.filter_append, List.map_append]
  rfl

namespace TellsSpace

variable {given named found : Namespace} {line value : List Char} {lines : List (List Char)}

/-- A header in front takes the place of the given namespace. -/
theorem cons_header (isHeader : IsHeader line value) (names : Names value named)
    (tells : TellsSpace named lines found) : TellsSpace given (line :: lines) found := by
  cases tells with
  | given untold => exact .last [] lines line value named rfl isHeader names untold
  | last front back later told _ split laterHeader laterNames untold =>
    exact .last (line :: front) back later told found (by rw [split]; rfl) laterHeader laterNames
      untold

/-- Any other line in front makes no difference. -/
theorem cons_untold (own : ∀ value, ¬IsHeader line value) (tells : TellsSpace given lines found) :
    TellsSpace given (line :: lines) found := by
  cases tells with
  | given untold => exact .given (List.forall_mem_cons.mpr ⟨own, untold⟩)
  | last front back later told _ split isHeader names untold =>
    exact .last (line :: front) back later told found (by rw [split]; rfl) isHeader names untold

end TellsSpace

/-- Rows whose lines are understood are taken in: they add their names and tell the namespace.
The induction takes the rows off the front; a header there changes only the namespace that the
others start from. -/
theorem exists_foldlM_step (list : NameList) {rows : List Row}
    (understood : ∀ row ∈ rows, Understood (trim row.chars)) :
    ∃ found, rows.foldlM step list =
        .ok ⟨found, list.names ++ namesOn (rows.map fun row => trim row.chars)⟩ ∧
      TellsSpace list.space (rows.map fun row => trim row.chars) found := by
  induction rows generalizing list with
  | nil =>
    refine ⟨list.space, ?_, .given (fun _ none => absurd none List.not_mem_nil)⟩
    simp [namesOn, pure, Except.pure]
  | cons row rest ih =>
    obtain ⟨own, others⟩ := List.forall_mem_cons.mp understood
    rw [List.foldlM_cons, List.map_cons, namesOn_cons]
    by_cases told : ∃ value, IsHeader (trim row.chars) value
    · obtain ⟨value, isHeader⟩ := told
      obtain ⟨space, names⟩ := own value isHeader
      obtain ⟨found, taken, tells⟩ := ih { list with space := space } others
      refine ⟨found, ?_, tells.cons_header isHeader names⟩
      have nameless : namesOn [trim row.chars] = [] := by simp [namesOn, isHeader.not_hasName]
      rw [step_of_names list isHeader names, nameless, List.nil_append]
      exact taken
    · have untold := not_exists.mp told
      obtain ⟨found, taken, tells⟩ :=
        ih { list with names := list.names ++ namesOn [trim row.chars] } others
      refine ⟨found, ?_, tells.cons_untold untold⟩
      rw [step_of_untold list untold, ← List.append_assoc]
      exact taken

/-- The first row with a header that names no namespace refuses the list. -/
theorem foldlM_step_of_unnamed (list : NameList) {front back : List Row} {row : Row}
    {value : List Char} (understood : ∀ earlier ∈ front, Understood (trim earlier.chars))
    (isHeader : IsHeader (trim row.chars) value) (unnamed : ∀ space, ¬Names value space) :
    (front ++ row :: back).foldlM step list =
      .error ⟨row.number, lineSpan row, .unknownSpace (String.ofList value)⟩ := by
  obtain ⟨found, taken, _⟩ := exists_foldlM_step list understood
  rw [List.foldlM_append, taken]
  show (row :: back).foldlM step _ = _
  rw [List.foldlM_cons, step_of_unnamed _ isHeader unnamed]
  rfl

end AllowList.NameList
