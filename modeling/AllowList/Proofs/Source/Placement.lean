import AllowList.Proofs.Source.Run
import Mathlib.Algebra.Ring.Nat

/-!
# Where entries land

An accepted list puts every entry in one place. Its sections say which: attributes go to
the element, or to the global section, that was opened last. Attributes in front of all
sections have no place; they are not in the policy and each is told in one warning.
-/

namespace AllowList

/-- Whether a record tells of a warning. -/
def Log.Record.tellsWarning (record : Log.Record) : Bool :=
  record.message == "Source list warning"

/-- The record that tells of a warning. -/
def Issue.record (issue : Issue) : Log.Record :=
  ⟨.warn, "Source list warning", [("diagnostic", issue.diagnostic.display)]⟩

namespace Source

namespace Draft

/-- The warnings that a draft has met. -/
def warnings (draft : Draft) : List Issue :=
  draft.issues.filter (!·.isError)

/-- Of warnings, a draft has told each that it has met, and no other. -/
def ToldWarnings (draft : Draft) : Prop :=
  draft.records.filter Log.Record.tellsWarning = draft.warnings.map Issue.record

/-- Reporting an issue tells of it if it is a warning. -/
theorem ToldWarnings.report {draft : Draft} (told : draft.ToldWarnings) (issue : Issue) :
    (draft.report issue).ToldWarnings := by
  unfold ToldWarnings warnings at told ⊢
  cases error : issue.isError with
  | true => simp [Draft.report, error, told]
  | false => simp [Draft.report, error, told, Issue.record, Log.Record.tellsWarning]

/-- One line keeps it so that warnings are told. -/
theorem ToldWarnings.step {draft : Draft} (told : draft.ToldWarnings) (line : Line) :
    (draft.step line).ToldWarnings := by
  unfold Draft.step
  cases line.read with
  | error cause => exact told.report _
  | ok held =>
    cases held with
    | none => exact told
    | some entry =>
      have silent (record : Log.Record) (other : record.tellsWarning = false) :
          ToldWarnings { draft with records := draft.records ++ [record] } := by
        unfold ToldWarnings warnings at told ⊢
        simp [told, other]
      simp only [take]
      split
      · exact silent _ rfl
      · split
        · exact (silent _ rfl).report _
        · exact (silent _ rfl).report _
        · exact silent _ rfl

/-- A run tells each warning that it meets. -/
theorem ToldWarnings.foldl {draft : Draft} (told : draft.ToldWarnings) (lines : List Line) :
    (lines.foldl Draft.step draft).ToldWarnings := by
  induction lines generalizing draft with
  | nil => exact told
  | cons line rest ih => exact ih (told.step line)

end Draft

namespace Line

/-- What a line is refused for is an error. -/
theorem severity_of_read {line : Line} {cause : Cause} (refused : line.read = .error cause) :
    cause.severity = .error := by
  have named {role : Role} {unqualified : Option Namespace} {before chars : List Char}
      (fault : nameOf line role unqualified before chars = .error cause) :
      cause.severity = .error := by
    unfold nameOf at fault
    split at fault
    · cases fault
      rfl
    · split at fault
      · cases fault
        rfl
      · split at fault
        · cases fault
        · split at fault
          · cases fault
            rfl
          · cases fault
  unfold read at refused
  split at refused
  · cases refused
  · split at refused
    · split at refused
      · cases refused
      · cases refused
        rfl
    · split at refused
      · exact named (error_of_map refused)
      · exact named (error_of_map refused)

/-- A refused line has an error. -/
theorem isError_of_issue? {line : Line} {issue : Issue} (refused : line.issue? = some issue) :
    issue.isError = true := by
  unfold issue? at refused
  split at refused
  case h_1 cause read =>
    cases refused
    simp [Issue.isError, severity_of_read read]
  case h_2 => cases refused

/-- An attribute that belongs nowhere is worth a warning and no more. -/
theorem isError_of_warning? {line : Line} {issue : Issue} (warned : line.warning? = some issue) :
    issue.isError = false := by
  obtain ⟨name, _, rfl⟩ := Option.map_eq_some_iff.mp warned
  rfl

/-- A line with a warning holds an entry, so it is not refused. -/
theorem issue?_of_warning? {line : Line} {issue : Issue} (warned : line.warning? = some issue) :
    line.issue? = none := by
  cases held : line.entry? with
  | none => simp [warning?, attribute?, name?, held] at warned
  | some entry => exact issue?_of_entry? held

/-- Where nothing is opened, what is no error among the issues of a line is its warning. -/
theorem filter_issueIn? (line : Line) :
    (line.issueIn? .detached).filter (!·.isError) = line.warning? := by
  cases warned : line.warning? with
  | some issue =>
    simp [issueIn?, issue?_of_warning? warned, warned, Option.filter, isError_of_warning? warned]
  | none =>
    cases refused : line.issue? with
    | none => simp [issueIn?, refused, warned]
    | some issue => simp [issueIn?, refused, Option.filter, isError_of_issue? refused]

end Line

/-- What lines of sections are told is no warning. -/
theorem filter_filterMap_issue? (lines : List Line) :
    (lines.filterMap Line.issue?).filter (!·.isError) = [] := by
  rw [List.filter_eq_nil_iff]
  intro issue present
  obtain ⟨line, _, refused⟩ := List.mem_filterMap.mp present
  simp [Line.isError_of_issue? refused]

/-- The warnings of a list are those of its loose lines, in their order. -/
theorem warnings_ofText (flags : Flags) (text : String) :
    (Draft.ofText flags text).warnings = (Division.ofText text).loose.filterMap Line.warning? := by
  obtain ⟨_, issues⟩ := Draft.foldl_step (Draft.sound_empty flags) (Line.ofText text)
  have same : (fun line : Line => (line.issueIn? .detached).filter (!·.isError)) =
      Line.warning? := funext Line.filter_issueIn?
  rw [Draft.warnings, Draft.ofText, issues, List.filter_append, List.filter_append,
    filter_filterMap_issue?, List.filter_filterMap]
  simp [Draft.empty, same, Division.ofText]

/-- What is read of a list is what its draft comes to. -/
theorem value_read (flags : Flags) (text : String) :
    (read flags text).value = (Draft.ofText flags text).finish := by
  simp only [read, Logged.value_bind]
  cases (Draft.ofText flags text).finish <;> rfl

/-- Reading a list tells the warnings of its draft. -/
theorem filter_records_read (flags : Flags) (text : String) :
    (read flags text).records.filter Log.Record.tellsWarning =
      (Draft.ofText flags text).warnings.map Issue.record := by
  have start : (Draft.empty flags).ToldWarnings := rfl
  have told : (Draft.ofText flags text).ToldWarnings := start.foldl (Line.ofText text)
  rw [← told]
  simp only [read, Logged.records_bind]
  cases (Draft.ofText flags text).finish with
  | error issues => simp [Logged.tell, Log.Record.tellsWarning]
  | ok policy => simp [Logged.tell, Log.Record.tellsWarning]

end Source

/-- How many attributes a policy lists, under elements and for every element. -/
def Policy.attributeCount (policy : Policy) : Nat :=
  (policy.elements.map fun rule => rule.allowed.length + rule.removed.length).sum +
    policy.globals.length + policy.removed.length

namespace Source

/-- An attribute's line has one of the two markers. -/
theorem length_filterMap_attribute? (lines : List Line) :
    (lines.filterMap Line.attribute?).length =
      (namesOf lines .allow).length + (namesOf lines .remove).length := by
  induction lines with
  | nil => rfl
  | cons line rest ih =>
    unfold namesOf at ih ⊢
    cases held : line.entry? with
    | none => simp [Line.attribute?, Line.name?, held, ih]
    | some entry =>
      cases entry with
      | globalSection | element name =>
        simp [Line.attribute?, Line.name?, held, Entry.name?, ih]
      | allow name | remove name =>
        simp [Line.attribute?, Line.name?, held, Entry.name?, ih]
        omega

/-- A line that opens a section is no attribute's. -/
theorem Section.attribute?_opener (part : Section) : part.opener.attribute? = none := by
  refine Option.not_isSome_iff_eq_none.mp fun given => ?_
  have closed := part.opener.opens_of_attribute? given
  rw [part.opens] at closed
  cases closed

/-- Sections list every attribute of their lines, each once. -/
theorem attributeCount_policyOf (flags : Flags) (sections : List Section) :
    (policyOf flags sections).attributeCount =
      ((sections.flatMap Section.lines).filterMap Line.attribute?).length := by
  induction sections with
  | nil => rfl
  | cons part rest ih =>
    have body := length_filterMap_attribute? part.body
    rw [List.flatMap_cons, List.filterMap_append, List.length_append, ← ih, Section.lines,
      List.filterMap_cons, part.attribute?_opener, body]
    rcases Line.opens_iff.mp part.opens with ⟨name, held⟩ | held
    · have rule : part.rule? = some
          { name, allowed := namesOf part.body .allow, removed := namesOf part.body .remove } := by
        simp [Section.rule?, Line.element?, held]
      simp [Policy.attributeCount, policyOf, Section.globals, rule, held]
      omega
    · have rule : part.rule? = none := by simp [Section.rule?, Line.element?, held]
      simp [Policy.attributeCount, policyOf, Section.globals, rule, held]
      omega

/-- Among lines that open nothing there is no element's. -/
theorem filterMap_element?_of_closed {lines : List Line}
    (closed : ∀ line ∈ lines, line.opens = false) : lines.filterMap Line.element? = [] := by
  refine List.filterMap_eq_nil_iff.mpr fun line present => ?_
  cases held : line.entry? with
  | none => simp [Line.element?, held]
  | some entry =>
    obtain ⟨marker, name, rfl⟩ := Line.exists_of_not_opens (closed line present) held
    cases marker <;> simp [Line.element?, held, Marker.entry]

/-- Sections have one rule for each of their element's lines. -/
theorem map_name_policyOf (flags : Flags) (sections : List Section) :
    (policyOf flags sections).elements.map ElementRule.name =
      (sections.flatMap Section.lines).filterMap Line.element? := by
  induction sections with
  | nil => rfl
  | cons part rest ih =>
    have bare := filterMap_element?_of_closed part.closed
    rw [List.flatMap_cons, List.filterMap_append, ← ih, Section.lines, List.filterMap_cons, bare]
    cases element : part.opener.element? <;> simp [policyOf, Section.rule?, element]

/-- The policy that a list drafts is what its sections add up to. -/
theorem policy_ofText (flags : Flags) (text : String) :
    (Draft.ofText flags text).policy = policyOf flags (Division.ofText text).sections := by
  obtain ⟨policy, _⟩ := Draft.foldl_step (Draft.sound_empty flags) (Line.ofText text)
  exact policy

/-- A draft that is accepted gives its policy. -/
theorem Draft.policy_of_finish {draft : Draft} {policy : Policy}
    (accepted : draft.finish = .ok policy) : draft.policy = policy := by
  unfold finish at accepted
  split at accepted
  · cases accepted
  · exact Except.ok.inj accepted

/-- Every entry of an accepted list lands in one place, the right one.

The list's lines are divided into loose lines and sections. The policy has one rule for
each element's line, in order, with the names of the attributes' lines in its section:
those up to the next element's line or section mark. What it has for every element are
the names in the sections that a section mark opens. The attributes' lines in front of
all sections are not in the policy; each of them is told in one warning, in order. So
there are as many attributes' lines as attributes in the policy and warnings together.

In whatever state a run may be, attributes go to an element only while its rule is the
last one, and then the rule can be changed. -/
theorem read_places_entries (flags : Flags) (text : String) {policy : Policy}
    (accepted : (read flags text).value = .ok policy) :
    (Division.ofText text).lines = Line.ofText text ∧
    policy.elements.map ElementRule.name = (Line.ofText text).filterMap Line.element? ∧
    policy.elements = (Division.ofText text).sections.filterMap Section.rule? ∧
    policy.globals = (Division.ofText text).sections.flatMap (Section.globals .allow) ∧
    policy.removed = (Division.ofText text).sections.flatMap (Section.globals .remove) ∧
    (read flags text).records.filter Log.Record.tellsWarning =
      ((Division.ofText text).loose.filterMap Line.warning?).map Issue.record ∧
    ((Line.ofText text).filterMap Line.attribute?).length = policy.attributeCount +
      ((read flags text).records.filter Log.Record.tellsWarning).length ∧
    ∀ (lines : List Line) (index : Nat),
      (lines.foldl Draft.step (.empty flags)).place = .element index →
        index + 1 = (lines.foldl Draft.step (.empty flags)).policy.elements.length ∧
        ∀ change, ∃ changed, (lines.foldl Draft.step (.empty flags)).policy.changeRule? index
          change = some changed := by
  rw [value_read] at accepted
  have built : policy = policyOf flags (Division.ofText text).sections :=
    (Draft.policy_of_finish accepted).symm.trans (policy_ofText flags text)
  have whole : (Division.ofText text).lines = Line.ofText text := Division.lines_ofLines _
  have told : (read flags text).records.filter Log.Record.tellsWarning =
      ((Division.ofText text).loose.filterMap Line.warning?).map Issue.record := by
    rw [filter_records_read, warnings_ofText]
  have looseElements : (Division.ofText text).loose.filterMap Line.element? = [] :=
    filterMap_element?_of_closed (Division.ofText text).closed
  refine ⟨whole, ?_, congrArg Policy.elements built, congrArg Policy.globals built,
    congrArg Policy.removed built, told, ?_, ?_⟩
  · rw [built, map_name_policyOf, ← whole, Division.lines, List.filterMap_append, looseElements,
      List.nil_append]
  · have warned : ((Division.ofText text).loose.filterMap Line.warning?).length =
        ((Division.ofText text).loose.filterMap Line.attribute?).length := by
      simp [List.length_filterMap_eq_countP, Line.warning?]
    rw [built, attributeCount_policyOf, told, List.length_map, warned, ← whole, Division.lines,
      List.filterMap_append, List.length_append, Nat.add_comm]
  · intro lines index here
    have sound := Draft.sound_foldl (Draft.sound_empty flags) lines
    exact ⟨sound index here, sound.exists_changeRule? here⟩

/-- A list with a loose line, two elements and two global sections. -/
def twiceGlobal : String :=
  "! z\ndiv\n- a\n! b\n[HTML Global]\n- c\nsvg x\n\n- xml d\n[ Global]\n! e"

/-- The policy of that list. -/
def twiceGlobalPolicy : Policy where
  elements := [⟨⟨some .html, "div"⟩, [.bare "a"], [.bare "b"]⟩,
    ⟨⟨some .svg, "x"⟩, [.within .xml "d"], []⟩]
  globals := [.bare "c"]
  removed := [.bare "e"]

theorem read_places_entries_twiceGlobal :
    (read {} twiceGlobal).value = .ok twiceGlobalPolicy ∧
    (Line.ofText twiceGlobal).filterMap Line.element? =
      [⟨some .html, "div"⟩, ⟨some .svg, "x"⟩] ∧
    (read {} twiceGlobal).records.filter Log.Record.tellsWarning =
      [⟨.warn, "Source list warning", [("diagnostic", "warning[E200]: line 1: " ++
        "attribute `z` is not inside an element or global section")]⟩] ∧
    ((Line.ofText twiceGlobal).filterMap Line.attribute?).length = 6 := by
  have accepted : (read {} twiceGlobal).value = .ok twiceGlobalPolicy := rfl
  obtain ⟨_, elements, _, _, _, told, count, _⟩ := read_places_entries {} twiceGlobal accepted
  refine ⟨accepted, elements.symm, told.trans rfl, ?_⟩
  rw [count, told]
  rfl

end Source

end AllowList
