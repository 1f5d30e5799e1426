import AllowList.Proofs.Source.Layout
import AllowList.Proofs.Source.Moved

/-!
# Lists in another layout

Lists with the same contents are read in step. Lines without content change nothing, and the
others come in pairs, one of either list, that have one content and so ask for the same. The two
drafts keep one policy and one place (`Draft.InStep`), and what is told of a line is told of its
partner: both issues are the issue of the content alone, moved to the line.

So lists with the same contents are accepted with one policy or refused for the same, and labels
of the same part of a content cut that part out of either text.
-/

namespace AllowList

open Text

/-- Labels of two texts that agree: they say the same, and what they cut out is the same. -/
structure Label.AgreeIn (leftText rightText : String) (left right : Label) : Prop where
  message : left.message = right.message
  isPrimary : left.isPrimary = right.isPrimary
  part : ∃ part, left.span.Cuts leftText part ∧ right.span.Cuts rightText part

/-- Diagnostics of two texts that agree in everything but the number of their line. -/
structure Diagnostic.AgreeIn (leftText rightText : String) (left right : Diagnostic) : Prop where
  severity : left.severity = right.severity
  code : left.code = right.code
  help : left.help = right.help
  message : ∃ (leftLine rightLine : Nat) (rest : String),
    left.message = "line " ++ toString leftLine ++ ": " ++ rest ∧
    right.message = "line " ++ toString rightLine ++ ": " ++ rest
  labels : List.Forall₂ (Label.AgreeIn leftText rightText) left.labels right.labels

/-- Moved, an issue weighs what it weighs. -/
theorem Issue.isError_moved (shift : Shift) (issue : Issue) :
    (issue.moved shift).isError = issue.isError := by
  obtain ⟨_, _, cause⟩ := issue
  cases cause <;> rfl

namespace Source

namespace Line

/-- A content alone, with no line and no byte in front of it. -/
def alone (content : List Char) : Line :=
  ⟨0, 0, content⟩

/-- How far down a line stands. -/
def shift (line : Line) : Shift :=
  ⟨line.number, line.start⟩

/-- A line is its content alone, moved down. -/
theorem moved_alone (line : Line) : (alone line.content).moved line.shift = line := by
  obtain ⟨number, start, content⟩ := line
  simp [alone, shift, moved]

/-- Lines with one content ask for the same. -/
theorem entry?_congr {left right : Line} (same : left.content = right.content) :
    left.entry? = right.entry? := by
  rw [← left.moved_alone, ← right.moved_alone, entry?_moved, entry?_moved, same]

/-- The issue of a line is that of its content alone, moved down. -/
theorem issueIn?_eq_map_alone (place : Place) (line : Line) :
    line.issueIn? place = ((alone line.content).issueIn? place).map (Issue.moved line.shift) := by
  rw [← issueIn?_moved, moved_alone]

/-- A line that opens a section has no issue. -/
theorem issueIn?_of_opens {line : Line} (opens : line.opens = true) (place : Place) :
    line.issueIn? place = none := by
  rcases opens_iff.mp opens with ⟨name, held⟩ | held
  · simp [issueIn?, issue?_of_entry? held, warning?, attribute?, name?, held, Entry.name?]
  · simp [issueIn?, issue?_of_entry? held, warning?, attribute?, name?, held, Entry.name?]

/-- What is told of a line is labelled where it stands. -/
theorem labelled_of_issueIn? {line : Line} (ends : EndsClear line.content) {place : Place}
    {issue : Issue} (told : line.issueIn? place = some issue) {label : Label}
    (present : label ∈ issue.diagnostic.labels) : line.Labelled issue.cause label := by
  rcases Option.or_eq_some_iff.mp told with refused | ⟨_, warned⟩
  · unfold issue? at refused
    split at refused
    case h_1 cause read =>
      cases refused
      exact labelled_of_read ends read present
    case h_2 => cases refused
  · split at warned
    · refine labelled_of_warning? warned ?_
      obtain ⟨name, _, rfl⟩ := Option.map_eq_some_iff.mp warned
      exact present
    · cases warned

/-- A part of a line's content is cut out of the text by its span in the content alone, moved
down. -/
theorem cuts_moved {text : String} {line : Line} (inText : line ∈ ofText text)
    {before part after : List Char} (content : line.content = before ++ part ++ after) :
    (((alone line.content).spanOf before part).moved line.shift).Cuts text part := by
  obtain ⟨row, placedRow, rfl⟩ := List.mem_map.mp inText
  obtain ⟨front, back, stands, start⟩ := exists_rowAt placedRow
  rw [← spanOf_moved, moved_alone]
  exact (cuts_spanOf stands start content).2.2

/-- The lines of a text have the contents of its rows. -/
theorem map_content_ofText (text : String) :
    (ofText text).map content =
      (text.toList.splitOn '\n').map fun row => trim (uncommented row) := by
  rw [← map_chars_placed, ofText, List.map_map, List.map_map]
  rfl

end Line

/-- Issues of two texts that agree: both are the issue of one content, moved to a line of either
text that has this content. -/
inductive IssuesAgree (leftText rightText : String) : Issue → Issue → Prop where
  | moved {left right : Line} {own : Issue} (inLeft : left ∈ Line.ofText leftText)
    (inRight : right ∈ Line.ofText rightText) (same : left.content = right.content)
    (labelled : ∀ label ∈ own.diagnostic.labels,
      (Line.alone left.content).Labelled own.cause label) :
    IssuesAgree leftText rightText (own.moved left.shift) (own.moved right.shift)

namespace IssuesAgree

variable {leftText rightText : String}

/-- Issues that agree are put into words that agree. -/
theorem diagnostic {left right : Issue} (agree : IssuesAgree leftText rightText left right) :
    left.diagnostic.AgreeIn leftText rightText right.diagnostic := by
  obtain ⟨inLeft, inRight, same, labelled⟩ := agree
  rw [Issue.diagnostic_moved, Issue.diagnostic_moved]
  refine ⟨rfl, rfl, rfl, ⟨_, _, _, rfl, rfl⟩, ?_⟩
  rw [List.forall₂_map_left_iff, List.forall₂_map_right_iff, List.forall₂_same]
  intro label present
  obtain ⟨before, part, after, content, span, _⟩ := labelled label present
  have leftCuts := Line.cuts_moved inLeft content
  have rightCuts := Line.cuts_moved inRight (same.symm.trans content)
  rw [← same] at rightCuts
  rw [← span] at leftCuts rightCuts
  exact ⟨rfl, rfl, part, leftCuts, rightCuts⟩

/-- Of issues that agree both are errors or neither is. -/
theorem isError {left right : Issue} (agree : IssuesAgree leftText rightText left right) :
    left.isError = right.isError := by
  obtain ⟨_, _, _, _⟩ := agree
  rw [Issue.isError_moved, Issue.isError_moved]

end IssuesAgree

namespace Draft

/-- What a line makes of the policy and of the place depends on its entry alone. -/
theorem placed_step (draft : Draft) (line : Line) :
    ((draft.step line).policy, (draft.step line).place) =
      (line.entry?.bind (place? draft.policy draft.place)).getD (draft.policy, draft.place) := by
  unfold step Line.entry?
  cases line.read with
  | error cause => rfl
  | ok held =>
    cases held with
    | none => rfl
    | some entry =>
      simp only [take, Option.bind_some]
      cases place? draft.policy draft.place entry with
      | some placed => rfl
      | none => cases entry <;> rfl

/-- A line adds its own issue, if it has one. -/
theorem issues_step {draft : Draft} (sound : draft.Sound) (line : Line) :
    (draft.step line).issues = draft.issues ++ (line.issueIn? draft.place).toList := by
  cases opens : line.opens with
  | false =>
    rw [(received_step sound opens).issues]
    cases told : line.issueIn? draft.place <;> simp [told]
  | true =>
    rw [Line.issueIn?_of_opens opens, Option.toList_none, List.append_nil]
    rcases Line.opens_iff.mp opens with ⟨name, held⟩ | held
    · exact (step_of_element draft held).2.2
    · exact (step_of_globalSection draft held).2.2

/-- A line without content changes nothing. -/
theorem step_of_empty (draft : Draft) {line : Line} (empty : line.content = []) :
    draft.step line = draft := by
  rw [step, Line.read_of_empty empty]

/-- Lines without content may be left out. -/
theorem foldl_filter_content (draft : Draft) (lines : List Line) :
    (lines.filter fun line => line.content ≠ []).foldl step draft = lines.foldl step draft := by
  induction lines generalizing draft with
  | nil => rfl
  | cons line rest ih =>
    by_cases empty : line.content = []
    · rw [List.filter_cons_of_neg (by simpa using empty), List.foldl_cons,
        step_of_empty draft empty, ih]
    · rw [List.filter_cons_of_pos (by simpa using empty), List.foldl_cons, List.foldl_cons, ih]

/-- Drafts of two texts that are in step: they have one policy and one place, and their issues
agree. -/
structure InStep (leftText rightText : String) (left right : Draft) : Prop where
  sound : left.Sound
  policy : left.policy = right.policy
  place : left.place = right.place
  issues : List.Forall₂ (IssuesAgree leftText rightText) left.issues right.issues

namespace InStep

variable {leftText rightText : String} {left right : Draft}

/-- Of drafts in step both are sound. -/
theorem sound_right (inStep : InStep leftText rightText left right) : right.Sound := by
  intro index here
  rw [← inStep.policy]
  exact inStep.sound index (inStep.place.trans here)

/-- Two lines with one content keep drafts in step. -/
theorem step (inStep : InStep leftText rightText left right) {line partner : Line}
    (inLeft : line ∈ Line.ofText leftText) (inRight : partner ∈ Line.ofText rightText)
    (same : line.content = partner.content) :
    InStep leftText rightText (left.step line) (right.step partner) := by
  have placed := left.placed_step line
  rw [Line.entry?_congr same, inStep.policy, inStep.place, ← right.placed_step] at placed
  have told : List.Forall₂ (IssuesAgree leftText rightText)
      (line.issueIn? left.place).toList (partner.issueIn? right.place).toList := by
    rw [line.issueIn?_eq_map_alone, partner.issueIn?_eq_map_alone, ← same, ← inStep.place]
    -- neither number nor offset counts for a content alone, so both issues come from one
    cases own : (Line.alone line.content).issueIn? left.place with
    | none => exact .nil
    | some issue =>
      have ends : EndsClear (Line.alone line.content).content := by
        obtain ⟨row, _, rfl⟩ := List.mem_map.mp inLeft
        exact Line.endsClear_ofRow row
      refine .cons (.moved inLeft inRight same fun label present => ?_) .nil
      exact Line.labelled_of_issueIn? ends own present
  exact
    { sound := sound_step inStep.sound line
      policy := congrArg Prod.fst placed
      place := congrArg Prod.snd placed
      issues := by
        rw [issues_step inStep.sound, issues_step inStep.sound_right]
        exact List.rel_append inStep.issues told }

/-- Lines that come in pairs with one content keep drafts in step. -/
theorem foldl (inStep : InStep leftText rightText left right) {lines partners : List Line}
    (pairs : List.Forall₂ (fun line partner => line.content = partner.content) lines partners)
    (inLeft : lines ⊆ Line.ofText leftText) (inRight : partners ⊆ Line.ofText rightText) :
    InStep leftText rightText (lines.foldl Draft.step left)
      (partners.foldl Draft.step right) := by
  induction pairs generalizing left right with
  | nil => exact inStep
  | cons same _ ih =>
    obtain ⟨line, later⟩ := List.cons_subset.mp inLeft
    obtain ⟨partner, others⟩ := List.cons_subset.mp inRight
    exact ih (inStep.step line partner same) later others

/-- Drafts in step weigh their issues alike. -/
theorem map_isError (inStep : InStep leftText rightText left right) :
    left.issues.map Issue.isError = right.issues.map Issue.isError := by
  rw [← List.forall₂_eq_eq_eq, List.forall₂_map_left_iff, List.forall₂_map_right_iff]
  exact inStep.issues.imp fun _ _ => IssuesAgree.isError

/-- Drafts in step have equally many warnings. -/
theorem length_warnings (inStep : InStep leftText rightText left right) :
    left.warnings.length = right.warnings.length := by
  have count (draft : Draft) : draft.warnings.length =
      (draft.issues.map Issue.isError).countP (!·) := by
    rw [warnings, ← List.countP_eq_length_filter, List.countP_map]
    rfl
  rw [count, count, inStep.map_isError]

/-- Drafts in step finish alike. -/
theorem finish (inStep : InStep leftText rightText left right) :
    (∃ policy, left.finish = .ok policy ∧ right.finish = .ok policy) ∨
      left.finish = .error left.issues ∧ right.finish = .error right.issues := by
  have errors : left.issues.any Issue.isError = right.issues.any Issue.isError := by
    have refused (draft : Draft) : draft.issues.any Issue.isError =
        (draft.issues.map Issue.isError).any id := by rw [List.any_map]; rfl
    rw [refused, refused, inStep.map_isError]
  unfold Draft.finish
  rw [errors, inStep.policy]
  split
  · exact .inr ⟨rfl, rfl⟩
  · exact .inl ⟨right.policy, rfl, rfl⟩

end InStep

/-- Lists with the same contents are drafted in step. -/
theorem inStep_ofText (flags : Flags) {left right : String} {contents : List (List Char)}
    (ofLeft : HasContents (left.toList.splitOn '\n') contents)
    (ofRight : HasContents (right.toList.splitOn '\n') contents) :
    InStep left right (ofText flags left) (ofText flags right) := by
  have start : InStep left right (empty flags) (empty flags) :=
    ⟨sound_empty flags, rfl, rfl, .nil⟩
  rw [hasContents_iff, ← Line.map_content_ofText, List.filter_map] at ofLeft ofRight
  rw [ofText, ofText, ← foldl_filter_content, ← foldl_filter_content _ (Line.ofText right)]
  refine start.foldl ?_ (List.filter_subset_self _) (List.filter_subset_self _)
  have pairs := ofLeft.trans ofRight.symm
  rwa [← List.forall₂_eq_eq_eq, List.forall₂_map_left_iff, List.forall₂_map_right_iff] at pairs

end Draft

/-- Layout does not change a list.

A list is told by the contents of its rows: what stands in front of a row's first comment mark,
trimmed of white space. A text can be relaid into another, by white space around its rows, by
comments and by rows without content, exactly when the rows of both have the same contents, empty
ones apart. Two such lists are both accepted, with one policy and equally many warnings, or both
refused, and then their diagnostics agree one by one: in severity, code, help, message and
labels, up to the number of the line, and each label cuts the same part out of either text. -/
theorem read_of_layout (flags : Flags) (left right : String) :
    (Relaid (left.toList.splitOn '\n') (right.toList.splitOn '\n') ↔
      ∃ contents, HasContents (left.toList.splitOn '\n') contents ∧
        HasContents (right.toList.splitOn '\n') contents) ∧
    ∀ contents, HasContents (left.toList.splitOn '\n') contents →
      HasContents (right.toList.splitOn '\n') contents →
      (∃ policy, (read flags left).value = .ok policy ∧ (read flags right).value = .ok policy ∧
        ((read flags left).records.filter Log.Record.tellsWarning).length =
          ((read flags right).records.filter Log.Record.tellsWarning).length) ∨
      ∃ leftIssues rightIssues, (read flags left).value = .error leftIssues ∧
        (read flags right).value = .error rightIssues ∧
        List.Forall₂ (Diagnostic.AgreeIn left right) (leftIssues.map Issue.diagnostic)
          (rightIssues.map Issue.diagnostic) := by
  refine ⟨relaid_iff, fun contents ofLeft ofRight => ?_⟩
  have inStep := Draft.inStep_ofText flags ofLeft ofRight
  rw [value_read, value_read, filter_records_read, filter_records_read, List.length_map,
    List.length_map]
  rcases inStep.finish with ⟨policy, leftOk, rightOk⟩ | ⟨leftRefused, rightRefused⟩
  · exact .inl ⟨policy, leftOk, rightOk, inStep.length_warnings⟩
  · refine .inr ⟨_, _, leftRefused, rightRefused, ?_⟩
    rw [List.forall₂_map_left_iff, List.forall₂_map_right_iff]
    exact inStep.issues.imp fun _ _ => IssuesAgree.diagnostic

/-- A list with an attribute in front of its element, and the same list in another layout. -/
def twoLayouts : String × String :=
  ("- a\ndiv\n- b", "\t- a // x\r\n\r\n//// y\r\n\u00A0div\r\n- b/// z // w")

/-- The same with a third row that is refused. -/
def twoFaultyLayouts : String × String :=
  ("- a\ndiv\nb é", "- a\r\n//\r\ndiv // b\r\n \t\r\n\u00A0b é//\r")

theorem read_of_layout_twoLayouts :
    Relaid (twoFaultyLayouts.1.toList.splitOn '\n') (twoFaultyLayouts.2.toList.splitOn '\n') ∧
    (read {} twoLayouts.2).value = .ok { elements := [⟨⟨some .html, "div"⟩, [.bare "b"], []⟩] } ∧
    List.Forall₂ (Diagnostic.AgreeIn twoFaultyLayouts.1 twoFaultyLayouts.2)
      ([⟨1, ⟨0, 3⟩, .detached (.bare "a")⟩,
        ⟨3, ⟨8, 12⟩, .foreignKeyword .element "b" ⟨8, 9⟩⟩].map Issue.diagnostic)
      ([⟨1, ⟨0, 3⟩, .detached (.bare "a")⟩,
        ⟨5, ⟨25, 29⟩, .foreignKeyword .element "b" ⟨25, 26⟩⟩].map Issue.diagnostic) := by
  have contents : HasContents (twoLayouts.1.toList.splitOn '\n')
      ["- a".toList, "div".toList, "- b".toList] := hasContents_iff.mpr (by decide)
  have relaid : HasContents (twoLayouts.2.toList.splitOn '\n')
      ["- a".toList, "div".toList, "- b".toList] := hasContents_iff.mpr (by decide)
  have faulty : HasContents (twoFaultyLayouts.1.toList.splitOn '\n')
      ["- a".toList, "div".toList, "b é".toList] := hasContents_iff.mpr (by decide)
  have faultyRelaid : HasContents (twoFaultyLayouts.2.toList.splitOn '\n')
      ["- a".toList, "div".toList, "b é".toList] := hasContents_iff.mpr (by decide)
  obtain ⟨_, reads⟩ := read_of_layout {} twoLayouts.1 twoLayouts.2
  obtain ⟨layouts, refuses⟩ := read_of_layout {} twoFaultyLayouts.1 twoFaultyLayouts.2
  refine ⟨layouts.mpr ⟨_, faulty, faultyRelaid⟩, ?_, ?_⟩
  · rcases reads _ contents relaid with ⟨policy, plain, other, _⟩ | ⟨_, _, refused, _⟩
    · rw [other, ← plain]
      rfl
    · cases refused
  · rcases refuses _ faulty faultyRelaid with ⟨_, accepted, _⟩ | ⟨_, _, plain, other, agree⟩
    · cases accepted
    · cases plain
      cases other
      exact agree

end Source

end AllowList
