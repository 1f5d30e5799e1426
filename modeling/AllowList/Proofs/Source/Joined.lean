import AllowList.Proofs.Source.Moved

/-!
# Two lists joined

A list behind another is read as on its own, further down, but for its loose lines: they
go to the place that the first list has come to. So what the two add up to is known from
their own drafts. When the second list has no attribute in front of its sections, it does
not depend on the first at all, and policies and issues are those of both, one list after
the other.
-/

namespace AllowList.Source

open Text

/-- Lists that have no warning give no names to the place in front of them. -/
theorem namesOf_loose_of_warnings {flags : Flags} {text : String}
    (silent : (Draft.ofText flags text).warnings = []) (marker : Marker) :
    namesOf (Division.ofText text).loose marker = [] := by
  rw [warnings_ofText, List.filterMap_eq_nil_iff] at silent
  refine List.filterMap_eq_nil_iff.mpr fun line loose => ?_
  have none := Option.map_eq_none_iff.mp (silent line loose)
  obtain ⟨allowed, removed⟩ := Option.or_eq_none_iff.mp none
  cases marker with
  | allow => exact allowed
  | remove => exact removed

namespace Draft

/-- A run over moved lines does what a run over the lines does, and tells of it further
down. -/
theorem foldl_moved {draft : Draft} (sound : draft.Sound) (shift : Shift) (lines : List Line) :
    ((lines.map (Line.moved shift)).foldl step draft).policy =
        (draft.policy.receive (namesOf (Division.ofLines lines).loose) draft.place).append
          (policyOf draft.policy.flags (Division.ofLines lines).sections) ∧
      ((lines.map (Line.moved shift)).foldl step draft).issues = draft.issues ++
        ((Division.ofLines lines).loose.filterMap (Line.issueIn? draft.place) ++
          ((Division.ofLines lines).sections.flatMap Section.lines).filterMap
            Line.issue?).map (Issue.moved shift) := by
  obtain ⟨policy, issues⟩ := foldl_step sound (lines.map (Line.moved shift))
  have part (part : Section) :
      (part.moved shift).lines = part.lines.map (Line.moved shift) := rfl
  rw [policy, issues, Division.ofLines_moved]
  constructor
  · simp only [Division.moved, namesOf_moved, policyOf_moved]
  · simp only [Division.moved, List.flatMap_map, part, ← List.map_flatMap, List.filterMap_map,
      Function.comp_def, Line.issueIn?_moved, Line.issue?_moved, List.map_append,
      List.map_filterMap]

variable (flags : Flags) (first second : String)

/-- Two joined lists are read one after the other. -/
theorem ofText_joined : ofText flags (first ++ "\n" ++ second) =
    ((Line.ofText second).map (Line.moved (.behind first))).foldl step (ofText flags first) := by
  rw [ofText, Line.ofText_joined, List.foldl_append]
  rfl

/-- Every list leaves a sound draft. -/
theorem sound_ofText (text : String) : (ofText flags text).Sound :=
  sound_foldl (sound_empty flags) (Line.ofText text)

/-- What is drafted of two joined lists: names that the second has in front of its
sections go to the place of the first, and the rest is appended. -/
theorem policy_joined :
    (ofText flags (first ++ "\n" ++ second)).policy =
      ((ofText flags first).policy.receive (namesOf (Division.ofText second).loose)
        (ofText flags first).place).append (ofText flags second).policy := by
  obtain ⟨policy, _⟩ :=
    foldl_moved (sound_ofText flags first) (.behind first) (Line.ofText second)
  rw [ofText_joined, policy, policy_ofText flags second]
  rfl

/-- The errors of two joined lists are those of the first and those of the second, moved. -/
theorem errors_joined :
    (ofText flags (first ++ "\n" ++ second)).errors = (ofText flags first).errors ++
      (ofText flags second).errors.map (Issue.moved (.behind first)) := by
  simp only [errors_ofText, Line.ofText_joined, List.filterMap_append, List.filterMap_map,
    Function.comp_def, Line.issue?_moved, List.map_filterMap]

/-- The issues of two joined lists are those of the first and those of the second, moved;
but where the first has opened anything, the second has its errors only. -/
theorem issues_joined :
    (ofText flags (first ++ "\n" ++ second)).issues = (ofText flags first).issues ++
      (if (ofText flags first).place = .detached then (ofText flags second).issues
        else (ofText flags second).errors).map (Issue.moved (.behind first)) := by
  obtain ⟨_, issues⟩ :=
    foldl_moved (sound_ofText flags first) (.behind first) (Line.ofText second)
  rw [ofText_joined, issues]
  split
  case isTrue nowhere =>
    -- the second list is read from the place that it would begin with alone
    obtain ⟨_, alone⟩ := foldl_step (sound_empty flags) (Line.ofText second)
    have own : (ofText flags second).issues = _ := alone
    rw [nowhere, own]
    rfl
  case isFalse placed =>
    -- loose lines have a place now, so all lines are told as those of sections are
    have whole : (Division.ofLines (Line.ofText second)).loose ++
        (Division.ofLines (Line.ofText second)).sections.flatMap Section.lines =
          Line.ofText second := Division.lines_ofLines (Line.ofText second)
    rw [issueIn?_of_placed placed, ← List.filterMap_append, whole, errors_ofText]

/-- Without warnings, all issues of a draft are errors. -/
theorem errors_of_warnings {draft : Draft} (silent : draft.warnings = []) :
    draft.errors = draft.issues := by
  have weigh : ∀ issue ∈ draft.issues, issue.isError = true := by
    intro issue told
    by_contra light
    have warning : issue ∈ draft.warnings := List.mem_filter.mpr ⟨told, by simp [light]⟩
    rw [silent] at warning
    cases warning
  exact List.filter_eq_self.mpr weigh

end Draft

/-- A list is accepted with the policy that it drafts, when it has no error. -/
theorem value_read_eq_ok_iff {flags : Flags} {text : String} {policy : Policy} :
    (read flags text).value = .ok policy ↔
      (Draft.ofText flags text).errors = [] ∧ (Draft.ofText flags text).policy = policy := by
  rw [value_read]
  constructor
  · intro accepted
    exact ⟨Draft.finish_eq_ok_iff.mp ⟨policy, accepted⟩, Draft.policy_of_finish accepted⟩
  · rintro ⟨clean, same⟩
    obtain ⟨other, accepted⟩ := Draft.finish_eq_ok_iff.mpr clean
    rw [accepted, ← same, Draft.policy_of_finish accepted]

/-- A list that is accepted gives its policy the flags it was read with. -/
theorem flags_of_read {flags : Flags} {text : String} {policy : Policy}
    (accepted : (read flags text).value = .ok policy) : policy.flags = flags := by
  obtain ⟨_, rfl⟩ := value_read_eq_ok_iff.mp accepted
  rw [policy_ofText]
  rfl

/-- Two joined lists are accepted when both are, with both policies: the first one
receives the names that the second has in front of its sections. -/
theorem value_read_joined (flags : Flags) (first second : String) (policy : Policy) :
    (read flags (first ++ "\n" ++ second)).value = .ok policy ↔
      ∃ front back, (read flags first).value = .ok front ∧
        (read flags second).value = .ok back ∧
        policy = (front.receive (namesOf (Division.ofText second).loose)
          (Draft.ofText flags first).place).append back := by
  simp only [value_read_eq_ok_iff, Draft.errors_joined, Draft.policy_joined,
    List.append_eq_nil_iff, List.map_eq_nil_iff]
  constructor
  · rintro ⟨⟨firstClean, secondClean⟩, rfl⟩
    exact ⟨_, _, ⟨firstClean, rfl⟩, ⟨secondClean, rfl⟩, rfl⟩
  · rintro ⟨front, back, ⟨firstClean, rfl⟩, ⟨secondClean, rfl⟩, rfl⟩
    exact ⟨⟨firstClean, secondClean⟩, rfl⟩

/-- Reading is compositional over joined lists.

The errors of two joined lists are those of the first, and behind them those of the
second with their lines' numbers raised by the rows of the first, and their labels moved
by its bytes and the newline's. If the second on its own has no warning, then all issues
compose so, and the two are accepted exactly when each is, with the entries of the first
policy followed by those of the second.

If the second has attributes in front of its sections, they go to the place that the
first has come to, and are not told as warnings, unless that is nowhere: then the
warnings stay. -/
theorem read_joined (flags : Flags) (first second : String) :
    (∀ issue : Issue, (issue.moved (.behind first)).diagnostic =
      { issue.diagnostic with
        message := "line " ++ toString (issue.line + (rows first.toList).length) ++ ": " ++
          issue.cause.message
        labels := issue.diagnostic.labels.map fun label =>
          { label with
            span :=
              ⟨label.span.start + (first.utf8ByteSize + 1),
                label.span.stop + (first.utf8ByteSize + 1)⟩ } }) ∧
    (Draft.ofText flags (first ++ "\n" ++ second)).errors =
      (Draft.ofText flags first).errors ++
        (Draft.ofText flags second).errors.map (Issue.moved (.behind first)) ∧
    ((Draft.ofText flags second).warnings = [] →
      (Draft.ofText flags (first ++ "\n" ++ second)).issues =
        (Draft.ofText flags first).issues ++
          (Draft.ofText flags second).issues.map (Issue.moved (.behind first)) ∧
      ∀ policy, (read flags (first ++ "\n" ++ second)).value = .ok policy ↔
        ∃ front back, (read flags first).value = .ok front ∧
          (read flags second).value = .ok back ∧ policy = front.append back) ∧
    (Draft.ofText flags (first ++ "\n" ++ second)).issues =
      (Draft.ofText flags first).issues ++
        (if (Draft.ofText flags first).place = .detached then (Draft.ofText flags second).issues
          else (Draft.ofText flags second).errors).map (Issue.moved (.behind first)) ∧
    ∀ policy, (read flags (first ++ "\n" ++ second)).value = .ok policy ↔
      ∃ front back, (read flags first).value = .ok front ∧
        (read flags second).value = .ok back ∧
        policy = (front.receive (namesOf (Division.ofText second).loose)
          (Draft.ofText flags first).place).append back := by
  refine ⟨Issue.diagnostic_moved (.behind first), Draft.errors_joined flags first second, ?_,
    Draft.issues_joined flags first second, value_read_joined flags first second⟩
  intro silent
  constructor
  · rw [Draft.issues_joined, Draft.errors_of_warnings silent, ite_self]
  · intro policy
    have nothing (front : Policy) : front.receive (namesOf (Division.ofText second).loose)
        (Draft.ofText flags first).place = front :=
      receive_nothing (namesOf_loose_of_warnings silent) _
    rw [value_read_joined]
    simp only [nothing]

/-- Behind an element's line, an attribute in front of the second list's sections is the
element's; a second list without one is read as on its own. -/
theorem read_joined_behindElement :
    (read {} ("- a\ndiv" ++ "\n" ++ "! b\nsvg x\n- c")).value =
      .ok { elements := [⟨⟨some .html, "div"⟩, [], [.bare "b"]⟩,
        ⟨⟨some .svg, "x"⟩, [.bare "c"], []⟩] } ∧
    (Draft.ofText {} "svg x\ny z").warnings = [] ∧
    (Draft.ofText {} ("- a\ndiv" ++ "\n" ++ "svg x\ny z")).issues =
      [⟨1, ⟨0, 3⟩, .detached (.bare "a")⟩,
        ⟨4, ⟨14, 17⟩, .foreignKeyword .element "y" ⟨14, 15⟩⟩] := by
  obtain ⟨_, _, _, _, accepted⟩ := read_joined {} "- a\ndiv" "! b\nsvg x\n- c"
  obtain ⟨_, _, silent, _, _⟩ := read_joined {} "- a\ndiv" "svg x\ny z"
  refine ⟨?_, rfl, ?_⟩
  · exact (accepted _).mpr ⟨{ elements := [⟨⟨some .html, "div"⟩, [], []⟩] },
      { elements := [⟨⟨some .svg, "x"⟩, [.bare "c"], []⟩] }, rfl, rfl, rfl⟩
  · rw [(silent rfl).1]
    rfl

end AllowList.Source
