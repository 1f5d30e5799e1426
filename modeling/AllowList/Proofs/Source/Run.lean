import AllowList.Proofs.Source.Sections

/-!
# What a run makes of a draft

The place of a draft is where attributes go. It is an element's only while that
element's rule is the last one, so the rule is always there: such a draft is `Sound`,
and every line keeps it so.

From a sound draft a run over a list does three things. The names of loose lines are put
in the place the draft has come to, or are told as warnings if that is nowhere. Then
each section adds its own rule, or its names for every element. And each refused line is
told as an error. `Draft.foldl_step` says so for every list; a whole text is the case of
the empty draft, and a text behind another is the case of the other's draft.
-/

namespace AllowList

/-- A rule that has received names. -/
def ElementRule.receive (rule : ElementRule) (names : Source.Marker → List QName) :
    ElementRule :=
  { rule with allowed := rule.allowed ++ names .allow, removed := rule.removed ++ names .remove }

/-- A policy that has received names in a place. -/
def Policy.receive (policy : Policy) (names : Source.Marker → List QName) :
    Source.Place → Policy
  | .detached => policy
  | .global =>
    { policy with
      globals := policy.globals ++ names .allow, removed := policy.removed ++ names .remove }
  | .element index =>
    { policy with elements := policy.elements.modify index (·.receive names) }

namespace Source

/-- The policy that sections add up to. -/
def policyOf (flags : Flags) (sections : List Section) : Policy where
  elements := sections.filterMap Section.rule?
  globals := sections.flatMap (Section.globals .allow)
  removed := sections.flatMap (Section.globals .remove)
  flags := flags

/-- Receiving nothing changes nothing. -/
theorem receive_nothing {policy : Policy} {names : Marker → List QName}
    (nothing : ∀ marker, names marker = []) (place : Place) :
    policy.receive names place = policy := by
  cases place with
  | detached => rfl
  | global => simp [Policy.receive, nothing]
  | element index =>
    have same : (fun rule : ElementRule => rule.receive names) = id := by
      funext rule
      simp [ElementRule.receive, nothing]
    simp [Policy.receive, same]

/-- Names that are received one list after another are received together. -/
theorem receive_receive (policy : Policy) (first second : List Line) (place : Place) :
    (policy.receive (namesOf first) place).receive (namesOf second) place =
      policy.receive (namesOf (first ++ second)) place := by
  cases place with
  | detached => rfl
  | global => simp [Policy.receive, namesOf]
  | element index =>
    have both (rule : ElementRule) : (rule.receive (namesOf first)).receive (namesOf second) =
        rule.receive (namesOf (first ++ second)) := by
      simp [ElementRule.receive, namesOf]
    simp only [Policy.receive, List.modify_modify_eq, Function.comp_def, both]

/-- Receiving names adds no rule. -/
theorem length_elements_receive (policy : Policy) (names : Marker → List QName)
    (place : Place) : (policy.receive names place).elements.length = policy.elements.length := by
  cases place <;> simp [Policy.receive]

namespace Draft

/-- A draft whose place, if it is an element's, is that of the last rule. -/
def Sound (draft : Draft) : Prop :=
  ∀ index, draft.place = .element index → index + 1 = draft.policy.elements.length

theorem sound_empty (flags : Flags) : (empty flags).Sound := by
  intro index absent
  cases absent

/-- What lines that open nothing make of a draft. -/
structure Received (before : Draft) (lines : List Line) (after : Draft) : Prop where
  policy : after.policy = before.policy.receive (namesOf lines) before.place
  place : after.place = before.place
  issues : after.issues = before.issues ++ lines.filterMap (Line.issueIn? before.place)

theorem Received.sound {before after : Draft} {lines : List Line}
    (received : Received before lines after) (sound : before.Sound) : after.Sound := by
  intro index here
  rw [received.place] at here
  rw [received.policy, length_elements_receive]
  exact sound index here

/-- A line without a name leaves the policy as it is. -/
theorem receive_nameless {line : Line} (empty : line.entry? = none) (policy : Policy)
    (place : Place) : policy.receive (namesOf [line]) place = policy := by
  refine receive_nothing (fun marker => ?_) place
  simp [namesOf, Line.name?, empty]

/-- A line without an entry changes nothing but the issues. -/
theorem received_of_no_entry (draft : Draft) {line : Line} (empty : line.entry? = none) :
    Received draft [line] (draft.step line) := by
  have silent : line.warning? = none := by
    simp [Line.warning?, Line.attribute?, Line.name?, empty]
  cases read : line.read with
  | error cause =>
    have own : line.issue? = some ⟨line.number, line.span, cause⟩ := by rw [Line.issue?, read]
    have told : draft.step line = draft.report ⟨line.number, line.span, cause⟩ := by
      rw [step, read]
    rw [told]
    exact
      { policy := (receive_nameless empty _ _).symm
        place := rfl
        issues := by simp [report, Line.issueIn?, own] }
  | ok held =>
    have nothing : held = none := by
      unfold Line.entry? at empty
      simpa only [read] using empty
    subst held
    have own : line.issue? = none := by rw [Line.issue?, read]
    have same : draft.step line = draft := by rw [step, read]
    rw [same]
    exact
      { policy := (receive_nameless empty _ _).symm
        place := rfl
        issues := by simp [Line.issueIn?, own, silent] }

/-- An attribute goes to its place, and is refused only where there is none. -/
theorem place?_attribute {draft : Draft} (sound : draft.Sound) {line : Line} {marker : Marker}
    {name : QName} (held : line.entry? = some (marker.entry name)) :
    place? draft.policy draft.place (marker.entry name) =
      if draft.place = .detached then none
      else some (draft.policy.receive (namesOf [line]) draft.place, draft.place) := by
  have names (other : Marker) :
      namesOf [line] other = if other = marker then [name] else [] := by
    cases other <;> cases marker <;>
      simp [namesOf, Line.name?, held, Entry.name?, Marker.entry]
  cases here : draft.place with
  | detached => cases marker <;> rfl
  | global => cases marker <;> simp [place?, Marker.entry, Policy.receive, names]
  | element index =>
    have last := sound index here
    have inside : index < draft.policy.elements.length := by omega
    cases marker <;>
      simp [place?, Marker.entry, Policy.receive, Policy.changeRule?, inside, names,
        ElementRule.receive, ElementRule.allow, ElementRule.remove]

/-- A line that opens nothing goes to the place of the draft. -/
theorem received_step {draft : Draft} (sound : draft.Sound) {line : Line}
    (closed : line.opens = false) : Received draft [line] (draft.step line) := by
  cases held : line.entry? with
  | none => exact received_of_no_entry draft held
  | some entry =>
    obtain ⟨marker, name, rfl⟩ := Line.exists_of_not_opens closed held
    have own := Line.issue?_of_entry? held
    have placed := place?_attribute sound held
    have warning : line.warning? = some ⟨line.number, line.span, .detached name⟩ := by
      cases marker <;>
        simp [Line.warning?, Line.attribute?, Line.name?, held, Entry.name?, Marker.entry]
    rw [step, Line.entry?_eq_some_iff.mp held]
    by_cases nowhere : draft.place = .detached
    · rw [if_pos nowhere] at placed
      have told : draft.take line (marker.entry name) = report
          { draft with records := draft.records ++ [⟨.trace, "Resolved entry",
            [("line", toString line.number), ("entry", Log.spellEntry (marker.entry name))]⟩] }
          ⟨line.number, line.span, .detached name⟩ := by
        simp only [take, placed]
        cases marker <;> rfl
      simp only [told]
      exact
        { policy := by rw [nowhere]; rfl
          place := rfl
          issues := by simp [report, Line.issueIn?, own, nowhere, warning] }
    · rw [if_neg nowhere] at placed
      simp only [take, placed]
      exact
        { policy := rfl
          place := rfl
          issues := by simp [Line.issueIn?, own, nowhere] }

/-- Lines that open nothing go to the place of the draft. -/
theorem received_foldl {draft : Draft} (sound : draft.Sound) {lines : List Line}
    (closed : ∀ line ∈ lines, line.opens = false) :
    Received draft lines (lines.foldl step draft) := by
  induction lines generalizing draft with
  | nil =>
    exact
      { policy := (receive_nothing (fun _ => rfl) draft.place).symm
        place := rfl
        issues := (List.append_nil draft.issues).symm }
  | cons line rest ih =>
    obtain ⟨own, later⟩ := List.forall_mem_cons.mp closed
    have first := received_step sound own
    have behind := ih (first.sound sound) later
    rw [List.foldl_cons]
    exact
      { policy := by rw [behind.policy, first.policy, first.place, receive_receive]; rfl
        place := behind.place.trans first.place
        issues := by
          rw [behind.issues, first.issues, first.place, List.append_assoc,
            ← List.filterMap_append]
          rfl }

/-- An element's line adds a rule, and attributes go there from then on. -/
theorem step_of_element (draft : Draft) {line : Line} {name : QName}
    (held : line.entry? = some (.element name)) :
    (draft.step line).policy =
        { draft.policy with elements := draft.policy.elements ++ [{ name }] } ∧
      (draft.step line).place = .element draft.policy.elements.length ∧
      (draft.step line).issues = draft.issues := by
  rw [step, Line.entry?_eq_some_iff.mp held]
  exact ⟨rfl, rfl, rfl⟩

/-- Behind a section mark attributes go to every element. -/
theorem step_of_globalSection (draft : Draft) {line : Line}
    (held : line.entry? = some .globalSection) :
    (draft.step line).policy = draft.policy ∧ (draft.step line).place = .global ∧
      (draft.step line).issues = draft.issues := by
  rw [step, Line.entry?_eq_some_iff.mp held]
  exact ⟨rfl, rfl, rfl⟩

/-- Where attributes have a place, only refused lines have issues. -/
theorem issueIn?_of_placed {place : Place} (placed : place ≠ .detached) :
    Line.issueIn? place = Line.issue? := by
  funext line
  simp [Line.issueIn?, placed]

/-- The last rule receives names as it stands. -/
theorem receive_last (policy : Policy) (rule : ElementRule) (names : Marker → List QName) :
    Policy.receive { policy with elements := policy.elements ++ [rule] } names
        (.element policy.elements.length) =
      { policy with elements := policy.elements ++ [rule.receive names] } := by
  have inside : policy.elements.length < (policy.elements ++ [rule]).length := by simp
  simp [Policy.receive, List.modify_eq_take_cons_drop inside]

/-- A section adds what it asks for, wherever attributes went before it. -/
theorem foldl_section (draft : Draft) (part : Section) :
    (part.lines.foldl step draft).policy =
        draft.policy.append (policyOf draft.policy.flags [part]) ∧
      (part.lines.foldl step draft).issues =
        draft.issues ++ part.lines.filterMap Line.issue? := by
  rw [Section.lines, List.foldl_cons, List.filterMap_cons]
  rcases Line.opens_iff.mp part.opens with ⟨name, held⟩ | held
  · obtain ⟨policy, place, issues⟩ := step_of_element draft held
    have sound : (draft.step part.opener).Sound := by
      intro index here
      rw [place] at here
      cases here
      simp [policy]
    have body := received_foldl sound part.closed
    have named : part.opener.element? = some name := by simp [Line.element?, held]
    constructor
    · rw [body.policy, policy, place, receive_last]
      simp [Policy.append, policyOf, Section.rule?, Section.globals, named, held,
        ElementRule.receive]
    · have placed : (draft.step part.opener).place ≠ .detached := by simp [place]
      rw [body.issues, issues, issueIn?_of_placed placed, Line.issue?_of_entry? held]
  · obtain ⟨policy, place, issues⟩ := step_of_globalSection draft held
    have sound : (draft.step part.opener).Sound := by
      intro index here
      rw [place] at here
      cases here
    have body := received_foldl sound part.closed
    have unnamed : part.opener.element? = none := by simp [Line.element?, held]
    constructor
    · rw [body.policy, policy, place]
      simp [Policy.append, policyOf, Section.rule?, Section.globals, unnamed, held,
        Policy.receive]
    · have placed : (draft.step part.opener).place ≠ .detached := by simp [place]
      rw [body.issues, issues, issueIn?_of_placed placed, Line.issue?_of_entry? held]

/-- Sections add what each of them asks for. -/
theorem foldl_sections (draft : Draft) (sections : List Section) :
    ((sections.flatMap Section.lines).foldl step draft).policy =
        draft.policy.append (policyOf draft.policy.flags sections) ∧
      ((sections.flatMap Section.lines).foldl step draft).issues =
        draft.issues ++ (sections.flatMap Section.lines).filterMap Line.issue? := by
  induction sections generalizing draft with
  | nil => simp [Policy.append, policyOf]
  | cons part rest ih =>
    obtain ⟨policy, issues⟩ := foldl_section draft part
    obtain ⟨laterPolicy, laterIssues⟩ := ih (part.lines.foldl step draft)
    rw [List.flatMap_cons, List.foldl_append, List.filterMap_append]
    constructor
    · rw [laterPolicy, policy]
      cases rule : part.rule? <;> simp [Policy.append, policyOf, rule]
    · rw [laterIssues, issues, List.append_assoc]

/-- What a run makes of a draft: loose lines go to its place, and then sections add what
they ask for. -/
theorem foldl_step {draft : Draft} (sound : draft.Sound) (lines : List Line) :
    (lines.foldl step draft).policy =
        (draft.policy.receive (namesOf (Division.ofLines lines).loose) draft.place).append
          (policyOf draft.policy.flags (Division.ofLines lines).sections) ∧
      (lines.foldl step draft).issues = draft.issues ++
        ((Division.ofLines lines).loose.filterMap (Line.issueIn? draft.place) ++
          ((Division.ofLines lines).sections.flatMap Section.lines).filterMap Line.issue?) := by
  have loose := received_foldl sound (Division.ofLines lines).closed
  have whole : lines = (Division.ofLines lines).loose ++
      (Division.ofLines lines).sections.flatMap Section.lines :=
    (Division.lines_ofLines lines).symm
  generalize Division.ofLines lines = division at loose whole ⊢
  subst whole
  obtain ⟨policy, issues⟩ := foldl_sections (division.loose.foldl step draft) division.sections
  rw [List.foldl_append]
  have flags : (division.loose.foldl step draft).policy.flags = draft.policy.flags := by
    rw [loose.policy]
    cases draft.place <;> rfl
  constructor
  · rw [policy, flags, loose.policy]
  · rw [issues, loose.issues, List.append_assoc]

/-- One line keeps a draft sound. -/
theorem sound_step {draft : Draft} (sound : draft.Sound) (line : Line) :
    (draft.step line).Sound := by
  cases opens : line.opens with
  | false => exact (received_step sound opens).sound sound
  | true =>
    intro index here
    rcases Line.opens_iff.mp opens with ⟨name, held⟩ | held
    · obtain ⟨policy, place, _⟩ := step_of_element draft held
      rw [place] at here
      cases here
      simp [policy]
    · obtain ⟨_, place, _⟩ := step_of_globalSection draft held
      rw [place] at here
      cases here

/-- Every draft that a run comes to is sound. -/
theorem sound_foldl {draft : Draft} (sound : draft.Sound) (lines : List Line) :
    (lines.foldl step draft).Sound := by
  induction lines generalizing draft with
  | nil => exact sound
  | cons line rest ih => exact ih (sound_step sound line)

/-- In a sound draft the rule that attributes go to is there. -/
theorem Sound.exists_changeRule? {draft : Draft} (sound : draft.Sound) {index : Nat}
    (here : draft.place = .element index) (change : ElementRule → ElementRule) :
    ∃ policy, draft.policy.changeRule? index change = some policy := by
  have last := sound index here
  have inside : index < draft.policy.elements.length := by omega
  exact ⟨_, if_pos inside⟩

end Draft

end Source

end AllowList
