import AllowList.Proofs.Source.Joined
import AllowList.Proofs.Source.Written

/-!
# The policies that lists give

A policy is given by some source list exactly when every name in it is one that a line can
give in its role. Reading puts into a policy only what lines hold. And a policy of such
names is written down as a list: a global section with what holds for every element, and
behind it a section for each rule.
-/

namespace AllowList

open Text Source

/-- A rule of names that lines can give. -/
structure ElementRule.Listable (rule : ElementRule) : Prop where
  name : (Entry.element rule.name).Listable
  allowed : ∀ name ∈ rule.allowed, Role.attr.Lists name
  removed : ∀ name ∈ rule.removed, Role.attr.Lists name

/-- A policy of names that lines can give. -/
structure Policy.Listable (policy : Policy) : Prop where
  elements : ∀ rule ∈ policy.elements, rule.Listable
  globals : ∀ name ∈ policy.globals, Role.attr.Lists name
  removed : ∀ name ∈ policy.removed, Role.attr.Lists name

namespace Source

/-! ## What is read is listable -/

/-- Every line of a text holds a listable entry, if it holds one. -/
theorem listable_of_mem_ofText {text : String} {line : Line} {entry : Entry}
    (present : line ∈ Line.ofText text) (held : line.entry? = some entry) : entry.Listable := by
  obtain ⟨row, _, rfl⟩ := List.mem_map.mp present
  exact listable_of_entry? held

/-- Lines of a text give only attributes that can be given. -/
theorem lists_of_mem_namesOf {text : String} {lines : List Line} {marker : Marker} {name : QName}
    (inside : ∀ line ∈ lines, line ∈ Line.ofText text) (named : name ∈ namesOf lines marker) :
    Role.attr.Lists name := by
  obtain ⟨line, present, given⟩ := List.mem_filterMap.mp named
  obtain ⟨entry, held, own⟩ := Option.bind_eq_some_iff.mp given
  have listable := listable_of_mem_ofText (inside line present) held
  cases marker <;> cases entry <;> cases own <;> exact listable

/-- The sections of a text are made of its lines. -/
theorem mem_ofText_of_mem_sections {text : String} {part : Section} {line : Line}
    (present : part ∈ (Division.ofText text).sections) (inside : line ∈ part.lines) :
    line ∈ Line.ofText text := by
  have whole : (Division.ofText text).lines = Line.ofText text := Division.lines_ofLines _
  rw [← whole]
  exact List.mem_append_right _ (List.mem_flatMap.mpr ⟨part, present, inside⟩)

/-- An element's line holds the element. -/
theorem entry?_of_element? {line : Line} {name : QName} (named : line.element? = some name) :
    line.entry? = some (.element name) := by
  unfold Line.element? at named
  split at named
  case h_1 other held =>
    cases named
    exact held
  case h_2 => cases named

section read

variable {text : String} {part : Section} (present : part ∈ (Division.ofText text).sections)
include present

theorem mem_ofText_of_mem_body : ∀ line ∈ part.body, line ∈ Line.ofText text := by
  intro line inside
  exact mem_ofText_of_mem_sections present (List.mem_cons_of_mem part.opener inside)

/-- A section of a text makes a rule of names that lines can give. -/
theorem listable_of_rule? {rule : ElementRule} (made : part.rule? = some rule) :
    rule.Listable := by
  obtain ⟨name, named, rfl⟩ := Option.map_eq_some_iff.mp made
  have body := mem_ofText_of_mem_body present
  constructor
  · have opener : part.opener ∈ Line.ofText text :=
      mem_ofText_of_mem_sections present List.mem_cons_self
    exact listable_of_mem_ofText opener (entry?_of_element? named)
  · intro name given
    exact lists_of_mem_namesOf body given
  · intro name given
    exact lists_of_mem_namesOf body given

/-- What a section of a text adds for every element can be given. -/
theorem lists_of_mem_globals {marker : Marker} {name : QName}
    (added : name ∈ part.globals marker) : Role.attr.Lists name := by
  unfold Section.globals at added
  split at added
  · exact lists_of_mem_namesOf (mem_ofText_of_mem_body present) added
  · cases added

end read

/-- A list that is accepted gives a listable policy. -/
theorem listable_of_read {flags : Flags} {text : String} {policy : Policy}
    (accepted : (read flags text).value = .ok policy) : policy.Listable := by
  obtain ⟨_, rfl⟩ := value_read_eq_ok_iff.mp accepted
  rw [policy_ofText]
  constructor
  · intro rule present
    obtain ⟨part, inside, made⟩ := List.mem_filterMap.mp present
    exact listable_of_rule? inside made
  · intro name present
    obtain ⟨part, inside, added⟩ := List.mem_flatMap.mp present
    exact lists_of_mem_globals inside added
  · intro name present
    obtain ⟨part, inside, added⟩ := List.mem_flatMap.mp present
    exact lists_of_mem_globals inside added

end Source

/-! ## What is listable can be written -/

/-- The entries of attributes, those that are allowed first. -/
def Source.attributeEntries (allowed removed : List QName) : List Entry :=
  allowed.map .allow ++ removed.map .remove

/-- The entries of a rule. -/
def ElementRule.entries (rule : ElementRule) : List Entry :=
  .element rule.name :: attributeEntries rule.allowed rule.removed

/-- The entries of a policy: those for every element first. -/
def Policy.entries (policy : Policy) : List Entry :=
  .globalSection :: attributeEntries policy.globals policy.removed ++
    policy.elements.flatMap ElementRule.entries

/-- A policy as a source list, one entry a line. -/
def Policy.listing (policy : Policy) : String :=
  String.ofList (['\n'].intercalate (policy.entries.map Entry.written))

namespace Source

theorem listable_of_mem_attributeEntries {allowed removed : List QName}
    (allows : ∀ name ∈ allowed, Role.attr.Lists name)
    (removes : ∀ name ∈ removed, Role.attr.Lists name) {entry : Entry}
    (present : entry ∈ attributeEntries allowed removed) : entry.Listable := by
  rcases List.mem_append.mp present with inFront | behind
  · obtain ⟨name, named, rfl⟩ := List.mem_map.mp inFront
    exact allows name named
  · obtain ⟨name, named, rfl⟩ := List.mem_map.mp behind
    exact removes name named

end Source

/-- The entries of a listable policy are listable. -/
theorem Policy.Listable.entries {policy : Policy} (listable : policy.Listable) {entry : Entry}
    (present : entry ∈ policy.entries) : entry.Listable := by
  obtain ⟨elements, globals, removed⟩ := listable
  rcases List.mem_append.mp present with inFront | behind
  · rcases List.mem_cons.mp inFront with rfl | everywhere
    · trivial
    · exact listable_of_mem_attributeEntries globals removed everywhere
  · obtain ⟨rule, ruled, inside⟩ := List.mem_flatMap.mp behind
    obtain ⟨name, allowed, removed⟩ := elements rule ruled
    rcases List.mem_cons.mp inside with rfl | given
    · exact name
    · exact listable_of_mem_attributeEntries allowed removed given

namespace Source

/-- Rows that listable entries were written on hold these entries. -/
theorem map_entry?_ofRow {rows : List Row} {entries : List Entry}
    (listable : ∀ entry ∈ entries, entry.Listable)
    (written : rows.map Row.chars = entries.map Entry.written) :
    (rows.map Line.ofRow).map Line.entry? = entries.map some := by
  induction entries generalizing rows with
  | nil =>
    cases List.map_eq_nil_iff.mp written
    rfl
  | cons entry entries ih =>
    obtain ⟨own, others⟩ := List.forall_mem_cons.mp listable
    obtain ⟨row, rest, rfl, first, later⟩ := List.map_eq_cons_iff.mp written
    simp only [List.map_cons, entry?_of_written own first, ih others later]

/-- The lines of a listing hold its entries one by one. -/
theorem map_entry?_listing {policy : Policy} (listable : policy.Listable) :
    (Line.ofText policy.listing).map Line.entry? = policy.entries.map some := by
  have oneRow : ∀ chars ∈ policy.entries.map Entry.written, '\n' ∉ chars := by
    intro chars present
    obtain ⟨entry, inside, rfl⟩ := List.mem_map.mp present
    exact (listable.entries inside).fillsRow.oneRow
  apply map_entry?_ofRow
  · intro entry
    exact listable.entries
  · rw [map_chars_placed, Policy.listing, String.toList_ofList]
    exact List.splitOn_intercalate '\n' oneRow (by simp [Policy.entries])

/-! ## What is written is read -/

/-- The entries of attributes name those that they were made of. -/
theorem filterMap_attributeEntries (allowed removed : List QName) (marker : Marker) :
    (attributeEntries allowed removed).filterMap (Entry.name? marker) =
      match marker with
      | .allow => allowed
      | .remove => removed := by
  have own (names : List QName) (other : Marker) :
      (names.map other.entry).filterMap (Entry.name? marker) =
        if other = marker then names else [] := by
    induction names with
    | nil => simp
    | cons name names ih =>
      cases marker <;> cases other <;> simp_all [Entry.name?, Marker.entry]
  have split : attributeEntries allowed removed =
      allowed.map Marker.allow.entry ++ removed.map Marker.remove.entry := rfl
  rw [split, List.filterMap_append, own, own]
  cases marker <;> simp

section held

variable {lines : List Line} {allowed removed : List QName}

/-- Lines give the names of the entries that they hold. -/
theorem namesOf_of_held
    (held : lines.map Line.entry? = (attributeEntries allowed removed).map some)
    (marker : Marker) :
    namesOf lines marker =
      match marker with
      | .allow => allowed
      | .remove => removed := by
  rw [← filterMap_attributeEntries allowed removed marker]
  have names : namesOf lines marker =
      (lines.map Line.entry?).filterMap fun entry => entry.bind (Entry.name? marker) := by
    rw [List.filterMap_map]
    rfl
  rw [names, held, List.filterMap_map]
  rfl

/-- Lines that hold attributes' entries open nothing. -/
theorem closed_of_held
    (held : lines.map Line.entry? = (attributeEntries allowed removed).map some) :
    ∀ line ∈ lines, line.opens = false := by
  intro line present
  have given : line.entry? ∈ (attributeEntries allowed removed).map some := by
    rw [← held]
    exact List.mem_map_of_mem present
  obtain ⟨entry, own, same⟩ := List.mem_map.mp given
  rw [Line.opens, ← same]
  rcases List.mem_append.mp own with inFront | behind
  · obtain ⟨name, _, rfl⟩ := List.mem_map.mp inFront
    rfl
  · obtain ⟨name, _, rfl⟩ := List.mem_map.mp behind
    rfl

/-- Lines that hold an entry that opens, and behind it attributes, are a section. -/
theorem exists_section {opener : Entry} (opens : opener.opens = true)
    (held : lines.map Line.entry? = (opener :: attributeEntries allowed removed).map some) :
    ∃ part : Section, part.lines = lines ∧ part.opener.entry? = some opener ∧
      namesOf part.body .allow = allowed ∧ namesOf part.body .remove = removed := by
  obtain ⟨line, body, rfl, first, rest⟩ := List.map_eq_cons_iff.mp held
  have opening : line.opens = true := by
    rw [Line.opens, first]
    exact opens
  exact ⟨⟨line, body, opening, closed_of_held rest⟩, rfl, first, namesOf_of_held rest .allow,
    namesOf_of_held rest .remove⟩

end held

/-- Lines that hold the entries of rules are the sections that make these rules. -/
theorem exists_sections {elements : List ElementRule} {lines : List Line}
    (held : lines.map Line.entry? = (elements.flatMap ElementRule.entries).map some) :
    ∃ sections : List Section, sections.flatMap Section.lines = lines ∧
      sections.filterMap Section.rule? = elements ∧
      ∀ marker, sections.flatMap (Section.globals marker) = [] := by
  induction elements generalizing lines with
  | nil =>
    cases List.map_eq_nil_iff.mp held
    exact ⟨[], rfl, rfl, fun _ => rfl⟩
  | cons rule elements ih =>
    rw [List.flatMap_cons, List.map_append] at held
    obtain ⟨own, others, rfl, first, later⟩ := List.map_eq_append_iff.mp held
    obtain ⟨part, rfl, opener, allowed, removed⟩ := exists_section rfl first
    obtain ⟨sections, rfl, rules, globals⟩ := ih later
    have made : part.rule? = some rule := by
      simp [Section.rule?, Line.element?, opener, allowed, removed]
    refine ⟨part :: sections, rfl, ?_, ?_⟩
    · rw [List.filterMap_cons_some made, rules]
    · intro marker
      rw [List.flatMap_cons, globals, List.append_nil, Section.globals, opener]
      rfl

/-- A listing is divided into sections that make up the policy. -/
theorem policyOf_listing {policy : Policy} (listable : policy.Listable) :
    policyOf policy.flags (Division.ofText policy.listing).sections = policy := by
  have held := map_entry?_listing listable
  rw [Policy.entries, List.map_append] at held
  obtain ⟨front, behind, lines, first, later⟩ := List.map_eq_append_iff.mp held
  obtain ⟨part, rfl, opener, allowed, removed⟩ := exists_section rfl first
  obtain ⟨sections, rfl, rules, globals⟩ := exists_sections later
  have division : (Division.ofText policy.listing).sections = part :: sections := by
    rw [Division.ofText, lines]
    exact (Division.ofLines_sections (part :: sections)).2
  have noRule : part.rule? = none := by
    simp [Section.rule?, Line.element?, opener]
  have everywhere (marker : Marker) : part.globals marker = namesOf part.body marker := by
    rw [Section.globals, if_pos opener]
  rw [division]
  simp only [policyOf, List.filterMap_cons_none noRule, rules, List.flatMap_cons, globals,
    List.append_nil, everywhere, allowed, removed]

/-- The listing of a listable policy is accepted with the policy. -/
theorem read_listing {policy : Policy} (listable : policy.Listable) :
    (read policy.flags policy.listing).value = .ok policy := by
  apply value_read_eq_ok_iff.mpr
  constructor
  · rw [errors_ofText, List.filterMap_eq_nil_iff]
    intro line present
    have given : line.entry? ∈ policy.entries.map some := by
      rw [← map_entry?_listing listable]
      exact List.mem_map_of_mem present
    obtain ⟨entry, _, held⟩ := List.mem_map.mp given
    exact Line.issue?_of_entry? held.symm
  · rw [policy_ofText, policyOf_listing listable]

/-- The policies that source lists give are those of names that lines can give, with the
flags that a list is read with. -/
theorem exists_read_eq_ok_iff (flags : Flags) (policy : Policy) :
    (∃ text, (read flags text).value = .ok policy) ↔
      policy.flags = flags ∧ policy.Listable := by
  constructor
  · rintro ⟨text, accepted⟩
    exact ⟨flags_of_read accepted, listable_of_read accepted⟩
  · rintro ⟨rfl, listable⟩
    exact ⟨policy.listing, read_listing listable⟩

example : Policy.listing
    { elements := [⟨⟨some .svg, "a"⟩, [⟨some .xlink, "href"⟩], [.bare "-"]⟩]
      removed := [.bare "[x"] } = "[Global]\n! [x\nsvg a\n- xlink href\n! -" := by decide

end Source

end AllowList
