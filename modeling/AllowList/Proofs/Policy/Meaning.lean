import AllowList.Compiler
import AllowList.Proofs.Order

/-!
# What a policy means

A policy means a set of elements, a set of attributes allowed everywhere and one
removed everywhere, for each element the attributes its rules allow and remove,
and the flags. How many rules an element has, how they are ordered and how often
they repeat an attribute does not matter, and neither does a rule that allows
what is allowed everywhere.

Normalization keeps this meaning. When it also sorts, its result is determined
by the meaning, so two policies have one sorted normal form exactly when they
mean the same.
-/

namespace AllowList.Policy

/-- The element has a rule. -/
def HasElement (policy : Policy) (element : QName) : Prop :=
  ∃ rule ∈ policy.elements, rule.name = element

/-- Some rule of the element allows the attribute. -/
def ListsAllowed (policy : Policy) (element name : QName) : Prop :=
  ∃ rule ∈ policy.elements, rule.name = element ∧ name ∈ rule.allowed

/-- Some rule of the element removes the attribute. -/
def ListsRemoved (policy : Policy) (element name : QName) : Prop :=
  ∃ rule ∈ policy.elements, rule.name = element ∧ name ∈ rule.removed

/-- The element may have the attribute: every element may, or a rule of this one
allows it. -/
def Allows (policy : Policy) (element name : QName) : Prop :=
  name ∈ policy.globals ∨ policy.ListsAllowed element name

/-- The attribute is allowed on the element, but not on every element. -/
def AllowsOnly (policy : Policy) (element name : QName) : Prop :=
  policy.ListsAllowed element name ∧ name ∉ policy.globals

/-- Two policies let the same things through and remove the same attributes.
Only sets count: the order, the grouping and the repeats of entries do not. -/
structure SameMeaning (first second : Policy) : Prop where
  flags : first.flags = second.flags
  globals : ∀ name, name ∈ first.globals ↔ name ∈ second.globals
  removed : ∀ name, name ∈ first.removed ↔ name ∈ second.removed
  elements : ∀ element, first.HasElement element ↔ second.HasElement element
  allowsOnly : ∀ element name, first.AllowsOnly element name ↔ second.AllowsOnly element name
  listsRemoved : ∀ element name, first.ListsRemoved element name ↔ second.ListsRemoved element name

namespace SameMeaning

variable {first second third : Policy}

theorem symm (same : first.SameMeaning second) : second.SameMeaning first where
  flags := same.flags.symm
  globals name := (same.globals name).symm
  removed name := (same.removed name).symm
  elements element := (same.elements element).symm
  allowsOnly element name := (same.allowsOnly element name).symm
  listsRemoved element name := (same.listsRemoved element name).symm

theorem trans (front : first.SameMeaning second) (back : second.SameMeaning third) :
    first.SameMeaning third where
  flags := front.flags.trans back.flags
  globals name := (front.globals name).trans (back.globals name)
  removed name := (front.removed name).trans (back.removed name)
  elements element := (front.elements element).trans (back.elements element)
  allowsOnly element name := (front.allowsOnly element name).trans (back.allowsOnly element name)
  listsRemoved element name :=
    (front.listsRemoved element name).trans (back.listsRemoved element name)

/-- What is allowed on an element is allowed everywhere or on it alone, so
policies of one meaning allow the same on every element. -/
theorem allows (same : first.SameMeaning second) (element name : QName) :
    first.Allows element name ↔ second.Allows element name := by
  have split (policy : Policy) :
      policy.Allows element name ↔ name ∈ policy.globals ∨ policy.AllowsOnly element name := by
    by_cases everywhere : name ∈ policy.globals <;> simp [Allows, AllowsOnly, everywhere]
  rw [split first, split second, same.globals name, same.allowsOnly element name]

end SameMeaning

/-! ## What the lists of a normal form hold -/

theorem mem_allowedOn {policy : Policy} {element name : QName} :
    name ∈ policy.allowedOn element ↔ policy.ListsAllowed element name := by
  simp only [allowedOn, List.mem_flatMap, ListsAllowed]
  refine exists_congr fun rule => and_congr_right fun _ => ?_
  by_cases own : rule.name = element <;> simp [own]

theorem mem_removedFrom {policy : Policy} {element name : QName} :
    name ∈ policy.removedFrom element ↔ policy.ListsRemoved element name := by
  simp only [removedFrom, List.mem_flatMap, ListsRemoved]
  refine exists_congr fun rule => and_congr_right fun _ => ?_
  by_cases own : rule.name = element <;> simp [own]

theorem mem_map_name {policy : Policy} {element : QName} :
    element ∈ policy.elements.map (·.name) ↔ policy.HasElement element :=
  List.mem_map

section normalize

variable (options : Options) (policy : Policy)

theorem mem_normalize_globals {name : QName} :
    name ∈ (policy.normalize options).globals ↔ name ∈ policy.globals :=
  QName.mem_distinct

theorem mem_normalize_removed {name : QName} :
    name ∈ (policy.normalize options).removed ↔ name ∈ policy.removed :=
  QName.mem_distinct

/-- In normal form an element of the policy has its merged rule, and no element
has another rule. -/
theorem exists_rule_normalize {element : QName} {holds : ElementRule → Prop} :
    (∃ rule ∈ (policy.normalize options).elements, rule.name = element ∧ holds rule) ↔
      policy.HasElement element ∧ holds (policy.mergedRule options.sorted
        (QName.distinct options.sorted policy.globals) element) := by
  simp only [normalize, List.mem_map, QName.mem_distinct]
  constructor
  · rintro ⟨_, ⟨merged, present, rfl⟩, rfl, held⟩
    exact ⟨present, held⟩
  · rintro ⟨present, held⟩
    exact ⟨_, ⟨element, present, rfl⟩, rfl, held⟩

theorem normalize_hasElement (element : QName) :
    (policy.normalize options).HasElement element ↔ policy.HasElement element := by
  have merged : (∃ rule ∈ (policy.normalize options).elements, rule.name = element ∧ True) ↔
      policy.HasElement element ∧ True := exists_rule_normalize options policy
  simpa only [HasElement, and_true] using merged

/-- A merged rule lists what the element's rules allow, less what is allowed
everywhere. -/
theorem normalize_listsAllowed (element name : QName) :
    (policy.normalize options).ListsAllowed element name ↔ policy.AllowsOnly element name := by
  rw [ListsAllowed, exists_rule_normalize]
  simp only [mergedRule, List.mem_filter, QName.mem_distinct, mem_allowedOn, decide_eq_true_eq]
  refine and_iff_right_of_imp ?_
  rintro ⟨⟨rule, present, same, _⟩, _⟩
  exact ⟨rule, present, same⟩

theorem normalize_listsRemoved (element name : QName) :
    (policy.normalize options).ListsRemoved element name ↔ policy.ListsRemoved element name := by
  rw [ListsRemoved, exists_rule_normalize]
  simp only [mergedRule, QName.mem_distinct, mem_removedFrom]
  refine and_iff_right_of_imp ?_
  rintro ⟨rule, present, same, _⟩
  exact ⟨rule, present, same⟩

/-- A normal form means what its policy means. -/
theorem normalize_sameMeaning : (policy.normalize options).SameMeaning policy where
  flags := rfl
  globals _ := mem_normalize_globals options policy
  removed _ := mem_normalize_removed options policy
  elements := normalize_hasElement options policy
  allowsOnly element name := by
    rw [AllowsOnly, normalize_listsAllowed, mem_normalize_globals]
    exact and_iff_left_of_imp And.right
  listsRemoved := normalize_listsRemoved options policy

end normalize

/-- Normalization loses, invents and moves nothing. Elements and attributes stay
what they were, each element allows and removes what it did before, and what is
said of every element stays as well. A rule of the normal form lists only what
rules of the very same element allowed, so nothing passes from one element to
another. Rules are told apart by namespace and name together: elements that share
their name alone, one of them in no namespace and one in HTML's, say, keep rules
of their own. -/
theorem normalize_keeps_meaning (options : Options) (policy : Policy) :
    let normal := policy.normalize options
    (∀ element, normal.HasElement element ↔ policy.HasElement element) ∧
      (∀ name, name ∈ normal.globals ↔ name ∈ policy.globals) ∧
      (∀ element name, normal.Allows element name ↔ policy.Allows element name) ∧
      (∀ element name, normal.ListsRemoved element name ↔ policy.ListsRemoved element name) ∧
      (∀ name, name ∈ normal.removed ↔ name ∈ policy.removed) ∧
      normal.flags = policy.flags ∧
      (∀ element name, normal.ListsAllowed element name ↔
        policy.ListsAllowed element name ∧ name ∉ policy.globals) ∧
      ∀ left ∈ normal.elements, ∀ right ∈ normal.elements,
        left = right ↔ left.name = right.name := by
  intro normal
  have same : normal.SameMeaning policy := normalize_sameMeaning options policy
  refine ⟨same.elements, same.globals, same.allows, same.listsRemoved, same.removed, same.flags,
    normalize_listsAllowed options policy, ?_⟩
  intro left leftRule right rightRule
  obtain ⟨first, _, rfl⟩ := List.mem_map.mp leftRule
  obtain ⟨second, _, rfl⟩ := List.mem_map.mp rightRule
  constructor
  · exact congrArg ElementRule.name
  · intro (sameName : first = second)
    rw [sameName]

/-- Two records of one element, apart from each other, become one rule without
what is allowed everywhere. The element of that name in no namespace stays. -/
example :
    let scattered : Policy :=
      { elements := [⟨.within .html "a", [.bare "rel", .bare "id"], []⟩,
          ⟨.bare "a", [.bare "rel"], []⟩, ⟨.within .html "a", [.bare "href", .bare "rel"], []⟩]
        globals := [.bare "id", .bare "id"] }
    scattered.normalize {} =
      { elements := [⟨.within .html "a", [.bare "rel", .bare "href"], []⟩,
          ⟨.bare "a", [.bare "rel"], []⟩]
        globals := [.bare "id"] } := by decide

/-! ## The sorted normal form -/

/-- In sorted normal form an element's own attributes are determined by the set
of those that are not allowed everywhere. The full lists may differ in what is,
so they are compared only after it is taken out. -/
theorem mergedRule_eq_of_sameMeaning {first second : Policy} (same : first.SameMeaning second)
    (element : QName) :
    first.mergedRule true (QName.distinct true first.globals) element =
      second.mergedRule true (QName.distinct true second.globals) element := by
  have allowed : (first.mergedRule true (QName.distinct true first.globals) element).allowed =
      (second.mergedRule true (QName.distinct true second.globals) element).allowed := by
    refine QName.eq_of_mem_iff_of_ascends ((QName.nodup_distinct true _).filter _)
      ((QName.nodup_distinct true _).filter _) ((QName.distinct_ascends _).filter _)
      ((QName.distinct_ascends _).filter _) fun name => ?_
    simp only [mergedRule, List.mem_filter, QName.mem_distinct, mem_allowedOn, decide_eq_true_eq]
    exact same.allowsOnly element name
  have removed : QName.distinct true (first.removedFrom element) =
      QName.distinct true (second.removedFrom element) :=
    QName.distinct_eq_iff.mpr fun name => by
      rw [mem_removedFrom, mem_removedFrom]
      exact same.listsRemoved element name
  simp only [mergedRule] at allowed ⊢
  rw [allowed, removed]

/-- A sorted normal form is determined by what the policy means. -/
theorem normalize_eq_of_sameMeaning (options : Options) (sorted : options.sorted = true)
    {first second : Policy} (same : first.SameMeaning second) :
    first.normalize options = second.normalize options := by
  have globals : QName.distinct true first.globals = QName.distinct true second.globals :=
    QName.distinct_eq_iff.mpr same.globals
  have removed : QName.distinct true first.removed = QName.distinct true second.removed :=
    QName.distinct_eq_iff.mpr same.removed
  have elements : QName.distinct true (first.elements.map (·.name)) =
      QName.distinct true (second.elements.map (·.name)) :=
    QName.distinct_eq_iff.mpr fun element => by
      rw [mem_map_name, mem_map_name]
      exact same.elements element
  have rules : first.mergedRule true (QName.distinct true first.globals) =
      second.mergedRule true (QName.distinct true second.globals) :=
    funext (mergedRule_eq_of_sameMeaning same)
  rw [normalize, normalize, sorted, rules, elements, globals, removed, same.flags]

/-- Sorting makes the normal form canonical: two policies share it exactly when
they mean the same, however their entries are ordered, grouped and repeated. In
that case the same text is rendered from both, over any base and with any removal
list, and the same is told while it is rendered. -/
theorem normalize_sorted_eq_iff (options : Options) (first second : Policy) :
    let sorted := { options with sorted := true }
    (first.normalize sorted = second.normalize sorted ↔ first.SameMeaning second) ∧
      (first.SameMeaning second → ∀ written base removals,
        (first.normalize sorted).rendered written base removals =
          (second.normalize sorted).rendered written base removals) := by
  intro sorted
  have canonical (same : first.SameMeaning second) :
      first.normalize sorted = second.normalize sorted :=
    normalize_eq_of_sameMeaning sorted rfl same
  refine ⟨⟨?_, canonical⟩, ?_⟩
  · intro equal
    have front : first.SameMeaning (second.normalize sorted) :=
      equal ▸ (normalize_sameMeaning sorted first).symm
    exact front.trans (normalize_sameMeaning sorted second)
  · intro same written base removals
    rw [canonical same]

end AllowList.Policy
