import AllowList.Proofs.Firsts
import AllowList.Proofs.Policy.Meaning

/-!
# The normal form

A policy is in normal form if none of its lists repeats a name and no element lists an
attribute that is allowed everywhere; in sorted normal form the lists also ascend in the
canonical order. `IsNormal` says so of the policy alone, whatever it was made of.

Normalization arrives there: its result is in normal form, and a policy that it leaves as it
is was in normal form before. Where it does not sort, each list holds the first occurrences of
what the policy lists in its place, the records of one element counted as one list.
-/

namespace AllowList

namespace QName

/-- The names strictly ascend in the canonical order. -/
def Ascend (names : List QName) : Prop :=
  names.Pairwise fun left right => order left right = .lt

/-- Names that repeat nothing ascend strictly if each stands at or before the next. -/
theorem ascend_of_nodup {names : List QName} (once : names.Nodup)
    (ascends : names.Pairwise fun left right => atOrBefore left right = true) :
    Ascend names := by
  refine (ascends.and once).imp fun {left right} pair => ?_
  obtain ⟨atOrBefore, differ⟩ := pair
  rw [QName.atOrBefore] at atOrBefore
  cases place : order left right with
  | lt => rfl
  | eq => exact absurd (order_eq_iff.mp place) differ
  | gt => simp [place] at atOrBefore

theorem Ascend.atOrBefore {names : List QName} (ascend : Ascend names) :
    names.Pairwise fun left right => atOrBefore left right = true := by
  refine ascend.imp fun {left right} inFront => ?_
  rw [QName.atOrBefore, inFront]
  rfl

theorem ascend_distinct (names : List QName) : Ascend (distinct true names) :=
  ascend_of_nodup (nodup_distinct true names) (distinct_ascends names)

/-- Names without repeats, in order if order is asked for, are left as they are. -/
theorem distinct_of_nodup {sorted : Bool} {names : List QName} (once : names.Nodup)
    (ascend : sorted = true → Ascend names) : distinct sorted names = names := by
  have first : names.eraseDups = names := eraseDups_of_nodup once
  cases sorted with
  | false => exact first
  | true =>
    have inOrder := (ascend rfl).atOrBefore
    rw [distinct, if_pos rfl, first]
    exact eq_of_perm_of_ascends (sort_perm names) (sort_ascends names) inOrder

/-- Names may be selected before or after they are put in order. -/
theorem distinct_filter (sorted : Bool) (keep : QName → Bool) (names : List QName) :
    distinct sorted (names.filter keep) = (distinct sorted names).filter keep := by
  cases sorted with
  | false => exact eraseDups_filter keep names
  | true =>
    refine eq_of_mem_iff_of_ascends (nodup_distinct true _) ((nodup_distinct true names).filter _)
      (distinct_ascends _) ((distinct_ascends names).filter _) fun name => ?_
    simp only [mem_distinct, List.mem_filter]

end QName

namespace Policy

/-- Each list of names in a policy has a property: the list of its elements, its own lists of
attributes and those of every rule. -/
structure EachList (holds : List QName → Prop) (policy : Policy) : Prop where
  elements : holds (policy.elements.map (·.name))
  globals : holds policy.globals
  removed : holds policy.removed
  allowed : ∀ rule ∈ policy.elements, holds rule.allowed
  removedFrom : ∀ rule ∈ policy.elements, holds rule.removed

/-- The policy repeats nothing, lists nothing under an element that is allowed everywhere, and
has its lists in order if order is asked for. -/
structure IsNormal (sorted : Bool) (policy : Policy) : Prop where
  once : policy.EachList List.Nodup
  apart : ∀ rule ∈ policy.elements, ∀ name ∈ rule.allowed, name ∉ policy.globals
  ascend : sorted = true → policy.EachList QName.Ascend

/-- The rules of an element, in the order in which the policy lists them. -/
def rulesOf (policy : Policy) (element : QName) : List ElementRule :=
  policy.elements.filter (·.name = element)

/-- One policy holds the first occurrences of what another lists. What the rules of an element
list counts as one list, and what is allowed everywhere is left out of it. -/
structure KeepsFirsts (policy normal : Policy) : Prop where
  elements : AreFirsts (normal.elements.map (·.name)) (policy.elements.map (·.name))
  globals : AreFirsts normal.globals policy.globals
  removed : AreFirsts normal.removed policy.removed
  allowed : ∀ rule ∈ normal.elements, AreFirsts rule.allowed
    (((policy.rulesOf rule.name).flatMap (·.allowed)).filter (· ∉ policy.globals))
  removedFrom : ∀ rule ∈ normal.elements,
    AreFirsts rule.removed ((policy.rulesOf rule.name).flatMap (·.removed))

/-! ## What normalization makes -/

section normalize

variable (options : Options) (policy : Policy)

theorem map_name_normalize : (policy.normalize options).elements.map (·.name) =
    QName.distinct options.sorted (policy.elements.map (·.name)) := by
  simp [normalize, mergedRule, Function.comp_def]

/-- A property of every list without repeats that a selection keeps is one of each list of a
normal form. -/
theorem normalize_eachList {holds : List QName → Prop}
    (distinct : ∀ names, holds (QName.distinct options.sorted names))
    (select : ∀ (keep : QName → Bool) names, holds names → holds (names.filter keep)) :
    (policy.normalize options).EachList holds where
  elements := by
    rw [map_name_normalize]
    exact distinct _
  globals := distinct policy.globals
  removed := distinct policy.removed
  allowed rule present := by
    obtain ⟨element, _, rfl⟩ := List.mem_map.mp present
    exact select _ _ (distinct (policy.allowedOn element))
  removedFrom rule present := by
    obtain ⟨element, _, rfl⟩ := List.mem_map.mp present
    exact distinct (policy.removedFrom element)

/-- Normalization arrives at the normal form. -/
theorem normalize_isNormal : (policy.normalize options).IsNormal options.sorted where
  once := normalize_eachList options policy (QName.nodup_distinct options.sorted)
    fun _ _ once => once.filter _
  apart rule present name allowed := by
    obtain ⟨element, _, rfl⟩ := List.mem_map.mp present
    obtain ⟨_, outside⟩ := List.mem_filter.mp allowed
    exact of_decide_eq_true outside
  ascend sorted := by
    refine normalize_eachList options policy ?_ fun _ _ ascend => List.Pairwise.filter _ ascend
    rw [sorted]
    exact QName.ascend_distinct

/-- The lists of the rules of an element, one behind the other. -/
theorem flatMap_own (element : QName) (listed : ElementRule → List QName) :
    (policy.elements.flatMap fun rule => if rule.name = element then listed rule else []) =
      (policy.rulesOf element).flatMap listed := by
  rw [rulesOf]
  induction policy.elements with
  | nil => rfl
  | cons rule rest ih =>
    rw [List.flatMap_cons, ih, List.filter_cons]
    by_cases own : rule.name = element <;> simp [own]

/-- Without sorting, normalization keeps the first occurrences. -/
theorem normalize_keepsFirsts (unsorted : options.sorted = false) :
    policy.KeepsFirsts (policy.normalize options) := by
  have distinct (names : List QName) : AreFirsts (QName.distinct options.sorted names) names := by
    rw [areFirsts_iff, QName.distinct, unsorted]
    rfl
  constructor
  case elements =>
    rw [map_name_normalize]
    exact distinct _
  case globals => exact distinct policy.globals
  case removed => exact distinct policy.removed
  case allowed =>
    intro rule present
    obtain ⟨element, _, rfl⟩ := List.mem_map.mp present
    have selected : (policy.mergedRule options.sorted
        (QName.distinct options.sorted policy.globals) element).allowed =
          QName.distinct options.sorted ((policy.allowedOn element).filter (· ∉ policy.globals)) := by
      simp only [mergedRule, QName.mem_distinct, QName.distinct_filter]
    rw [selected, mergedRule, ← flatMap_own]
    exact distinct _
  case removedFrom =>
    intro rule present
    obtain ⟨element, _, rfl⟩ := List.mem_map.mp present
    rw [mergedRule, ← flatMap_own]
    exact distinct _

end normalize

/-! ## What normalization leaves as it is -/

section normal

variable {policy : Policy}

/-- The only rule of an element is all that its rules are. -/
theorem rulesOf_of_nodup (once : (policy.elements.map (·.name)).Nodup) {rule : ElementRule}
    (present : rule ∈ policy.elements) : policy.rulesOf rule.name = [rule] := by
  rw [rulesOf]
  generalize policy.elements = rules at once present
  induction rules with
  | nil => cases present
  | cons first rest ih =>
    obtain ⟨absent, restOnce⟩ := List.nodup_cons.mp once
    rw [List.filter_cons]
    rcases List.mem_cons.mp present with rfl | later
    · have others : rest.filter (·.name = rule.name) = [] := by
        refine List.filter_eq_nil_iff.mpr fun other behind same => absent ?_
        exact List.mem_map.mpr ⟨other, behind, by simpa using same⟩
      simp [others]
    · have differs : first.name ≠ rule.name := fun same =>
        absent (List.mem_map.mpr ⟨rule, later, same.symm⟩)
      simp [differs, ih restOnce later]

theorem allowedOn_of_nodup (once : (policy.elements.map (·.name)).Nodup) {rule : ElementRule}
    (present : rule ∈ policy.elements) : policy.allowedOn rule.name = rule.allowed := by
  rw [allowedOn, flatMap_own, rulesOf_of_nodup once present, List.flatMap_singleton]

theorem removedFrom_of_nodup (once : (policy.elements.map (·.name)).Nodup) {rule : ElementRule}
    (present : rule ∈ policy.elements) : policy.removedFrom rule.name = rule.removed := by
  rw [removedFrom, flatMap_own, rulesOf_of_nodup once present, List.flatMap_singleton]

/-- In normal form a rule is merged of itself alone and stays as it is. -/
theorem IsNormal.mergedRule {sorted : Bool} (normal : policy.IsNormal sorted)
    {rule : ElementRule} (present : rule ∈ policy.elements) :
    policy.mergedRule sorted policy.globals rule.name = rule := by
  have allowed : QName.distinct sorted rule.allowed = rule.allowed :=
    QName.distinct_of_nodup (normal.once.allowed rule present)
      fun asked => (normal.ascend asked).allowed rule present
  have removed : QName.distinct sorted rule.removed = rule.removed :=
    QName.distinct_of_nodup (normal.once.removedFrom rule present)
      fun asked => (normal.ascend asked).removedFrom rule present
  have own : rule.allowed.filter (· ∉ policy.globals) = rule.allowed :=
    List.filter_eq_self.mpr fun name listed => by simpa using normal.apart rule present name listed
  rw [Policy.mergedRule, allowedOn_of_nodup normal.once.elements present,
    removedFrom_of_nodup normal.once.elements present, allowed, removed, own]

/-- Normalization leaves a policy in normal form as it is. -/
theorem IsNormal.normalize {options : Options} (normal : policy.IsNormal options.sorted) :
    policy.normalize options = policy := by
  have names : QName.distinct options.sorted (policy.elements.map (·.name)) =
      policy.elements.map (·.name) :=
    QName.distinct_of_nodup normal.once.elements fun asked => (normal.ascend asked).elements
  have globals : QName.distinct options.sorted policy.globals = policy.globals :=
    QName.distinct_of_nodup normal.once.globals fun asked => (normal.ascend asked).globals
  have removed : QName.distinct options.sorted policy.removed = policy.removed :=
    QName.distinct_of_nodup normal.once.removed fun asked => (normal.ascend asked).removed
  have rules : (policy.elements.map (·.name)).map
      (policy.mergedRule options.sorted policy.globals) = policy.elements := by
    rw [List.map_map]
    exact (List.map_congr_left fun rule present => normal.mergedRule present).trans (List.map_id _)
  rw [Policy.normalize, globals, removed, names, rules]

end normal

/-- The normal form of a policy, and which policies are their own.

Normalization gives a policy in normal form: no list of it repeats a name, no element lists
what is allowed everywhere, and if entries are sorted each list strictly ascends in the
canonical order. If they are not, each list holds the first occurrences of what the policy
lists in its place: for an element that is what its rules list, one after another, without
what is allowed everywhere. And normalization leaves a policy as it is exactly when the policy
is in normal form already. -/
theorem normalize_normalForm (options : Options) (policy : Policy) :
    (policy.normalize options).IsNormal options.sorted ∧
      (options.sorted = false → policy.KeepsFirsts (policy.normalize options)) ∧
      (policy.normalize options = policy ↔ policy.IsNormal options.sorted) := by
  have normal := normalize_isNormal options policy
  refine ⟨normal, normalize_keepsFirsts options policy, ?_, IsNormal.normalize⟩
  intro unchanged
  rw [unchanged] at normal
  exact normal

/-- A policy with two records of one element, apart from each other, one of them with an
attribute that is allowed everywhere, and an element of that name in no namespace. -/
def interleaved : Policy :=
  { elements := [⟨.within .svg "a", [.bare "href", .bare "id"], []⟩,
      ⟨.bare "a", [.bare "rel"], [.bare "ping", .bare "ping"]⟩,
      ⟨.within .svg "a", [.within .xlink "href", .bare "href"], [.bare "onclick"]⟩]
    globals := [.bare "id", .bare "class", .bare "id"] }

theorem normalize_normalForm_interleaved :
    interleaved.KeepsFirsts (interleaved.normalize {}) ∧
      (interleaved.normalize {}).IsNormal false ∧
      ¬(interleaved.normalize {}).IsNormal true := by
  obtain ⟨normal, firsts, _⟩ := normalize_normalForm {} interleaved
  refine ⟨firsts rfl, normal, fun sorted => ?_⟩
  -- the globals stay in the order in which they came first
  have ascend : QName.Ascend [.bare "id", .bare "class"] := (sorted.ascend rfl).globals
  have inFront := (List.pairwise_cons.mp ascend).1 (.bare "class") List.mem_cons_self
  exact absurd inFront (by decide)

end Policy

end AllowList
