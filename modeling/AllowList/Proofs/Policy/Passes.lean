import AllowList.Proofs.Policy.Joined
import AllowList.Proofs.Policy.NormalForm

/-!
# Passes of normalization

A second pass of normalization finds one rule for each element of the policy, which lists the
first pass's choice of what the element's rules listed: `allowedOn_normalize`. From there on
everything is a law of single lists. Two passes are one pass that sorts if either of them
does. And the parts of a policy may be normalized before they are put together: what a part
leaves out because it allows it everywhere, the whole leaves out as well.
-/

namespace AllowList

namespace QName

@[simp] theorem distinct_nil (sorted : Bool) : distinct sorted [] = [] :=
  distinct_of_nodup List.nodup_nil fun _ => List.Pairwise.nil

/-- A second pass over names sorts them if the first did not, and does nothing else. -/
theorem distinct_distinct (first second : Bool) (names : List QName) :
    distinct second (distinct first names) = distinct (first || second) names := by
  cases second with
  | false =>
    rw [Bool.or_false]
    exact eraseDups_of_nodup (nodup_distinct first names)
  | true =>
    rw [Bool.or_true, distinct_eq_iff]
    exact fun name => mem_distinct

/-- Two parts of a list of names may be put in order before the whole is. -/
theorem distinct_append_distinct (sorted : Bool) (front back : List QName) :
    distinct sorted (distinct sorted front ++ distinct sorted back) =
      distinct sorted (front ++ back) := by
  cases sorted with
  | false => exact eraseDups_append_eraseDups front back
  | true =>
    refine distinct_eq_iff.mpr fun name => ?_
    rw [List.mem_append, List.mem_append, mem_distinct, mem_distinct]

/-- What is left out of the whole may be left out of its parts before. The parts may keep
some of it, since the whole is looked through again. -/
theorem distinct_append_filter (sorted : Bool) {keep keepFront keepBack : QName → Bool}
    (front back : List QName) (ofFront : ∀ name, keep name = true → keepFront name = true)
    (ofBack : ∀ name, keep name = true → keepBack name = true) :
    (distinct sorted ((distinct sorted front).filter keepFront ++
        (distinct sorted back).filter keepBack)).filter keep =
      (distinct sorted (front ++ back)).filter keep := by
  have again {keepPart : QName → Bool} (part : List QName)
      (ofPart : ∀ name, keep name = true → keepPart name = true) :
      ((distinct sorted part).filter keepPart).filter keep =
        distinct sorted (part.filter keep) := by
    rw [distinct_filter, List.filter_filter]
    refine List.filter_congr fun name _ => ?_
    rw [Bool.and_eq_left_iff_imp]
    exact ofPart name
  calc (distinct sorted ((distinct sorted front).filter keepFront ++
        (distinct sorted back).filter keepBack)).filter keep
    _ = distinct sorted (distinct sorted (front.filter keep) ++
          distinct sorted (back.filter keep)) := by
        rw [← distinct_filter, List.filter_append, again front ofFront, again back ofBack]
    _ = distinct sorted ((front ++ back).filter keep) := by
        rw [distinct_append_distinct, List.filter_append]
    _ = (distinct sorted (front ++ back)).filter keep := distinct_filter sorted keep _

end QName

namespace Policy

/-! ## What a second pass finds -/

theorem rulesOf_eq_nil {policy : Policy} {element : QName} (absent : ¬policy.HasElement element) :
    policy.rulesOf element = [] := by
  refine List.filter_eq_nil_iff.mpr fun rule present own => absent ?_
  exact ⟨rule, present, of_decide_eq_true own⟩

/-- An element that is not in the policy has no names to merge. -/
theorem mergedRule_of_absent {policy : Policy} {element : QName}
    (absent : ¬policy.HasElement element) (sorted : Bool) (everywhere : List QName) :
    policy.mergedRule sorted everywhere element = { name := element } := by
  rw [mergedRule, allowedOn, removedFrom, flatMap_own, flatMap_own, rulesOf_eq_nil absent]
  simp

section second

variable (options : Options) (policy : Policy) (element : QName)

/-- What a normal form lists under an element is in the merged rule, whether the element is
in the policy or not. -/
theorem flatMap_rulesOf_normalize {listed : ElementRule → List QName}
    (bare : listed { name := element } = []) :
    ((policy.normalize options).rulesOf element).flatMap listed = listed (policy.mergedRule
      options.sorted (QName.distinct options.sorted policy.globals) element) := by
  by_cases present : policy.HasElement element
  · have once := (normalize_isNormal options policy).once.elements
    have rule : policy.mergedRule options.sorted
        (QName.distinct options.sorted policy.globals) element ∈
          (policy.normalize options).elements := by
      refine List.mem_map_of_mem ?_
      rw [QName.mem_distinct]
      exact mem_map_name.mpr present
    have own : (policy.normalize options).rulesOf element = [_] := rulesOf_of_nodup once rule
    rw [own, List.flatMap_singleton]
  · have none : ¬(policy.normalize options).HasElement element := by
      rw [normalize_hasElement]
      exact present
    rw [rulesOf_eq_nil none, mergedRule_of_absent present, bare, List.flatMap_nil]

/-- What a normal form allows on an element is what the rules of the element listed, without
repeats and without what is allowed everywhere. -/
theorem allowedOn_normalize : (policy.normalize options).allowedOn element =
    (QName.distinct options.sorted (policy.allowedOn element)).filter (· ∉ policy.globals) := by
  rw [allowedOn, flatMap_own, flatMap_rulesOf_normalize options policy element rfl, mergedRule]
  simp only [QName.mem_distinct]

theorem removedFrom_normalize : (policy.normalize options).removedFrom element =
    QName.distinct options.sorted (policy.removedFrom element) := by
  rw [removedFrom, flatMap_own, flatMap_rulesOf_normalize options policy element rfl, mergedRule]

end second

/-! ## One pass after another -/

/-- Two passes are one, which sorts if either of them does. -/
theorem normalize_twice (policy : Policy) {first second both : Options}
    (sorted : both.sorted = (first.sorted || second.sorted)) :
    (policy.normalize first).normalize second = policy.normalize both := by
  have globals : QName.distinct second.sorted (policy.normalize first).globals =
      QName.distinct both.sorted policy.globals := by
    rw [sorted]
    exact QName.distinct_distinct _ _ _
  have removed : QName.distinct second.sorted (policy.normalize first).removed =
      QName.distinct both.sorted policy.removed := by
    rw [sorted]
    exact QName.distinct_distinct _ _ _
  have names : QName.distinct second.sorted ((policy.normalize first).elements.map (·.name)) =
      QName.distinct both.sorted (policy.elements.map (·.name)) := by
    rw [sorted, map_name_normalize, QName.distinct_distinct]
  have rules (everywhere : List QName) (same : ∀ name, name ∈ everywhere ↔ name ∈ policy.globals) :
      (policy.normalize first).mergedRule second.sorted everywhere =
        policy.mergedRule both.sorted everywhere := by
    funext element
    simp only [mergedRule, allowedOn_normalize, removedFrom_normalize, QName.distinct_filter,
      QName.distinct_distinct, List.filter_filter, same, Bool.and_self, sorted]
  rw [normalize, names, globals, removed, rules _ fun name => QName.mem_distinct]
  rfl

/-- Another pass with the same options changes nothing. -/
theorem normalize_again (options : Options) (policy : Policy) :
    (policy.normalize options).normalize options = policy.normalize options :=
  normalize_twice policy (Bool.or_self options.sorted).symm

/-- Passes of normalization, one after another.

Two passes are one pass with any options that sort if either of the two does. So a pass leaves
a policy in sorted normal form as it is, whether it sorts or not; a pass that sorts gives the
same whatever pass went before it; and how entries are to be written, in a compact form or
without empty lists, has no influence on the normal form. -/
theorem normalize_normalize (policy : Policy) :
    (∀ first second both : Options, both.sorted = (first.sorted || second.sorted) →
      (policy.normalize first).normalize second = policy.normalize both) ∧
    (policy.IsNormal true → ∀ options : Options, policy.normalize options = policy) ∧
    (∀ first second : Options, second.sorted = true →
      (policy.normalize first).normalize second = policy.normalize second) ∧
    ∀ (options : Options) (compact stripEmpty : Bool),
      policy.normalize { options with compact := compact, stripEmpty := stripEmpty } =
        policy.normalize options := by
  refine ⟨fun _ _ _ => normalize_twice policy, ?_, ?_, fun _ _ _ => rfl⟩
  · intro normal options
    have sortedPass : policy.normalize { sorted := true } = policy := normal.normalize
    calc policy.normalize options
      _ = (policy.normalize { sorted := true }).normalize options := by rw [sortedPass]
      _ = policy.normalize { sorted := true } := normalize_twice policy rfl
      _ = policy := sortedPass
  · intro first second sorted
    refine normalize_twice policy ?_
    rw [sorted, Bool.or_true]

/-- A sorted normal form is left by a pass that does not sort, and a pass that sorts does not
see how the one before it left the policy. -/
theorem normalize_normalize_interleaved :
    (interleaved.normalize { sorted := true }).normalize {} =
        interleaved.normalize { sorted := true, compact := true } ∧
      (interleaved.normalize {}).normalize { sorted := true } =
        interleaved.normalize { sorted := true } := by
  obtain ⟨both, _, forgets, _⟩ := normalize_normalize interleaved
  exact ⟨both _ _ _ rfl, forgets _ _ rfl⟩

/-! ## Part by part -/

section parts

variable (options : Options)

/-- Two policies may be normalized before they are put together. -/
theorem normalize_append (first second : Policy) :
    ((first.normalize options).append (second.normalize options)).normalize options =
      (first.append second).normalize options := by
  have globals : QName.distinct options.sorted
      ((first.normalize options).append (second.normalize options)).globals =
        QName.distinct options.sorted (first.append second).globals :=
    QName.distinct_append_distinct _ _ _
  have removed : QName.distinct options.sorted
      ((first.normalize options).append (second.normalize options)).removed =
        QName.distinct options.sorted (first.append second).removed :=
    QName.distinct_append_distinct _ _ _
  have names : QName.distinct options.sorted
      (((first.normalize options).append (second.normalize options)).elements.map (·.name)) =
        QName.distinct options.sorted ((first.append second).elements.map (·.name)) := by
    simp only [append, List.map_append, map_name_normalize, QName.distinct_append_distinct]
  have rules : ((first.normalize options).append (second.normalize options)).mergedRule
      options.sorted (QName.distinct options.sorted (first.append second).globals) =
        (first.append second).mergedRule options.sorted
          (QName.distinct options.sorted (first.append second).globals) := by
    funext element
    have outside {name : QName} (absent : name ∉ (first.append second).globals) :
        name ∉ first.globals ∧ name ∉ second.globals := by
      rwa [append, List.mem_append, not_or] at absent
    simp only [mergedRule, allowedOn_append, removedFrom_append, allowedOn_normalize,
      removedFrom_normalize, QName.distinct_append_distinct, QName.mem_distinct]
    rw [QName.distinct_append_filter]
    · intro name absent
      exact decide_eq_true (outside (of_decide_eq_true absent)).1
    · intro name absent
      exact decide_eq_true (outside (of_decide_eq_true absent)).2
  rw [normalize, names, globals, removed, rules]
  rfl

/-- What two policies are together answers to their normal forms. -/
theorem normalize_append_congr {first second otherFirst otherSecond : Policy}
    (front : first.normalize options = otherFirst.normalize options)
    (back : second.normalize options = otherSecond.normalize options) :
    (first.append second).normalize options = (otherFirst.append otherSecond).normalize options := by
  rw [← normalize_append, front, back, normalize_append]

/-- Parts may be normalized before they are put behind a policy, in place of which another one
of the same normal form may stand. The induction takes the first part into both policies,
which have one normal form again. -/
theorem normalize_foldl_append (parts : List Policy) {first other : Policy}
    (same : first.normalize options = other.normalize options) :
    ((parts.map (normalize options)).foldl append first).normalize options =
      (parts.foldl append other).normalize options := by
  induction parts generalizing first other with
  | nil => exact same
  | cons part rest ih =>
    exact ih (normalize_append_congr options same (normalize_again options part))

/-- Normalization can be done part by part.

Two policies that are normalized each on its own and then put together have the normal form
that they have together without that, although an attribute that one of them allows everywhere
was dropped from its elements before the other's rules for those elements came in. The same
holds of any number of parts, one behind the other. -/
theorem normalize_piecewise (first : Policy) :
    (∀ second : Policy,
      ((first.normalize options).append (second.normalize options)).normalize options =
        (first.append second).normalize options) ∧
    ∀ parts : List Policy,
      ((parts.map (normalize options)).foldl append (first.normalize options)).normalize options =
        (parts.foldl append first).normalize options :=
  ⟨normalize_append options first,
    fun parts => normalize_foldl_append options parts (normalize_again options first)⟩

end parts

end Policy

end AllowList
