import AllowList.Proofs.Policy.Meaning
import AllowList.Proofs.Source.Joined
import AllowList.Proofs.Work

/-!
# Policies of joined lists

Two policies of the same flags, one behind the other, mean the same in either order, and a
policy behind itself has the normal form that it has alone, sorted or not. A list that has
no attribute in front of its sections is read behind another as on its own. So joined lists
compile to one text in either order when entries are sorted, and a list that is repeated
compiles to its own text.
-/

namespace AllowList

namespace Policy

section append

variable {first second : Policy}

/-- A rule of two policies is a rule of the first or of the second. -/
theorem exists_rule_append {holds : ElementRule → Prop} :
    (∃ rule ∈ (first.append second).elements, holds rule) ↔
      (∃ rule ∈ first.elements, holds rule) ∨ ∃ rule ∈ second.elements, holds rule := by
  simp only [append, List.mem_append, or_and_right, exists_or]

/-- The rules of an element in the first policy come before those in the second. -/
theorem allowedOn_append (element : QName) :
    (first.append second).allowedOn element =
      first.allowedOn element ++ second.allowedOn element := by
  simp only [allowedOn, append, List.flatMap_append]

theorem removedFrom_append (element : QName) :
    (first.append second).removedFrom element =
      first.removedFrom element ++ second.removedFrom element := by
  simp only [removedFrom, append, List.flatMap_append]

end append

/-- In either order two policies let the same things through, if the flags are the same. -/
theorem append_sameMeaning {first second : Policy} (flags : first.flags = second.flags) :
    (first.append second).SameMeaning (second.append first) where
  flags := flags
  globals name := by simp only [append, List.mem_append, or_comm]
  removed name := by simp only [append, List.mem_append, or_comm]
  elements element := by
    rw [HasElement, HasElement, exists_rule_append, exists_rule_append, or_comm]
  allowsOnly element name := by
    rw [AllowsOnly, AllowsOnly, ListsAllowed, ListsAllowed, exists_rule_append,
      exists_rule_append]
    simp only [append, List.mem_append, or_comm]
  listsRemoved element name := by
    rw [ListsRemoved, ListsRemoved, exists_rule_append, exists_rule_append, or_comm]

end Policy

/-- Names that are listed again add nothing. -/
theorem QName.distinct_append_self (sorted : Bool) (names : List QName) :
    distinct sorted (names ++ names) = distinct sorted names := by
  have again : names.removeAll names = [] := by
    rw [List.removeAll, List.filter_eq_nil_iff]
    intro name present
    simp [present]
  have once : (names ++ names).eraseDups = names.eraseDups := by
    rw [List.eraseDups_append, again, List.eraseDups_nil, List.append_nil]
  rw [distinct, distinct, once]

namespace Policy

/-- A policy behind itself has the normal form that it has alone. -/
theorem normalize_append_self (options : Options) (policy : Policy) :
    (policy.append policy).normalize options = policy.normalize options := by
  have merged (globals : List QName) : (policy.append policy).mergedRule options.sorted globals =
      policy.mergedRule options.sorted globals := by
    funext element
    simp only [mergedRule, allowedOn_append, removedFrom_append, QName.distinct_append_self]
  simp only [normalize, merged]
  simp only [append, List.map_append, QName.distinct_append_self]

end Policy

namespace Source

/-- Behind another list, one that has no warning on its own adds its policy. -/
theorem value_read_joined_of_silent {flags : Flags} (first : String) {second : String}
    (silent : (Draft.ofText flags second).warnings = []) (policy : Policy) :
    (read flags (first ++ "\n" ++ second)).value = .ok policy ↔
      ∃ front back, (read flags first).value = .ok front ∧ (read flags second).value = .ok back ∧
        policy = front.append back := by
  have nothing (front : Policy) : front.receive (namesOf (Division.ofText second).loose)
      (Draft.ofText flags first).place = front :=
    receive_nothing (namesOf_loose_of_warnings silent) _
  simp only [value_read_joined, nothing]

end Source

namespace Policy

/-- What a source list compiles to: the text of its policy in normal form, over a base and
with a removal list. -/
def compiledText (settings : Settings) (base : Json.Members) (removals : Option NameList)
    (text : String) : Except Failure String :=
  Work.result do
    let policy ← compiled settings text
    policy.rendered settings.options base removals

/-- A list compiles to a text if it is accepted and its normal form renders as the text. -/
theorem compiledText_eq_ok_iff {settings : Settings} {base : Json.Members}
    {removals : Option NameList} {text written : String} :
    compiledText settings base removals text = .ok written ↔
      ∃ policy, (Source.read settings.flags text).value = .ok policy ∧
        ((policy.normalize settings.options).rendered settings.options base removals).result =
          .ok written := by
  rw [compiledText, Work.result_bind, result_compiled]
  cases (Source.read settings.flags text).value with
  | error issues =>
    constructor
    · intro refused
      cases refused
    · rintro ⟨_, accepted, _⟩
      cases accepted
  | ok policy =>
    constructor
    · intro rendered
      exact ⟨policy, rfl, rendered⟩
    · rintro ⟨_, ⟨⟩, rendered⟩
      exact rendered

/-- Sorted, two joined lists without warnings of their own compile to a text only if they
compile to it in the other order. -/
theorem compiledText_joined_swap {settings : Settings} (sorted : settings.options.sorted = true)
    (base : Json.Members) (removals : Option NameList) {first second written : String}
    (firstSilent : (Source.Draft.ofText settings.flags first).warnings = [])
    (secondSilent : (Source.Draft.ofText settings.flags second).warnings = [])
    (compiles : compiledText settings base removals (first ++ "\n" ++ second) = .ok written) :
    compiledText settings base removals (second ++ "\n" ++ first) = .ok written := by
  obtain ⟨policy, accepted, rendered⟩ := compiledText_eq_ok_iff.mp compiles
  obtain ⟨front, back, frontRead, backRead, rfl⟩ :=
    (Source.value_read_joined_of_silent first secondSilent policy).mp accepted
  have flags : front.flags = back.flags :=
    (Source.flags_of_read frontRead).trans (Source.flags_of_read backRead).symm
  have same : (front.append back).normalize settings.options =
      (back.append front).normalize settings.options :=
    normalize_eq_of_sameMeaning settings.options sorted (append_sameMeaning flags)
  apply compiledText_eq_ok_iff.mpr
  refine ⟨back.append front, ?_, same ▸ rendered⟩
  exact (Source.value_read_joined_of_silent second firstSilent _).mpr
    ⟨back, front, backRead, frontRead, rfl⟩

/-- The order in which lists are joined, and how often one is repeated, does not matter to
what they compile to.

Where entries are sorted, two lists that have no warning on their own compile to the same
text in either order, or in neither. Sorted or not, a list without warnings that is repeated
compiles to the text that it compiles to alone, or to none if it compiles to none. -/
theorem compiledText_order_repetition (settings : Settings) (base : Json.Members)
    (removals : Option NameList) :
    (settings.options.sorted = true → ∀ first second : String,
      (Source.Draft.ofText settings.flags first).warnings = [] →
      (Source.Draft.ofText settings.flags second).warnings = [] →
      ∀ written, compiledText settings base removals (first ++ "\n" ++ second) = .ok written ↔
        compiledText settings base removals (second ++ "\n" ++ first) = .ok written) ∧
    ∀ text : String, (Source.Draft.ofText settings.flags text).warnings = [] →
      ∀ written, compiledText settings base removals (text ++ "\n" ++ text) = .ok written ↔
        compiledText settings base removals text = .ok written := by
  constructor
  · intro sorted first second firstSilent secondSilent written
    constructor
    · intro compiles
      exact compiledText_joined_swap sorted base removals firstSilent secondSilent compiles
    · intro compiles
      exact compiledText_joined_swap sorted base removals secondSilent firstSilent compiles
  · intro text silent written
    rw [compiledText_eq_ok_iff, compiledText_eq_ok_iff]
    constructor
    · rintro ⟨policy, accepted, rendered⟩
      obtain ⟨front, back, frontRead, backRead, rfl⟩ :=
        (Source.value_read_joined_of_silent text silent policy).mp accepted
      have same : front = back := Except.ok.inj (frontRead.symm.trans backRead)
      subst back
      rw [normalize_append_self] at rendered
      exact ⟨front, frontRead, rendered⟩
    · rintro ⟨policy, accepted, rendered⟩
      refine ⟨policy.append policy, ?_, ?_⟩
      · exact (Source.value_read_joined_of_silent text silent _).mpr
          ⟨policy, policy, accepted, accepted, rfl⟩
      · rw [normalize_append_self]
        exact rendered

/-- A list whose global section takes `id` away from the elements of both lists below. -/
def sectionFirst : String :=
  "[Global]\n- id\np\n- class\n- id"

/-- A list with another rule for one element of the list above, and one of its own. -/
def svgFirst : String :=
  "svg a\n- href\np\n! onclick\n- id"

theorem compiledText_order_repetition_sectionFirst :
    ∃ written again,
      compiledText { options := { sorted := true } } [] none (sectionFirst ++ "\n" ++ svgFirst) =
        .ok written ∧
      compiledText { options := { sorted := true } } [] none (svgFirst ++ "\n" ++ sectionFirst) =
        .ok written ∧
      compiledText {} [] none sectionFirst = .ok again ∧
      compiledText {} [] none (sectionFirst ++ "\n" ++ sectionFirst) = .ok again := by
  obtain ⟨swapped, _⟩ := compiledText_order_repetition { options := { sorted := true } } [] none
  obtain ⟨_, repeated⟩ := compiledText_order_repetition {} [] none
  have joined : ∃ written, compiledText { options := { sorted := true } } [] none
      (sectionFirst ++ "\n" ++ svgFirst) = .ok written := ⟨_, rfl⟩
  have alone : ∃ again, compiledText {} [] none sectionFirst = .ok again := ⟨_, rfl⟩
  obtain ⟨written, compiles⟩ := joined
  obtain ⟨again, compilesAlone⟩ := alone
  refine ⟨written, again, compiles, ?_, compilesAlone, ?_⟩
  · exact (swapped rfl sectionFirst svgFirst rfl rfl written).mp compiles
  · exact (repeated sectionFirst rfl again).mpr compilesAlone

end Policy

end AllowList
