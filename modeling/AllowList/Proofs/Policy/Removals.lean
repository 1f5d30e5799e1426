import AllowList.Proofs.Json.Alike
import AllowList.Proofs.Policy.Rewritten

/-!
# The list of removals

A policy's removals and those of a removal list are each written once, behind what the base
lists, unless the base lists them. What the base lists is written as it is, so the list as a
whole is without repeats exactly when the base's own list is: then it holds the first
occurrences of everything that was to be listed. A base that repeats an entry keeps both.

Entries are compared as JSON values. A removal is written without numbers, so it is alike
another value only if it is the same.
-/

namespace AllowList.Policy

open Json (Members Differ get? putAll erase)

/-- A removal is alike itself alone. -/
theorem eq_of_unsigned_eq_removalEntry {value : Json} {name : QName}
    (same : value.unsigned = (removalEntry name).unsigned) : value = removalEntry name := by
  obtain ⟨space, name⟩ := name
  cases space with
  | none => exact Json.eq_of_unsigned_eq_str same
  | some space =>
    obtain ⟨left, right, rfl, named, within⟩ := Json.eq_of_unsigned_eq_pair same
    rw [Json.eq_of_unsigned_eq_str named, Json.eq_of_unsigned_eq_str within]
    rfl

/-- Values tell a removal from the others as the removals of different names are told apart. -/
theorem unsigned_removalEntry_mem_iff {listed : List Json} {name : QName} :
    (removalEntry name).unsigned ∈ listed.map Json.unsigned ↔ removalEntry name ∈ listed := by
  rw [List.mem_map]
  constructor
  · rintro ⟨value, present, same⟩
    exact eq_of_unsigned_eq_removalEntry same ▸ present
  · exact fun present => ⟨_, present, rfl⟩

/-- Behind what is listed, the first occurrences of removals are the new ones. -/
theorem firsts_append_removals (listed : List Json) (names : List QName) :
    Json.firsts (listed ++ names.map removalEntry) =
      Json.firsts listed ++ (newRemovals listed names).map removalEntry := by
  have own : ∀ first second : QName,
      (removalEntry first).unsigned = (removalEntry second).unsigned → first = second :=
    fun first second same => removalEntry_injective (eq_of_unsigned_eq_removalEntry same)
  rw [Json.firsts_eq_firstsBy, Json.firsts_eq_firstsBy, firstsBy_append, List.filter_map,
    firstsBy_map Json.unsigned own, newRemovals]
  simp only [Function.comp_def, unsigned_removalEntry_mem_iff]

/-- All that is to be listed when a policy is written: what the base lists, then the policy's
removals, then those of a removal list. -/
def askedRemovals (listed : List Json) (policy : Policy) (removals : Option NameList) :
    List Json :=
  listed ++ (policy.removed ++ (removals.map NameList.removals).getD []).map removalEntry

/-- Over a base that has a list of removals, or none, a policy is written. Behind what the base
lists stand the first occurrences of the rest, and the key is missing if all lists are empty. -/
theorem exists_removals_written (options : Options) (policy : Policy)
    (removals : Option NameList) {base : Members} {listed : List Json}
    (lists : BaseLists base listed) :
    ∃ members added, policy.toJson options base removals = .ok (.obj members) ∧
      Json.firsts (askedRemovals listed policy removals) = Json.firsts listed ++ added ∧
      get? removalsKey members =
        if askedRemovals listed policy removals = [] then none
        else some (.arr (listed ++ added)) := by
  have written := toMembers_of_baseLists options policy removals lists
  have firsts := firsts_append_removals listed
    (policy.removed ++ (removals.map NameList.removals).getD [])
  generalize (newRemovals listed
    (policy.removed ++ (removals.map NameList.removals).getD [])).map removalEntry = added
    at written firsts
  refine ⟨_, added, toJson_eq_ok_iff.mpr ⟨_, written, rfl⟩, firsts, ?_⟩
  have untold : get? removalsKey (putAll (erase removalsKey base) (ownMembers options policy)) =
      none := by
    have foreign : ∀ member ∈ ownMembers options policy, removalsKey ≠ member.1 := by
      simp [ownMembers, removalsKey]
    rw [Json.get?_putAll_of_forall_ne _ _ foreign, Json.get?_erase, if_pos rfl]
  have empty : listed ++ added = [] ↔ askedRemovals listed policy removals = [] := by
    rw [← Json.firsts_eq_nil_iff (askedRemovals listed policy removals), askedRemovals, firsts,
      List.append_eq_nil_iff, List.append_eq_nil_iff, Json.firsts_eq_nil_iff]
  simp only [List.isEmpty_iff, empty]
  split
  · exact untold
  · rw [Json.get?_put, if_pos rfl]

/-- What is listed under the key of removals, and when it lists nothing twice.

Over a base that has a list of removals, or none, every policy is written, with any options and
any removal list. Under the key stand the base's entries as they are, and behind them the first
occurrences of the policy's removals and of the removal list's names that the base does not
list; the key is missing if there is nothing to list. So what stands there is always the first
occurrences of the base's entries, the policy's removals and the removal list's names exactly
when no two of the base's entries are alike, and then no two of what stands there are. -/
theorem removals_firsts_iff (options : Options) (policy : Policy) (removals : Option NameList)
    {base : Members} {listed : List Json} (lists : BaseLists base listed) :
    let asked := askedRemovals listed policy removals
    ∃ members added, policy.toJson options base removals = .ok (.obj members) ∧
      Json.firsts asked = Json.firsts listed ++ added ∧
      get? removalsKey members = (if asked = [] then none else some (.arr (listed ++ added))) ∧
      ((∀ value, get? removalsKey members = some value → value = .arr (Json.firsts asked)) ↔
        Differ listed) ∧
      (Differ listed → ∀ items, get? removalsKey members = some (.arr items) → Differ items) := by
  intro asked
  obtain ⟨members, added, written, firsts, told⟩ :=
    exists_removals_written options policy removals lists
  have law : (∀ value, get? removalsKey members = some value → value = .arr (Json.firsts asked)) ↔
      Differ listed := by
    rw [← Json.firsts_eq_self_iff, told]
    constructor
    · intro always
      by_cases nothing : asked = []
      · have none : listed = [] := (List.append_eq_nil_iff.mp nothing).1
        rw [none]
        rfl
      · have same := always _ (if_neg nothing)
        rw [Json.arr.injEq, firsts, List.append_left_inj] at same
        exact same.symm
    · intro once value found
      split at found
      · cases found
      · rw [firsts, once]
        exact (Option.some.inj found).symm
  refine ⟨members, added, written, firsts, told, law, ?_⟩
  intro differ items found
  obtain rfl := Json.arr.inj (law.mpr differ _ found)
  exact Json.differ_firsts asked

/-- Entries that a base lists, no two of them alike: a removal without a namespace, one with
one, and a value that is no removal at all. -/
def mixedRemovals : List Json :=
  [.str "onclick", .num (.real (.zero true)),
    .obj [("name", .str "href"), ("namespace", .str Namespace.xlink.uri)]]

/-- A policy that removes `onload` twice, and `onclick`, which is listed above. -/
def removesTwice : Policy :=
  { removed := [.bare "onload", .bare "onclick", .bare "onload"] }

theorem removals_firsts_iff_mixed :
    ∃ members, removesTwice.toJson {} [("removeAttributes", .arr mixedRemovals)]
        (some ⟨.xlink, ["title", "href", "title"]⟩) = .ok (.obj members) ∧
      get? removalsKey members = some (.arr (mixedRemovals ++
        [.str "onload", .obj [("name", .str "title"), ("namespace", .str Namespace.xlink.uri)]])) := by
  have lists : BaseLists [("removeAttributes", .arr mixedRemovals)] mixedRemovals := Or.inl rfl
  have differ : Differ mixedRemovals := by decide
  obtain ⟨members, added, written, _, told, law, _⟩ :=
    removals_firsts_iff {} removesTwice (some ⟨.xlink, ["title", "href", "title"]⟩) lists
  have found := told.trans (if_neg (by simp [askedRemovals, mixedRemovals]))
  refine ⟨members, written, found.trans (congrArg some ?_)⟩
  exact law.mpr differ _ found

/-- A base that lists `onclick` twice keeps both, although the first occurrences of what was to
be listed are one. -/
theorem removals_of_repeating_base :
    ∃ members, toJson {} [("removeAttributes", .arr [.str "onclick", .str "onclick"])] none {} =
        .ok (.obj members) ∧
      get? removalsKey members = some (.arr [.str "onclick", .str "onclick"]) ∧
      Json.firsts (askedRemovals [.str "onclick", .str "onclick"] {} none) = [.str "onclick"] :=
  ⟨_, rfl, rfl, rfl⟩

end AllowList.Policy
