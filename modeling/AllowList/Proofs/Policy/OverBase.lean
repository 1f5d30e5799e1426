import AllowList.Proofs.Policy.Removals

/-!
# A policy over its base

A base gives way where the policy speaks: the policy's own members are written as they are
without a base. Every other key of the base is kept with the value it has, but for the list of
removals, which is made anew behind the base's and is missing if nothing is removed. Only a list
of removals that is no array makes a base unfit, and then no policy is written over it.
-/

namespace AllowList.Policy

open Json (Members get? KeysAscend)

section base

variable {options : Options} {base members : Members} {removals : Option NameList}
  {policy : Policy}

/-- No policy is written over a base whose removals are no array, and every policy is over any
other. -/
theorem result_encoded_eq_error_iff {failure : Failure} :
    (policy.encoded options base removals).result = .error failure ↔
      ∃ found, get? removalsKey base = some found ∧ (∀ items, found ≠ .arr items) ∧
        failure = .badBase (.removalsNotArray found) := by
  rw [result_encoded]
  unfold toJson toMembers baseRemovals
  split
  case h_1 missing => simp [missing, Except.map, Except.mapError]
  case h_2 items known => simp [known, Except.map, Except.mapError]
  case h_3 found noArray known =>
    simp only [known, Except.map, Except.mapError, Except.error.injEq, Option.some.injEq,
      exists_eq_left']
    constructor
    · rintro rfl
      exact ⟨noArray, rfl⟩
    · rintro ⟨_, rfl⟩
      rfl

/-- Something is to be listed when one of the three lists holds anything. -/
theorem askedRemovals_ne_nil_iff {listed : List Json} :
    askedRemovals listed policy removals ≠ [] ↔
      listed ≠ [] ∨ policy.removed ≠ [] ∨ ∃ list ∈ removals, list.names ≠ [] := by
  have removesNone (list : NameList) : list.removals = [] ↔ list.names = [] := by
    obtain ⟨space, names⟩ := list
    cases space <;> simp [NameList.removals]
  have nothing : askedRemovals listed policy removals = [] ↔
      listed = [] ∧ policy.removed = [] ∧ ∀ list ∈ removals, list.names = [] := by
    cases removals <;> simp [askedRemovals, removesNone]
  rw [ne_eq, nothing, not_and_or, not_and_or]
  push Not
  rfl

/-- What the keys have in a policy over a base: a key of the policy's own has what the policy
computes, the key of removals is there when something is to be listed, and any other key has
what it has in the base. -/
structure Overlays (options : Options) (policy : Policy) (base : Members) (asked : List Json)
    (members : Members) : Prop where
  own : ∀ key value, (key, value) ∈ ownMembers options policy → get? key members = some value
  removals : (get? removalsKey members).isSome = true ↔ asked ≠ []
  kept : ∀ key, key ∉ Form.fields → get? key members = get? key base

/-- A policy is written over a base that lists removals, or none. -/
theorem exists_overlays (options : Options) (policy : Policy) (removals : Option NameList)
    {listed : List Json} (ascends : KeysAscend base) (lists : BaseLists base listed) :
    ∃ members, policy.toMembers options base removals = .ok members ∧ KeysAscend members ∧
      Overlays options policy base (askedRemovals listed policy removals) members := by
  obtain ⟨members, written, inOrder, own, _⟩ :=
    toMembers_eq_ok options policy removals ascends lists
  obtain ⟨same, _, asJson, _, told⟩ := exists_removals_written options policy removals lists
  obtain ⟨others, again, equal⟩ := toJson_eq_ok_iff.mp asJson
  cases equal
  cases again.symm.trans written
  refine ⟨members, written, inOrder, own, ?_, fun key foreign => ?_⟩
  · rw [told]
    split <;> simp_all
  · simp only [Form.fields, List.mem_cons, List.not_mem_nil, or_false, not_or] at foreign
    obtain ⟨notElements, notGlobals, notComments, notData, notRemovals⟩ := foreign
    apply get?_of_foreign written notRemovals
    simp [ownMembers, notElements, notGlobals, notComments, notData]

/-- The keys are the base's, but for the one of removals, and the policy's own, with the key of
removals if any are to be listed. -/
theorem Overlays.mem_keys_iff {asked : List Json}
    (laid : Overlays options policy base asked members) (key : String) :
    key ∈ members.map Prod.fst ↔
      key ∈ base.map Prod.fst ∧ key ≠ removalsKey ∨
        key ∈ ["elements", "attributes", "comments", "dataAttributes"] ∨
        key = removalsKey ∧ asked ≠ [] := by
  have ownKeys : key ∈ ["elements", "attributes", "comments", "dataAttributes"] ↔
      ∃ value, (key, value) ∈ ownMembers options policy := by
    simp [ownMembers, exists_or]
  by_cases isOwn : key ∈ ["elements", "attributes", "comments", "dataAttributes"]
  · obtain ⟨value, present⟩ := ownKeys.mp isOwn
    have known : key ∈ members.map Prod.fst := by
      rw [Json.mem_keys_iff, laid.own key value present]
      rfl
    exact iff_of_true known (Or.inr (Or.inl isOwn))
  by_cases isRemovals : key = removalsKey
  · subst isRemovals
    rw [Json.mem_keys_iff, laid.removals]
    simp [isOwn]
  · have foreign : key ∉ Form.fields := by
      simp_all [Form.fields, removalsKey]
    rw [Json.mem_keys_iff, laid.kept key foreign, ← Json.mem_keys_iff]
    simp [isOwn, isRemovals]

end base

/-- What a policy over a base keeps of it, and when there is none.

A policy's elements and global attributes have one entry each, in their order, and these are
the same over every base and with every removal list. No policy is written over a base whose
removals are no array, and the failure is the base's. Over any other base every policy is
written, as an object with each key once: the base's keys but for the one of removals, the four
of the policy, and the one of removals exactly when the base's list, the policy's or the removal
list holds something. A key that no policy has keeps its value, whatever that is; the policy's
own have what the policy computes. -/
theorem encoded_over_base (options : Options) (policy : Policy) :
    ∃ elements globals : List Json,
      List.Forall₂ (ReadsAs ruleOf) elements policy.elements ∧
      List.Forall₂ (ReadsAs attributeOf) globals policy.globals ∧
      ∀ (base : Members) (removals : Option NameList),
        (∀ failure, (policy.encoded options base removals).result = .error failure ↔
          ∃ found, get? "removeAttributes" base = some found ∧ (∀ items, found ≠ .arr items) ∧
            failure = .badBase (.removalsNotArray found)) ∧
        ∀ listed, KeysAscend base → BaseLists base listed →
          ∃ members, (policy.encoded options base removals).result = .ok (.obj members) ∧
            KeysAscend members ∧
            (∀ key, key ∈ members.map Prod.fst ↔
              key ∈ base.map Prod.fst ∧ key ≠ "removeAttributes" ∨
                key ∈ ["elements", "attributes", "comments", "dataAttributes"] ∨
                key = "removeAttributes" ∧
                  (listed ≠ [] ∨ policy.removed ≠ [] ∨ ∃ list ∈ removals, list.names ≠ [])) ∧
            (∀ key, key ∉ ["elements", "attributes", "comments", "dataAttributes",
              "removeAttributes"] → get? key members = get? key base) ∧
            get? "elements" members = some (.arr elements) ∧
            get? "attributes" members = some (.arr globals) ∧
            get? "comments" members = some (.bool policy.flags.comments) ∧
            get? "dataAttributes" members = some (.bool policy.flags.dataAttributes) := by
  refine ⟨policy.elements.map (elementEntry options), policy.globals.map (attributeEntry options),
    ?_, ?_, fun base removals => ⟨fun failure => ?_, fun listed ascends lists => ?_⟩⟩
  · exact List.forall₂_map_left_iff.mpr <| List.forall₂_same.mpr
      fun rule _ => readsAs_elementEntry options rule
  · exact List.forall₂_map_left_iff.mpr <| List.forall₂_same.mpr
      fun name _ => readsAs_attributeEntry options name
  · exact result_encoded_eq_error_iff
  · obtain ⟨members, written, inOrder, laid⟩ :=
      exists_overlays options policy removals ascends lists
    refine ⟨members, ?_, inOrder, fun key => ?_, laid.kept, ?_, ?_, ?_, ?_⟩
    · rw [result_encoded, toJson, written]
      rfl
    · rw [laid.mem_keys_iff, askedRemovals_ne_nil_iff]
      rfl
    all_goals exact laid.own _ _ (by simp [ownMembers])

/-- A base with members that are a policy's but of other kinds, with a list of removals that
lists none, and with a key that is no policy's. -/
def staleBase : Members :=
  [("attributes", .null), ("comments", .str "no"), ("removeAttributes", .arr []),
    ("z", .obj [("attributes", .arr [.null])])]

theorem encoded_over_base_stale :
    (∃ members, (encoded {} staleBase (some ⟨.xlink, []⟩)
          { elements := [⟨.within .svg "a", [.bare "id"], []⟩], flags := ⟨true, false⟩ }).result =
        .ok (.obj members) ∧
      "removeAttributes" ∉ members.map Prod.fst ∧ "elements" ∈ members.map Prod.fst ∧
      get? "comments" members = some (.bool true) ∧
      get? "z" members = some (.obj [("attributes", .arr [.null])])) ∧
    (encoded {} [("removeAttributes", .null)] none {}).result =
      .error (.badBase (.removalsNotArray .null)) := by
  have ascends : KeysAscend staleBase := by simp [staleBase, KeysAscend]; decide
  have lists : BaseLists staleBase [] := Or.inl rfl
  constructor
  · obtain ⟨_, _, _, _, laid⟩ := encoded_over_base {}
      { elements := [⟨.within .svg "a", [.bare "id"], []⟩], flags := ⟨true, false⟩ }
    obtain ⟨members, written, _, keys, kept, _, _, comments, _⟩ :=
      (laid staleBase (some ⟨.xlink, []⟩)).2 [] ascends lists
    refine ⟨members, written, ?_, ?_, comments, kept "z" (by decide)⟩
    · rw [keys]
      simp
    · rw [keys]
      simp
  · obtain ⟨_, _, _, _, laid⟩ := encoded_over_base {} {}
    exact ((laid [("removeAttributes", .null)] none).1 _).mpr
      ⟨.null, rfl, fun _ => Json.noConfusion, rfl⟩

end AllowList.Policy
