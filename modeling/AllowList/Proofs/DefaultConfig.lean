import AllowList.DefaultConfig
import AllowList.Proofs.Firsts
import AllowList.Proofs.Json.Members

/-!
# What a default configuration consists of

A default configuration is two name lists over a base. Elements keep the order of their first
occurrences, since they are written as a list; attributes are written as keys, so only the set of
them counts. What the base has under the two keys is overwritten, whatever it is, and the rest of
the base stays.
-/

namespace AllowList.DefaultConfig

open Json (Members get? put KeysAscend)

/-- The configuration gives two keys their values, whatever they had in the base. -/
theorem toMembers_eq (base : Members) (elements attributes : NameList) :
    toMembers base elements attributes =
      put "allowAttributes" (.obj (allowedAttributes attributes))
        (put "allowElements" (.arr ((allowedElements elements).map .str)) base) := rfl

/-- An attribute that is listed is allowed on any element, and no other attribute is. -/
theorem get?_allowedAttributes (attributes : NameList) (name : String) :
    get? name (allowedAttributes attributes) =
      if name ∈ attributes.tagged then some anyElement else none :=
  Json.get?_putAll_map name anyElement attributes.tagged []

theorem keysAscend_allowedAttributes (attributes : NameList) :
    KeysAscend (allowedAttributes attributes) :=
  Json.keysAscend_putAll _ trivial

theorem mem_keys_allowedAttributes_iff {attributes : NameList} {name : String} :
    name ∈ (allowedAttributes attributes).map Prod.fst ↔ name ∈ attributes.tagged := by
  rw [Json.mem_keys_iff, get?_allowedAttributes]
  split <;> simp_all

/-- Every attribute is allowed on any element. -/
theorem eq_anyElement_of_mem {attributes : NameList} {member : String × Json}
    (present : member ∈ allowedAttributes attributes) : member.2 = anyElement := by
  have once := Json.nodup_of_keysAscend (keysAscend_allowedAttributes attributes)
  have found := Json.get?_of_mem once present
  rw [get?_allowedAttributes] at found
  split at found
  · exact (Option.some.inj found).symm
  · cases found

/-- The allowed attributes answer to the set of the names that are listed. -/
theorem allowedAttributes_congr {attributes others : NameList}
    (same : ∀ name, name ∈ others.tagged ↔ name ∈ attributes.tagged) :
    allowedAttributes others = allowedAttributes attributes := by
  refine Json.eq_of_get? (keysAscend_allowedAttributes others)
    (keysAscend_allowedAttributes attributes) fun name => ?_
  simp only [get?_allowedAttributes, same]

/-- An element that is listed again behind its first place changes nothing. -/
theorem allowedElements_again (space : Namespace) {front again : List String}
    (known : again ⊆ front) (back : List String) :
    allowedElements ⟨space, front ++ again ++ back⟩ = allowedElements ⟨space, front ++ back⟩ := by
  have tagged : again.map (space.tag ++ ·) ⊆ front.map (space.tag ++ ·) :=
    List.map_subset _ known
  simp only [allowedElements, NameList.tagged, List.map_append]
  rw [← eraseDups_append_eraseDups, eraseDups_append_of_subset tagged,
    eraseDups_append_eraseDups]

/-- Written over itself, a configuration is as it was. -/
theorem toMembers_toMembers (base : Members) (elements attributes : NameList) :
    toMembers (toMembers base elements attributes) elements attributes =
      toMembers base elements attributes := by
  have apart : "allowElements" ≠ "allowAttributes" := by decide
  simp only [toMembers_eq]
  rw [Json.put_comm apart, Json.put_put, Json.put_put]

/-- The default configuration is its lists over the base.

The allowed elements are the first occurrences of the tagged names of the first list. The allowed
attributes are the tagged names of the second, each once and on any element. Every other key has
what it has in the base, and is missing if it is missing there. An element's name that is listed
again further behind changes nothing; and of the attributes only the set of tagged names counts,
so their order and their repeats do not. Written over itself, the configuration is as it was. -/
theorem toJson_lists_over_base (base : Members) (elements attributes : NameList) :
    ∃ members, toJson base elements attributes = .obj members ∧
      (∃ allowed, AreFirsts allowed elements.tagged ∧
        get? "allowElements" members = some (.arr (allowed.map .str))) ∧
      (∃ everywhere, get? "allowAttributes" members = some (.obj everywhere) ∧
        KeysAscend everywhere ∧
        (∀ name, name ∈ everywhere.map Prod.fst ↔ name ∈ attributes.tagged) ∧
        ∀ member ∈ everywhere, member.2 = .arr [.str "*"]) ∧
      (∀ key, key ∉ ["allowElements", "allowAttributes"] → get? key members = get? key base) ∧
      (KeysAscend base → KeysAscend members) ∧
      (∀ front again back, elements.names = front ++ back → again ⊆ front →
        toJson base ⟨elements.space, front ++ again ++ back⟩ attributes = .obj members) ∧
      (∀ others : NameList, (∀ name, name ∈ others.tagged ↔ name ∈ attributes.tagged) →
        toJson base elements others = .obj members) ∧
      toJson members elements attributes = .obj members := by
  refine ⟨toMembers base elements attributes, rfl, ⟨allowedElements elements, ?_, ?_⟩,
    ⟨allowedAttributes attributes, ?_, keysAscend_allowedAttributes attributes,
      fun _ => mem_keys_allowedAttributes_iff, fun _ => eq_anyElement_of_mem⟩, ?_, ?_, ?_, ?_, ?_⟩
  · exact areFirsts_iff.mpr rfl
  · rw [toMembers_eq, Json.get?_put, Json.get?_put]
    rfl
  · rw [toMembers_eq, Json.get?_put, if_pos rfl]
  · intro key foreign
    simp only [List.mem_cons, List.not_mem_nil, or_false, not_or] at foreign
    rw [toMembers_eq, Json.get?_put, if_neg foreign.2, Json.get?_put, if_neg foreign.1]
  · exact Json.keysAscend_putAll _
  · intro front again back names known
    rw [toJson, toMembers_eq, allowedElements_again elements.space known back, ← names,
      toMembers_eq]
  · intro others same
    rw [toJson, toMembers_eq, allowedAttributes_congr same, toMembers_eq]
  · rw [toJson, toMembers_toMembers]

/-- A base that has both keys already, with values of other kinds. -/
def staleConfig : Members :=
  [("allowAttributes", .arr [.str "*"]), ("allowElements", .null), ("z", .bool true)]

theorem toJson_lists_over_base_stale :
    KeysAscend staleConfig ∧
    (∀ name, name ∈ NameList.tagged ⟨.html, ["xlink:title", "xlink:href", "xlink:title"]⟩ ↔
      name ∈ NameList.tagged ⟨.xlink, ["href", "title"]⟩) ∧
    ∃ members, KeysAscend members ∧ get? "z" members = some (.bool true) ∧
      toJson staleConfig ⟨.svg, ["a", "g"]⟩ ⟨.xlink, ["href", "title"]⟩ = .obj members ∧
      toJson staleConfig ⟨.svg, ["a", "a", "g"]⟩ ⟨.xlink, ["href", "title"]⟩ = .obj members ∧
      toJson staleConfig ⟨.svg, ["a", "g"]⟩
        ⟨.html, ["xlink:title", "xlink:href", "xlink:title"]⟩ = .obj members := by
  have ascends : KeysAscend staleConfig := by simp [staleConfig, KeysAscend]; decide
  have same : ∀ name,
      name ∈ NameList.tagged ⟨.html, ["xlink:title", "xlink:href", "xlink:title"]⟩ ↔
        name ∈ NameList.tagged ⟨.xlink, ["href", "title"]⟩ := by
    simp [NameList.tagged, Namespace.tag, or_comm]
  obtain ⟨members, written, _, _, kept, inOrder, repeated, regrouped, _⟩ :=
    toJson_lists_over_base staleConfig ⟨.svg, ["a", "g"]⟩ ⟨.xlink, ["href", "title"]⟩
  refine ⟨ascends, same, members, inOrder ascends, kept "z" (by decide), written, ?_, ?_⟩
  · exact repeated ["a"] ["a"] ["g"] rfl (List.Subset.refl _)
  · exact regrouped _ same

end AllowList.DefaultConfig
