import AllowList.Proofs.Json.Rereadable
import AllowList.Proofs.Policy.RoundTrip
import AllowList.Proofs.Work

/-!
# Writing a policy over what it was written as

What a policy is written as can stand under it as a base, and then the policy is written as
it is over the base below: its own members take the place of those it wrote before, all of
its removals are listed already, and what else the base holds was kept. The options of the
two writings need not be the same.

With the text in between the same holds, if the numbers of the base are whole: the text is
read as the value that was written.
-/

namespace AllowList

open Json (Members get? put putAll erase KeysAscend Rereadable)

/-- Members that differ only under keys that are put anyway become the same. -/
theorem Json.putAll_eq_putAll {left right added : Members} (leftAscends : KeysAscend left)
    (rightAscends : KeysAscend right) (once : (added.map Prod.fst).Nodup)
    (same : ∀ key, (∀ member ∈ added, key ≠ member.1) → get? key left = get? key right) :
    putAll left added = putAll right added := by
  apply eq_of_get? (keysAscend_putAll added leftAscends) (keysAscend_putAll added rightAscends)
  intro key
  by_cases own : ∃ value, (key, value) ∈ added
  · obtain ⟨value, present⟩ := own
    rw [get?_putAll_of_mem left once present, get?_putAll_of_mem right once present]
  · have foreign : ∀ member ∈ added, key ≠ member.1 := by
      rintro member present rfl
      exact own ⟨member.2, present⟩
    rw [get?_putAll_of_forall_ne added left foreign, get?_putAll_of_forall_ne added right foreign]
    exact same key foreign

namespace Policy

/-! ## The value -/

theorem nodup_ownMembers (options : Options) (policy : Policy) :
    ((ownMembers options policy).map Prod.fst).Nodup := by
  simp [ownMembers]

/-- Removals that are all listed add nothing. -/
theorem newRemovals_eq_nil {listed : List Json} {names : List QName}
    (present : ∀ name ∈ names, removalEntry name ∈ listed) : newRemovals listed names = [] := by
  have none : names.filter (fun name => removalEntry name ∉ listed) = [] := by
    simpa only [List.filter_eq_nil_iff, decide_eq_true_eq, not_not] using present
  rw [newRemovals, none, List.eraseDups_nil]

/-- After the new removals of some names are listed, all of the names are. -/
theorem newRemovals_again (listed : List Json) (names : List QName) :
    newRemovals (listed ++ (newRemovals listed names).map removalEntry) names = [] := by
  refine newRemovals_eq_nil fun name present => ?_
  by_cases known : removalEntry name ∈ listed
  · exact List.mem_append_left _ known
  · refine List.mem_append_right _ (List.mem_map_of_mem ?_)
    rw [newRemovals, List.mem_eraseDups, List.mem_filter]
    exact ⟨present, by simpa using known⟩

/-- A base over which a policy is written has a list of removals, or lists none. -/
theorem exists_baseLists {options : Options} {base members : Members}
    {removals : Option NameList} {policy : Policy}
    (written : policy.toMembers options base removals = .ok members) :
    ∃ listed, BaseLists base listed := by
  unfold toMembers baseRemovals at written
  split at written
  case h_1 missing => exact ⟨[], Or.inr ⟨missing, rfl⟩⟩
  case h_2 listed known => exact ⟨listed, Or.inl known⟩
  case h_3 => cases written

/-- What is written over a base that lists removals, with all removals behind its own. -/
theorem toMembers_of_baseLists (options : Options) (policy : Policy)
    (removals : Option NameList) {base : Members} {listed : List Json}
    (lists : BaseLists base listed) :
    policy.toMembers options base removals = .ok
      (let all := listed ++ (newRemovals listed
          (policy.removed ++ (removals.map NameList.removals).getD [])).map removalEntry
        let members := putAll (erase removalsKey base) (ownMembers options policy)
        if all.isEmpty then members else put removalsKey (.arr all) members) := by
  simp only [toMembers, baseRemovals_eq_ok lists, Except.map, foldl_addRemoval]

/-- A key that is no policy's own has the value that it has in the base. -/
theorem get?_of_foreign {options : Options} {base members : Members}
    {removals : Option NameList} {policy : Policy}
    (written : policy.toMembers options base removals = .ok members) {key : String}
    (notRemovals : key ≠ removalsKey)
    (foreign : ∀ member ∈ ownMembers options policy, key ≠ member.1) :
    get? key members = get? key base := by
  obtain ⟨listed, lists⟩ := exists_baseLists written
  rw [toMembers_of_baseLists options policy removals lists] at written
  have kept : get? key (putAll (erase removalsKey base) (ownMembers options policy)) =
      get? key base := by
    rw [Json.get?_putAll_of_forall_ne _ _ foreign, Json.get?_erase, if_neg notRemovals]
  cases written
  dsimp only
  split
  · exact kept
  · rw [Json.get?_put, if_neg notRemovals, kept]

/-- Over what it was written as, a policy is written as over the base below. -/
theorem toMembers_again {options : Options} {base first : Members} {removals : Option NameList}
    {policy : Policy} (ascends : KeysAscend base)
    (written : policy.toMembers options base removals = .ok first) (other : Options) :
    policy.toMembers other first removals = policy.toMembers other base removals := by
  obtain ⟨listed, lists⟩ := exists_baseLists written
  obtain ⟨members, same, firstAscends, _, firstLists⟩ :=
    toMembers_eq_ok options policy removals ascends lists
  cases same.symm.trans written
  have kept : putAll (erase removalsKey first) (ownMembers other policy) =
      putAll (erase removalsKey base) (ownMembers other policy) := by
    apply Json.putAll_eq_putAll (Json.keysAscend_erase _ firstAscends)
      (Json.keysAscend_erase _ ascends) (nodup_ownMembers other policy)
    intro key foreign
    rw [Json.get?_erase, Json.get?_erase]
    split
    case isTrue => rfl
    case isFalse notRemovals =>
      refine get?_of_foreign written notRemovals ?_
      simpa [ownMembers] using foreign
  rw [toMembers_of_baseLists other policy removals firstLists,
    toMembers_of_baseLists other policy removals lists]
  simp only [newRemovals_again, List.map_nil, List.append_nil, kept]

/-! ## The text -/

section entries

variable {around : Nat}

theorem rereadable_spaceJson (room : around ≤ Json.depthLimit) (space : Option Namespace) :
    (spaceJson space).Rereadable around := by
  cases space with
  | none => exact Json.rereadable_null room
  | some space => exact Json.rereadable_str room space.uri

/-- Mapped to rereadable items, a list is a rereadable array. -/
theorem rereadable_map {α : Type} {item : α → Json} (room : around < Json.depthLimit)
    (each : ∀ own, (item own).Rereadable (around + 1)) (owns : List α) :
    (Json.arr (owns.map item)).Rereadable around := by
  refine Json.rereadable_arr.mpr ⟨room, fun value present => ?_⟩
  obtain ⟨own, _, rfl⟩ := List.mem_map.mp present
  exact each own

/-- An entry is rereadable if its lists are. -/
theorem rereadable_fullEntry (room : around < Json.depthLimit) (name : QName)
    {allowed removed : Option (List Json)}
    (allows : ∀ items ∈ allowed, (Json.arr items).Rereadable (around + 1))
    (removes : ∀ items ∈ removed, (Json.arr items).Rereadable (around + 1)) :
    (fullEntry name allowed removed).Rereadable around := by
  refine Json.rereadable_obj.mpr ⟨room, ?_, ?_⟩
  · cases allowed <;> cases removed <;>
      simp [optionalMember, removalsKey, KeysAscend] <;> decide
  · have name : (Json.str name.name).Rereadable (around + 1) := Json.rereadable_str room _
    have space := rereadable_spaceJson room
    cases allowed <;> cases removed <;>
      simp_all [optionalMember]

theorem rereadable_attributeEntry (room : around < Json.depthLimit) (options : Options)
    (name : QName) : (attributeEntry options name).Rereadable around := by
  unfold attributeEntry
  split
  · exact Json.rereadable_str (Nat.le_of_lt room) name.name
  · exact rereadable_fullEntry room name nofun nofun

theorem rereadable_removalEntry (room : around < Json.depthLimit) (name : QName) :
    (removalEntry name).Rereadable around := by
  unfold removalEntry
  split
  · exact Json.rereadable_str (Nat.le_of_lt room) name.name
  · exact rereadable_fullEntry room name nofun nofun

theorem rereadable_elementEntry (room : around + 2 < Json.depthLimit) (options : Options)
    (rule : ElementRule) : (elementEntry options rule).Rereadable around := by
  have outer : around < Json.depthLimit := by omega
  have inner : around + 1 < Json.depthLimit := by omega
  have listed (names : List QName) :
      (Json.arr (names.map (attributeEntry options))).Rereadable (around + 1) :=
    rereadable_map inner (rereadable_attributeEntry room options) names
  unfold elementEntry
  split
  · exact Json.rereadable_str (Nat.le_of_lt outer) rule.name.name
  · apply rereadable_fullEntry outer
    · intro items given
      split at given <;> cases given
      exact listed rule.allowed
    · intro items given
      split at given <;> cases given
      exact listed rule.removed

end entries

/-- The removals that a rereadable base lists are rereadable. -/
theorem rereadable_of_baseLists {base : Members} {listed : List Json}
    (rereadable : (Json.obj base).Rereadable 0) (lists : BaseLists base listed) :
    ∀ value ∈ listed, value.Rereadable 2 := by
  rcases lists with known | ⟨_, rfl⟩
  · obtain ⟨_, _, each⟩ := Json.rereadable_obj.mp rereadable
    have array := each _ (Json.mem_of_get? known)
    exact (Json.rereadable_arr.mp array).2
  · exact nofun

/-- Over a rereadable base a policy is written as a rereadable object. -/
theorem rereadable_toMembers {options : Options} {base members : Members}
    {removals : Option NameList} {policy : Policy} (rereadable : (Json.obj base).Rereadable 0)
    (written : policy.toMembers options base removals = .ok members) :
    (Json.obj members).Rereadable 0 := by
  obtain ⟨listed, lists⟩ := exists_baseLists written
  rw [toMembers_of_baseLists options policy removals lists] at written
  have own : ∀ member ∈ ownMembers options policy, member.2.Rereadable 1 := by
    have elements : (Json.arr (policy.elements.map (elementEntry options))).Rereadable 1 :=
      rereadable_map (by decide) (rereadable_elementEntry (by decide) options) policy.elements
    have globals : (Json.arr (policy.globals.map (attributeEntry options))).Rereadable 1 :=
      rereadable_map (by decide) (rereadable_attributeEntry (by decide) options) policy.globals
    have flag (value : Bool) : (Json.bool value).Rereadable 1 :=
      Json.rereadable_bool (by decide) value
    simp [ownMembers, elements, globals, flag]
  have removed (names : List QName) :
      (Json.arr (listed ++ names.map removalEntry)).Rereadable 1 := by
    refine Json.rereadable_arr.mpr ⟨by decide, fun value present => ?_⟩
    rcases List.mem_append.mp present with old | new
    · exact rereadable_of_baseLists rereadable lists value old
    · obtain ⟨name, _, rfl⟩ := List.mem_map.mp new
      exact rereadable_removalEntry (by decide) name
  have others := (rereadable.erase removalsKey).putAll own
  cases written
  dsimp only
  split
  · exact others
  · exact others.put removalsKey (removed _)

/-- The text of a rereadable object is read as the object. -/
theorem readBase_canonical {members : Members} (rereadable : (Json.obj members).Rereadable 0) :
    readBase (Json.obj members).canonical = .ok members := by
  rw [readBase, rereadable.read_canonical]

/-- A base that is read was read as an object. -/
theorem read_of_readBase {source : String} {base : Members}
    (accepted : readBase source = .ok base) : Json.read source = .ok (.obj base) := by
  unfold readBase at accepted
  split at accepted
  case h_1 => cases accepted
  case h_2 read =>
    cases accepted
    exact read
  case h_3 => cases accepted

/-- A policy that is written as JSON has members. -/
theorem toJson_eq_ok_iff {options : Options} {base : Members} {removals : Option NameList}
    {policy : Policy} {value : Json} :
    policy.toJson options base removals = .ok value ↔
      ∃ members, policy.toMembers options base removals = .ok members ∧ value = .obj members := by
  rw [toJson]
  cases policy.toMembers options base removals with
  | error fault => simp [Except.map]
  | ok members => simp [Except.map, eq_comm]

/-- Writing a policy over what it was written as changes nothing.

Whatever a base and a removal list hold, if the policy is written over the base, then as an
object: and over that object, with the same removal list, it is written as over the base,
with the options of the first writing and with any others.

The same holds of texts, if the base was read of a text without real numbers: what a policy
is rendered as is read as a base, and over that it is rendered as before. -/
theorem toJson_again (policy : Policy) (options : Options) (base : Members)
    (removals : Option NameList) :
    (KeysAscend base → ∀ value, policy.toJson options base removals = .ok value →
      ∃ first, value = .obj first ∧ ∀ other : Options, ∃ second,
        policy.toJson other base removals = .ok second ∧
        policy.toJson other first removals = .ok second) ∧
    ∀ source text, readBase source = .ok base →
      (∀ token ∈ Json.tokens source.toList, token.isReal = false) →
      (policy.rendered options base removals).result = .ok text →
      ∃ again, readBase text = .ok again ∧
        (policy.rendered options again removals).result = .ok text ∧
        ∀ other : Options, (policy.rendered other again removals).result =
          (policy.rendered other base removals).result := by
  constructor
  · intro ascends value written
    obtain ⟨first, members, rfl⟩ := toJson_eq_ok_iff.mp written
    refine ⟨first, rfl, fun other => ?_⟩
    obtain ⟨listed, lists⟩ := exists_baseLists members
    have again := toMembers_of_baseLists other policy removals lists
    refine ⟨_, toJson_eq_ok_iff.mpr ⟨_, again, rfl⟩, toJson_eq_ok_iff.mpr ⟨_, ?_, rfl⟩⟩
    rw [toMembers_again ascends members other, again]
  · intro source text accepted noReal renders
    have rereadable := Json.rereadable_of_read noReal (read_of_readBase accepted)
    obtain ⟨_, ascends, _⟩ := Json.rereadable_obj.mp rereadable
    rw [result_rendered] at renders
    cases written : policy.toMembers options base removals with
    | error fault => simp [toJson, written, Except.map, Except.mapError] at renders
    | ok first =>
      have same (other : Options) : (policy.rendered other first removals).result =
          (policy.rendered other base removals).result := by
        simp only [result_rendered, toJson, toMembers_again ascends written other]
      have isText : (Json.obj first).canonical = text := by
        rw [toJson, written] at renders
        exact Except.ok.inj renders
      refine ⟨first, ?_, ?_, same⟩
      · rw [← isText]
        exact readBase_canonical (rereadable_toMembers rereadable written)
      · rw [same, result_rendered]
        exact renders

/-- A base with flags of its own, with removals that the policy repeats, and with keys that
are no policy's. -/
def crowdedBase : String :=
  "\x7b\"z\": [-1, \x7b\"b\": null, \"a\": \"\\u0041\"\x7d], \"comments\": 7, " ++
    "\"removeAttributes\": [\"onclick\", 18446744073709551615]\x7d"

/-- The members of that base. -/
def crowdedMembers : Members :=
  [("comments", .num (.int 7)),
   ("removeAttributes", .arr [.str "onclick", .num (.int 18446744073709551615)]),
   ("z", .arr [.num (.int (-1)), .obj [("a", .str "A"), ("b", .null)]])]

/-- A policy that removes `onclick`, which the base lists, and `onload`. -/
def crowded : Policy :=
  { elements := [⟨.within .html "p", [], []⟩, ⟨.within .svg "a", [.bare "id"], [.bare "class"]⟩]
    removed := [.bare "onload", .bare "onclick", .within .xlink "href"] }

theorem toJson_again_crowded :
    (∃ first second, crowded.toJson { compact := true } crowdedMembers none = .ok (.obj first) ∧
      crowded.toJson {} crowdedMembers none = .ok second ∧
      crowded.toJson {} first none = .ok second) ∧
    ∃ text again, (crowded.rendered {} crowdedMembers none).result = .ok text ∧
      readBase text = .ok again ∧ (crowded.rendered {} again none).result = .ok text := by
  have accepted : readBase crowdedBase = .ok crowdedMembers := by decide +kernel
  have noReal : ∀ token ∈ Json.tokens crowdedBase.toList, token.isReal = false := by
    decide +kernel
  have ascends : KeysAscend crowdedMembers := by simp [crowdedMembers, KeysAscend]; decide
  have written : ∃ value, crowded.toJson { compact := true } crowdedMembers none = .ok value :=
    ⟨_, rfl⟩
  have renders : ∃ text, (crowded.rendered {} crowdedMembers none).result = .ok text := ⟨_, rfl⟩
  obtain ⟨value, written⟩ := written
  obtain ⟨text, renders⟩ := renders
  obtain ⟨values, _⟩ := toJson_again crowded { compact := true } crowdedMembers none
  obtain ⟨_, texts⟩ := toJson_again crowded {} crowdedMembers none
  obtain ⟨first, rfl, again⟩ := values ascends value written
  obtain ⟨second, below, above⟩ := again {}
  obtain ⟨again, read, rerenders, _⟩ := texts crowdedBase text accepted noReal renders
  exact ⟨⟨first, second, written, below, above⟩, text, again, renders, read, rerenders⟩

end Policy

end AllowList
