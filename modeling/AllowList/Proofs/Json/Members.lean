import AllowList.Json.Value
import AllowList.Proofs.Order
import Mathlib.Data.List.Nodup

/-!
# Members of an object

Members are told by looking keys up: `put` changes what its own key has and
nothing else, and `erase` takes away its own key and nothing else. So different
keys may be put in either order, whether members are in order or not: `put_comm`.
Both keep keys in ascending order, and in ascending order no key stands twice. So
members in ascending order of their keys are told by their lookups alone:
`eq_of_get?`.
-/

namespace AllowList.Json

/-- Putting a key answers to that key alone. No order of the members is assumed:
the walk ends at the first key that does not stand in front, and none of those
passed is the key itself. -/
theorem get?_put (key other : String) (value : Json) (members : Members) :
    get? other (put key value members) =
      if other = key then some value else get? other members := by
  induction members with
  | nil => simp [put, get?, eq_comm]
  | cons member rest ih =>
    obtain ⟨first, old⟩ := member
    cases place : Text.order key first with
    | lt =>
      simp only [put, place, get?]
      by_cases own : other = key
      · simp [own]
      · simp [own, Ne.symm own]
    | eq =>
      have same : key = first := Text.order_eq_iff.mp place
      subst first
      simp only [put, place, get?]
      by_cases own : other = key
      · simp [own]
      · simp [own, Ne.symm own]
    | gt =>
      have passed : first ≠ key := by
        rintro rfl
        rw [Text.order_eq_iff.mpr rfl] at place
        cases place
      simp only [put, place, get?, ih]
      by_cases own : other = key
      · simp [own, passed]
      · simp [own]

/-- Putting several keys leaves the others as they are. -/
theorem get?_putAll_of_forall_ne {key : String} (added members : Members)
    (absent : ∀ member ∈ added, key ≠ member.1) :
    get? key (putAll members added) = get? key members := by
  induction added generalizing members with
  | nil => rfl
  | cons first rest ih =>
    have later : ∀ member ∈ rest, key ≠ member.1 :=
      fun member present => absent member (List.mem_cons_of_mem first present)
    have step : get? key (putAll members (first :: rest)) =
        get? key (putAll (put first.1 first.2 members) rest) := rfl
    rw [step, ih _ later, get?_put, if_neg (absent first List.mem_cons_self)]

/-- Putting several keys, none of them twice, gives each its value. -/
theorem get?_putAll_of_mem {key : String} {value : Json} {added : Members} (members : Members)
    (once : (added.map Prod.fst).Nodup) (present : (key, value) ∈ added) :
    get? key (putAll members added) = some value := by
  induction added generalizing members with
  | nil => cases present
  | cons first rest ih =>
    rw [List.map_cons, List.nodup_cons] at once
    have step : get? key (putAll members (first :: rest)) =
        get? key (putAll (put first.1 first.2 members) rest) := rfl
    rw [step]
    rcases List.mem_cons.mp present with rfl | later
    · have absent : ∀ member ∈ rest, key ≠ member.1 := by
        rintro member behind rfl
        exact once.1 (List.mem_map.mpr ⟨member, behind, rfl⟩)
      rw [get?_putAll_of_forall_ne rest _ absent, get?_put, if_pos rfl]
    · exact ih _ once.2 later

/-- Several keys are given one value. -/
theorem get?_putAll_map (key : String) (value : Json) (keys : List String) (members : Members) :
    get? key (putAll members (keys.map fun key => (key, value))) =
      if key ∈ keys then some value else get? key members := by
  induction keys generalizing members with
  | nil => simp [putAll]
  | cons first rest ih =>
    have step : putAll members ((first :: rest).map fun key => (key, value)) =
        putAll (put first value members) (rest.map fun key => (key, value)) := rfl
    rw [step, ih, get?_put]
    by_cases own : key = first <;> simp [own]

/-- A key that is put again has what it was given last. -/
theorem put_put (key : String) (old value : Json) (members : Members) :
    put key value (put key old members) = put key value members := by
  have own : Text.order key key = .eq := Text.order_eq_iff.mpr rfl
  induction members with
  | nil => simp only [put, own]
  | cons first rest ih =>
    obtain ⟨other, held⟩ := first
    cases place : Text.order key other <;> simp only [put, place, own, ih]

/-- Two keys may be put in the reverse of their order. No order of the members is assumed: both
walks pass the members in front of the first key, and the second key is put behind it. -/
theorem put_comm_of_lt {key other : String} (inFront : Text.order key other = .lt)
    (value second : Json) (members : Members) :
    put key value (put other second members) = put other second (put key value members) := by
  have behind : Text.order other key = .gt := Std.OrientedCmp.gt_of_lt inFront
  induction members with
  | nil => simp only [put, inFront, behind]
  | cons first rest ih =>
    obtain ⟨next, held⟩ := first
    cases place : Text.order key next with
    | lt => cases beyond : Text.order other next <;> simp only [put, place, beyond, inFront, behind]
    | eq =>
      have same : key = next := Text.order_eq_iff.mp place
      subst next
      simp only [put, place, behind]
    | gt =>
      have passed : Text.order next other = .lt :=
        Std.TransCmp.lt_trans (Std.OrientedCmp.lt_of_gt place) inFront
      have beyond : Text.order other next = .gt := Std.OrientedCmp.gt_of_lt passed
      simp only [put, place, beyond, ih]

/-- Different keys may be put in either order. -/
theorem put_comm {key other : String} (apart : key ≠ other) (value second : Json)
    (members : Members) :
    put key value (put other second members) = put other second (put key value members) := by
  cases order : Text.order key other with
  | lt => exact put_comm_of_lt order value second members
  | eq => exact absurd (Text.order_eq_iff.mp order) apart
  | gt => exact (put_comm_of_lt (Std.OrientedCmp.lt_of_gt order) second value members).symm

theorem erase_cons (key first : String) (value : Json) (rest : Members) :
    erase key ((first, value) :: rest) =
      if first = key then erase key rest else (first, value) :: erase key rest := by
  by_cases gone : first = key <;> simp [erase, gone]

/-- Erasing a key answers to that key alone. -/
theorem get?_erase (key other : String) (members : Members) :
    get? other (erase key members) = if other = key then none else get? other members := by
  induction members with
  | nil => simp [erase, get?]
  | cons member rest ih =>
    obtain ⟨first, value⟩ := member
    rw [erase_cons]
    by_cases gone : first = key
    · rw [if_pos gone, ih, get?]
      by_cases own : other = key
      · rw [if_pos own, if_pos own]
      · have passed : first ≠ other := fun same => own (same.symm.trans gone)
        rw [if_neg own, if_neg own, if_neg passed]
    · rw [if_neg gone, get?, get?, ih]
      by_cases own : other = key
      · subst other
        simp [gone]
      · simp [own]

/-- A key is looked up in vain exactly when it is nobody's. -/
theorem get?_eq_none_iff {key : String} {members : Members} :
    get? key members = none ↔ ∀ member ∈ members, member.1 ≠ key := by
  induction members with
  | nil => simp [get?]
  | cons member rest ih =>
    obtain ⟨first, value⟩ := member
    by_cases own : first = key <;> simp [get?, own, ih]

/-- A key is some member's exactly when it is looked up with success. -/
theorem mem_keys_iff {key : String} {members : Members} :
    key ∈ members.map Prod.fst ↔ (get? key members).isSome = true := by
  rw [Option.isSome_iff_ne_none, ne_eq, get?_eq_none_iff, List.mem_map]
  push Not
  rfl

/-- A key that is no member's is looked up in vain. -/
theorem get?_eq_none_of_not_mem {key : String} {members : Members}
    (absent : key ∉ members.map Prod.fst) : get? key members = none := by
  rwa [mem_keys_iff, Option.not_isSome_iff_eq_none] at absent

/-- What a put leaves among the members is the new member or an old one. -/
theorem mem_of_mem_put {key : String} {value : Json} {members : Members} {member : String × Json}
    (present : member ∈ put key value members) : member = (key, value) ∨ member ∈ members := by
  induction members with
  | nil => exact Or.inl (List.mem_singleton.mp present)
  | cons first rest ih =>
    obtain ⟨other, old⟩ := first
    cases place : Text.order key other with
    | lt =>
      simp only [put, place] at present
      exact List.mem_cons.mp present
    | eq =>
      simp only [put, place] at present
      exact (List.mem_cons.mp present).imp_right (List.mem_cons_of_mem _)
    | gt =>
      simp only [put, place] at present
      rcases List.mem_cons.mp present with same | later
      · exact Or.inr (same ▸ List.mem_cons_self)
      · exact (ih later).imp_right (List.mem_cons_of_mem _)

/-- What is there after putting several members is one of them or was there before. -/
theorem mem_of_mem_putAll {done added : Members} {member : String × Json}
    (present : member ∈ putAll done added) : member ∈ done ∨ member ∈ added := by
  induction added generalizing done with
  | nil => exact Or.inl present
  | cons first rest ih =>
    rcases ih present with before | behind
    · rcases mem_of_mem_put before with same | old
      · exact Or.inr (same ▸ List.mem_cons_self)
      · exact Or.inl old
    · exact Or.inr (List.mem_cons_of_mem first behind)

/-- Putting a key keeps the keys in ascending order. -/
theorem keysAscend_put (key : String) (value : Json) {members : Members}
    (ascends : KeysAscend members) : KeysAscend (put key value members) := by
  induction members with
  | nil => exact ⟨fun _ none => absurd none List.not_mem_nil, trivial⟩
  | cons first rest ih =>
    obtain ⟨other, old⟩ := first
    obtain ⟨inFront, restAscends⟩ := ascends
    cases place : Text.order key other with
    | lt =>
      simp only [put, place]
      refine ⟨?_, inFront, restAscends⟩
      intro member present
      rcases List.mem_cons.mp present with rfl | later
      · exact place
      · exact Std.TransCmp.lt_trans place (inFront member later)
    | eq =>
      have same : key = other := Text.order_eq_iff.mp place
      subst other
      simp only [put, place]
      exact ⟨inFront, restAscends⟩
    | gt =>
      simp only [put, place]
      refine ⟨?_, ih restAscends⟩
      intro member present
      rcases mem_of_mem_put present with rfl | old
      · exact Std.OrientedCmp.lt_of_gt place
      · exact inFront member old

/-- Putting several keys keeps the keys in ascending order. -/
theorem keysAscend_putAll {members : Members} (added : Members) (ascends : KeysAscend members) :
    KeysAscend (putAll members added) := by
  induction added generalizing members with
  | nil => exact ascends
  | cons first rest ih => exact ih (keysAscend_put first.1 first.2 ascends)

/-- Erasing a key keeps the keys in ascending order. -/
theorem keysAscend_erase (key : String) {members : Members} (ascends : KeysAscend members) :
    KeysAscend (erase key members) := by
  induction members with
  | nil => exact trivial
  | cons first rest ih =>
    obtain ⟨other, value⟩ := first
    obtain ⟨inFront, restAscends⟩ := ascends
    have tail : KeysAscend (erase key rest) := ih restAscends
    rw [erase_cons]
    split
    · exact tail
    · exact ⟨fun member present => inFront member (List.mem_filter.mp present).1, tail⟩

/-- A key that stands behind all others is put at the end. -/
theorem put_last {key : String} {value : Json} {members : Members}
    (behind : ∀ member ∈ members, Text.order member.1 key = .lt) :
    put key value members = members ++ [(key, value)] := by
  induction members with
  | nil => rfl
  | cons first rest ih =>
    obtain ⟨own, others⟩ := List.forall_mem_cons.mp behind
    have above : Text.order key first.1 = .gt := Std.OrientedCmp.gt_of_lt own
    rw [put, above]
    exact congrArg (first :: ·) (ih others)

/-- Members whose keys ascend are put one behind the other. -/
theorem putAll_of_keysAscend {members : Members} (ascends : KeysAscend members) {done : Members}
    (behind : ∀ earlier ∈ done, ∀ member ∈ members, Text.order earlier.1 member.1 = .lt) :
    putAll done members = done ++ members := by
  induction members generalizing done with
  | nil => exact (List.append_nil done).symm
  | cons first rest ih =>
    obtain ⟨inFront, restAscends⟩ := ascends
    have last : put first.1 first.2 done = done ++ [first] :=
      put_last fun earlier present => behind earlier present first List.mem_cons_self
    have step : putAll done (first :: rest) = putAll (done ++ [first]) rest := by
      rw [← last]
      rfl
    rw [step, ih restAscends, List.append_assoc]
    · rfl
    · intro earlier present member later
      rcases List.mem_append.mp present with old | same
      · exact behind earlier old member (List.mem_cons_of_mem first later)
      · rw [List.mem_singleton.mp same]
        exact inFront member later

/-- Members whose keys ascend are what putting them makes of nothing. -/
theorem putAll_nil {members : Members} (ascends : KeysAscend members) :
    putAll [] members = members :=
  putAll_of_keysAscend ascends fun _ none => absurd none List.not_mem_nil

/-- A key that is looked up is a member's. -/
theorem mem_of_get? {key : String} {value : Json} {members : Members}
    (found : get? key members = some value) : (key, value) ∈ members := by
  induction members with
  | nil => cases found
  | cons first rest ih =>
    obtain ⟨other, old⟩ := first
    rw [get?] at found
    split at found
    case isTrue same =>
      cases found
      rw [same]
      exact List.mem_cons_self
    case isFalse => exact List.mem_cons_of_mem _ (ih found)

/-- A member is found by its key, if no key stands twice. -/
theorem get?_of_mem {member : String × Json} {members : Members}
    (once : (members.map Prod.fst).Nodup) (present : member ∈ members) :
    get? member.1 members = some member.2 := by
  induction members with
  | nil => cases present
  | cons first rest ih =>
    obtain ⟨absent, restOnce⟩ := List.nodup_cons.mp once
    rcases List.mem_cons.mp present with rfl | later
    · exact if_pos rfl
    · have differs : ¬first.1 = member.1 := by
        intro same
        exact absent (same ▸ List.mem_map_of_mem later)
      rw [get?, if_neg differs]
      exact ih restOnce later

/-- Ascending keys ascend from any member to any later one. -/
theorem pairwise_of_keysAscend {members : Members} (ascends : KeysAscend members) :
    members.Pairwise fun left right => Text.order left.1 right.1 = .lt := by
  induction members with
  | nil => exact List.Pairwise.nil
  | cons first rest ih => exact List.Pairwise.cons ascends.1 (ih ascends.2)

/-- Ascending keys do not stand twice. -/
theorem nodup_of_keysAscend {members : Members} (ascends : KeysAscend members) :
    (members.map Prod.fst).Nodup := by
  refine List.pairwise_map.mpr ((pairwise_of_keysAscend ascends).imp ?_)
  intro left right inFront same
  rw [same, Text.order_eq_iff.mpr rfl] at inFront
  cases inFront

/-- Members in ascending order of their keys are told by looking keys up. -/
theorem eq_of_get? {left right : Members} (leftAscends : KeysAscend left)
    (rightAscends : KeysAscend right) (same : ∀ key, get? key left = get? key right) :
    left = right := by
  have leftOnce := nodup_of_keysAscend leftAscends
  have rightOnce := nodup_of_keysAscend rightAscends
  have perm : left.Perm right := by
    refine (List.perm_ext_iff_of_nodup (.of_map _ leftOnce) (.of_map _ rightOnce)).mpr ?_
    intro member
    constructor
    · intro present
      exact mem_of_get? ((same member.1).symm.trans (get?_of_mem leftOnce present))
    · intro present
      exact mem_of_get? ((same member.1).trans (get?_of_mem rightOnce present))
  refine perm.eq_of_pairwise ?_ (pairwise_of_keysAscend leftAscends)
    (pairwise_of_keysAscend rightAscends)
  intro first second _ _ inFront behind
  have above : Text.order first.1 second.1 = .gt := Std.OrientedCmp.gt_of_lt behind
  rw [inFront] at above
  cases above

end AllowList.Json
