import AllowList.Proofs.Json.Members

/-!
# Values arranged

Two values agree when they are the same up to the order of members: an object is told by
the values that its keys have. Arranging puts the members of every object in the order
of their keys. So it gives a value that agrees with the first, and the same one for all
values that agree: `agrees_iff`. Neither the numbers of a value nor its depth change.

Where an object has each key once is said of the object alone, and `Each` says it of
every object in a value.
-/

namespace AllowList.Json

/-- What holds of scalars, and of each container if it holds of all that is in it, holds
of every value. -/
@[elab_as_elim]
theorem containers_induction {motive : Json → Prop} (ofNull : motive null)
    (ofBool : ∀ value, motive (bool value)) (ofNum : ∀ value, motive (num value))
    (ofStr : ∀ text, motive (str text))
    (ofArr : ∀ items, (∀ item ∈ items, motive item) → motive (arr items))
    (ofObj : ∀ members : Members, (∀ member ∈ members, motive member.2) → motive (obj members))
    (value : Json) : motive value := by
  cases value with
  | null => exact ofNull
  | bool value => exact ofBool value
  | num value => exact ofNum value
  | str text => exact ofStr text
  | arr items =>
    exact ofArr items fun item _ => containers_induction ofNull ofBool ofNum ofStr ofArr ofObj item
  | obj members =>
    exact ofObj members fun member _ =>
      containers_induction ofNull ofBool ofNum ofStr ofArr ofObj member.2
termination_by sizeOf value
decreasing_by
  -- an item is smaller than its list, a value than its member and that than its list
  · have smaller := List.sizeOf_lt_of_mem ‹item ∈ items›
    simp only [arr.sizeOf_spec]
    omega
  · have smaller := List.sizeOf_lt_of_mem ‹member ∈ members›
    obtain ⟨key, inner⟩ := member
    simp only [Prod.mk.sizeOf_spec] at smaller
    simp only [obj.sizeOf_spec]
    omega

mutual

/-- A property holds of a value and of every value inside it. -/
def Each (holds : Json → Prop) : Json → Prop
  | arr items => holds (arr items) ∧ EachItem holds items
  | obj members => holds (obj members) ∧ EachMember holds members
  | value => holds value

/-- A property holds everywhere in a list of values. -/
def EachItem (holds : Json → Prop) : List Json → Prop
  | [] => True
  | item :: items => item.Each holds ∧ EachItem holds items

/-- A property holds everywhere in the values of members. -/
def EachMember (holds : Json → Prop) : Members → Prop
  | [] => True
  | (_, value) :: rest => value.Each holds ∧ EachMember holds rest

end

/-- If a value is an object, then it has no key twice. -/
def KeysOnce (value : Json) : Prop :=
  ∀ members, value = obj members → (members.map Prod.fst).Nodup

mutual

/-- How many containers stand in each other in a value. -/
def depth : Json → Nat
  | arr items => itemsDepth items + 1
  | obj members => membersDepth members + 1
  | _ => 0

/-- How many containers stand in each other in some item. -/
def itemsDepth : List Json → Nat
  | [] => 0
  | item :: items => max item.depth (itemsDepth items)

/-- How many containers stand in each other in some member's value. -/
def membersDepth : Members → Nat
  | [] => 0
  | (_, value) :: rest => max value.depth (membersDepth rest)

end

mutual

/-- Two values are the same up to the order of members: objects have the same keys, and
the values of a key agree. -/
def Agrees : Json → Json → Prop
  | null, null => True
  | bool left, bool right => left = right
  | num left, num right => left = right
  | str left, str right => left = right
  | arr left, arr right => ItemsAgree left right
  | obj left, obj right =>
    MembersAgree left right ∧ ∀ key, get? key left = none → get? key right = none
  | _, _ => False

/-- Two lists have items that agree, one by one. -/
def ItemsAgree : List Json → List Json → Prop
  | [], [] => True
  | left :: lefts, right :: rights => Agrees left right ∧ ItemsAgree lefts rights
  | _, _ => False

/-- The key of each member has a value among others that agrees with the member's. -/
def MembersAgree : Members → Members → Prop
  | [], _ => True
  | (key, value) :: rest, others =>
    (∃ other, get? key others = some other ∧ Agrees value other) ∧ MembersAgree rest others

end

section Lists

variable {holds : Json → Prop} {items : List Json} {members : Members}

theorem eachItem_iff : EachItem holds items ↔ ∀ item ∈ items, item.Each holds := by
  induction items with
  | nil => simp [EachItem]
  | cons item more ih => rw [EachItem, ih, List.forall_mem_cons]

theorem eachMember_iff : EachMember holds members ↔ ∀ member ∈ members, member.2.Each holds := by
  induction members with
  | nil => simp [EachMember]
  | cons member more ih => rw [EachMember, ih, List.forall_mem_cons]

theorem itemsDepth_le_iff {limit : Nat} :
    itemsDepth items ≤ limit ↔ ∀ item ∈ items, item.depth ≤ limit := by
  induction items with
  | nil => simp [itemsDepth]
  | cons item more ih => rw [itemsDepth, Nat.max_le, ih, List.forall_mem_cons]

theorem membersDepth_le_iff {limit : Nat} :
    membersDepth members ≤ limit ↔ ∀ member ∈ members, member.2.depth ≤ limit := by
  induction members with
  | nil => simp [membersDepth]
  | cons member more ih => rw [membersDepth, Nat.max_le, ih, List.forall_mem_cons]

theorem allArranged_iff : AllArranged items ↔ ∀ item ∈ items, item.IsArranged := by
  induction items with
  | nil => simp [AllArranged]
  | cons item more ih => rw [AllArranged, ih, List.forall_mem_cons]

theorem membersArranged_iff :
    MembersArranged members ↔ ∀ member ∈ members, member.2.IsArranged := by
  induction members with
  | nil => simp [MembersArranged]
  | cons member more ih => rw [MembersArranged, ih, List.forall_mem_cons]

theorem membersAgree_iff {others : Members} :
    MembersAgree members others ↔
      ∀ member ∈ members, ∃ other, get? member.1 others = some other ∧
        Agrees member.2 other := by
  induction members with
  | nil => simp [MembersAgree]
  | cons member more ih => rw [MembersAgree, ih, List.forall_mem_cons]

end Lists

/-- A member with its value arranged. -/
def arrangedMember (member : String × Json) : String × Json :=
  (member.1, member.2.arranged)

/-- An array is arranged item by item. -/
theorem arranged_arr (items : List Json) : (arr items).arranged = arr (items.map arranged) := by
  have each : arrangedItems items = items.map arranged := by
    induction items with
    | nil => rfl
    | cons item more ih => rw [arrangedItems, ih, List.map_cons]
  rw [arranged, each]

/-- An object is arranged by putting its members, arranged, one after another. -/
theorem arranged_obj (members : Members) :
    (obj members).arranged = obj (putAll [] (members.map arrangedMember)) := by
  have each (done : Members) :
      arrangedInto done members = putAll done (members.map arrangedMember) := by
    induction members generalizing done with
    | nil => rfl
    | cons member more ih =>
      rw [arrangedInto, ih]
      rfl
  rw [arranged, each]

/-- The members of an arranged object are the object's own, arranged. -/
theorem exists_of_mem_arranged {members : Members} {member : String × Json}
    (present : member ∈ putAll [] (members.map arrangedMember)) :
    ∃ own ∈ members, arrangedMember own = member := by
  rcases mem_of_mem_putAll present with none | added
  · cases none
  · exact List.mem_map.mp added

/-- Arranging arranges. -/
theorem isArranged_arranged (value : Json) : value.arranged.IsArranged := by
  induction value using containers_induction with
  | ofNull | ofBool | ofNum | ofStr => trivial
  | ofArr items ih =>
    rw [arranged_arr]
    refine allArranged_iff.mpr fun item present => ?_
    obtain ⟨own, inside, rfl⟩ := List.mem_map.mp present
    exact ih own inside
  | ofObj members ih =>
    rw [arranged_obj]
    refine ⟨keysAscend_putAll _ trivial, membersArranged_iff.mpr fun member present => ?_⟩
    obtain ⟨own, inside, rfl⟩ := exists_of_mem_arranged present
    exact ih own inside

/-- What holds of all containers and everywhere in a value holds everywhere in the value
arranged. -/
theorem each_arranged {holds : Json → Prop} (ofArr : ∀ items, holds (arr items))
    (ofObj : ∀ members, holds (obj members)) {value : Json} (each : value.Each holds) :
    value.arranged.Each holds := by
  induction value using containers_induction with
  | ofNull | ofBool | ofNum | ofStr => exact each
  | ofArr items ih =>
    rw [arranged_arr]
    refine ⟨ofArr _, eachItem_iff.mpr fun item present => ?_⟩
    obtain ⟨own, inside, rfl⟩ := List.mem_map.mp present
    exact ih own inside (eachItem_iff.mp each.2 own inside)
  | ofObj members ih =>
    rw [arranged_obj]
    refine ⟨ofObj _, eachMember_iff.mpr fun member present => ?_⟩
    obtain ⟨own, inside, rfl⟩ := exists_of_mem_arranged present
    exact ih own inside (eachMember_iff.mp each.2 own inside)

/-- Arranging makes nothing deeper. -/
theorem depth_arranged_le (value : Json) : value.arranged.depth ≤ value.depth := by
  induction value using containers_induction with
  | ofNull | ofBool | ofNum | ofStr => exact Nat.le_refl 0
  | ofArr items ih =>
    rw [arranged_arr]
    refine Nat.succ_le_succ (itemsDepth_le_iff.mpr fun item present => ?_)
    obtain ⟨own, inside, rfl⟩ := List.mem_map.mp present
    exact Nat.le_trans (ih own inside) (itemsDepth_le_iff.mp (Nat.le_refl _) own inside)
  | ofObj members ih =>
    rw [arranged_obj]
    refine Nat.succ_le_succ (membersDepth_le_iff.mpr fun member present => ?_)
    obtain ⟨own, inside, rfl⟩ := exists_of_mem_arranged present
    exact Nat.le_trans (ih own inside) (membersDepth_le_iff.mp (Nat.le_refl _) own inside)

/-- An arranged value stays as it is. -/
theorem arranged_of_isArranged {value : Json} (isArranged : value.IsArranged) :
    value.arranged = value := by
  induction value using containers_induction with
  | ofNull | ofBool | ofNum | ofStr => rfl
  | ofArr items ih =>
    have own := allArranged_iff.mp isArranged
    have same : items.map arranged = items.map id :=
      List.map_congr_left fun item present => ih item present (own item present)
    rw [arranged_arr, same, List.map_id]
  | ofObj members ih =>
    obtain ⟨ascends, membersArranged⟩ := isArranged
    have own := membersArranged_iff.mp membersArranged
    have same : members.map arrangedMember = members.map id :=
      List.map_congr_left fun member present =>
        Prod.ext rfl (ih member present (own member present))
    rw [arranged_obj, same, List.map_id, putAll_nil ascends]

/-- In an arranged object a key has the value that it had, arranged. -/
theorem get?_arranged {members : Members} (once : (members.map Prod.fst).Nodup) (key : String) :
    get? key (putAll [] (members.map arrangedMember)) = (get? key members).map arranged := by
  have keys : (members.map arrangedMember).map Prod.fst = members.map Prod.fst := by
    rw [List.map_map]
    rfl
  cases found : get? key members with
  | none =>
    refine get?_putAll_of_forall_ne _ [] fun member present same => ?_
    obtain ⟨own, inside, rfl⟩ := List.mem_map.mp present
    exact get?_eq_none_iff.mp found own inside same.symm
  | some value =>
    have inside : (key, value.arranged) ∈ members.map arrangedMember :=
      List.mem_map.mpr ⟨(key, value), mem_of_get? found, rfl⟩
    exact get?_putAll_of_mem [] (keys ▸ once) inside

/-- Items that are told by being arranged make lists that are. -/
theorem itemsAgree_iff {lefts rights : List Json} (leftsOnce : ∀ item ∈ lefts, item.Each KeysOnce)
    (rightsOnce : ∀ item ∈ rights, item.Each KeysOnce)
    (ih : ∀ left ∈ lefts, ∀ right : Json, left.Each KeysOnce → right.Each KeysOnce →
      (Agrees left right ↔ left.arranged = right.arranged)) :
    ItemsAgree lefts rights ↔ lefts.map arranged = rights.map arranged := by
  induction lefts generalizing rights with
  | nil => cases rights <;> simp [ItemsAgree]
  | cons left lefts later =>
    cases rights with
    | nil => simp [ItemsAgree]
    | cons right rights =>
      obtain ⟨leftOnce, leftsOnce⟩ := List.forall_mem_cons.mp leftsOnce
      obtain ⟨rightOnce, rightsOnce⟩ := List.forall_mem_cons.mp rightsOnce
      obtain ⟨own, others⟩ := List.forall_mem_cons.mp ih
      rw [ItemsAgree, own right leftOnce rightOnce, later leftsOnce rightsOnce others,
        List.map_cons, List.map_cons, List.cons.injEq]

/-- Members whose values are told by being arranged make objects that are. -/
theorem agrees_obj_iff {left right : Members} (leftOnce : (obj left).Each KeysOnce)
    (rightOnce : (obj right).Each KeysOnce)
    (ih : ∀ member ∈ left, ∀ other : Json, member.2.Each KeysOnce → other.Each KeysOnce →
      (Agrees member.2 other ↔ member.2.arranged = other.arranged)) :
    Agrees (obj left) (obj right) ↔ (obj left).arranged = (obj right).arranged := by
  have leftKeys := leftOnce.1 left rfl
  have rightKeys := rightOnce.1 right rfl
  have leftEach := eachMember_iff.mp leftOnce.2
  have rightEach := eachMember_iff.mp rightOnce.2
  rw [Agrees, membersAgree_iff, arranged_obj, arranged_obj, obj.injEq]
  constructor
  · rintro ⟨agree, absent⟩
    -- both arranged lists ascend, so it is enough to look up every key in them
    refine eq_of_get? (keysAscend_putAll _ trivial) (keysAscend_putAll _ trivial) fun key => ?_
    rw [get?_arranged leftKeys, get?_arranged rightKeys]
    cases found : get? key left with
    | none => rw [absent key found]
    | some value =>
      have present := mem_of_get? found
      obtain ⟨other, otherFound, same⟩ := agree (key, value) present
      have otherPresent := mem_of_get? otherFound
      have arrangedSame := (ih (key, value) present other (leftEach _ present)
        (rightEach _ otherPresent)).mp same
      rw [otherFound, Option.map_some, Option.map_some, arrangedSame]
  · intro same
    have lookups (key : String) :
        (get? key left).map arranged = (get? key right).map arranged := by
      rw [← get?_arranged leftKeys, ← get?_arranged rightKeys, same]
    constructor
    · intro member present
      have found := lookups member.1
      rw [get?_of_mem leftKeys present, Option.map_some] at found
      obtain ⟨other, otherFound, arrangedSame⟩ := Option.map_eq_some_iff.mp found.symm
      exact ⟨other, otherFound, (ih member present other (leftEach member present)
        (rightEach _ (mem_of_get? otherFound))).mpr arrangedSame.symm⟩
    · intro key absent
      have found := lookups key
      rw [absent, Option.map_none] at found
      exact Option.map_eq_none_iff.mp found.symm

/-- Values agree exactly when they are the same arranged. -/
theorem agrees_iff {left right : Json} (leftOnce : left.Each KeysOnce)
    (rightOnce : right.Each KeysOnce) :
    Agrees left right ↔ left.arranged = right.arranged := by
  induction left using containers_induction generalizing right with
  | ofNull => cases right <;> simp [Agrees, arranged]
  | ofBool value => cases right <;> simp [Agrees, arranged]
  | ofNum value => cases right <;> simp [Agrees, arranged]
  | ofStr text => cases right <;> simp [Agrees, arranged]
  | ofArr items ih =>
    cases right with
    | arr others =>
      rw [Agrees, arranged_arr, arranged_arr, arr.injEq]
      exact itemsAgree_iff (eachItem_iff.mp leftOnce.2) (eachItem_iff.mp rightOnce.2)
        fun item present other => ih item present
    | _ => simp [Agrees, arranged]
  | ofObj members ih =>
    cases right with
    | obj others =>
      exact agrees_obj_iff leftOnce rightOnce fun member present other => ih member present
    | _ => simp [Agrees, arranged]

end AllowList.Json
