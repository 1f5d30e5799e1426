import AllowList.Json.Reader
import AllowList.Proofs.Json.Layout

/-!
# Canonical text read again

A reader that goes through the tokens of an arranged value comes to that value, whatever
containers are open around it, as long as there is room for the value's own. So the
canonical text of a value is read as the value arranged: nothing is lost but the order of
members, and the text of what was read is the same text.
-/

namespace AllowList.Json

namespace Stage

/-- A token that may come next is read, and the others after it. -/
theorem run_cons {stage next : Stage} {token : Token} (step : stage.step token = .ok next)
    (rest : List Token) : run stage (token :: rest) = run next rest := by
  rw [run, step]

end Stage

open Stage (run run_cons)

/-- A value begins with a token that ends no array. -/
theorem exists_tokensOf (value : Json) :
    ∃ token more, tokensOf value = token :: more ∧ token ≠ .closeArray := by
  cases value with
  | null => exact ⟨_, _, rfl, nofun⟩
  | bool value => exact ⟨_, _, rfl, nofun⟩
  | num value => exact ⟨_, _, rfl, nofun⟩
  | str text => exact ⟨_, _, rfl, nofun⟩
  | arr items => cases items <;> exact ⟨_, _, rfl, nofun⟩
  | obj members => cases members <;> exact ⟨_, _, rfl, nofun⟩

/-- The first item of an array is read like any other. -/
theorem run_firstItem (value : Json) (frames : List Frame) (rest : List Token) :
    run (.firstItem frames) (tokensOf value ++ rest) =
      run (.value (.array [] :: frames)) (tokensOf value ++ rest) := by
  obtain ⟨token, more, split, opens⟩ := exists_tokensOf value
  have same : Stage.step (.firstItem frames) token =
      Stage.step (.value (.array [] :: frames)) token := by
    cases token <;> first | rfl | exact absurd rfl opens
  rw [split, List.cons_append, run, run, same]

/-- Whatever containers are open, the tokens of a value are read as the value, if there is
room for the containers in it. -/
def Reads (value : Json) : Prop :=
  ∀ (frames : List Frame) (rest : List Token), frames.length + value.depth ≤ depthLimit →
    run (.value frames) (tokensOf value ++ rest) = run (.after value frames) rest

/-- Items that are read one by one are read behind others into one array. -/
theorem run_itemTokens {items : List Json} (reads : ∀ item ∈ items, item.Reads)
    {frames : List Frame} (room : ∀ item ∈ items, frames.length + 1 + item.depth ≤ depthLimit)
    (done : List Json) (value : Json) (rest : List Token) :
    run (.after value (.array done :: frames)) (itemTokens items ++ rest) =
      run (.after (.arr ((value :: done).reverse ++ items)) frames) rest := by
  -- a value is finished before it is among the items, so both change at each comma
  induction items generalizing done value with
  | nil =>
    rw [itemTokens, List.append_nil]
    exact run_cons rfl rest
  | cons item more ih =>
    obtain ⟨own, others⟩ := List.forall_mem_cons.mp reads
    obtain ⟨ownRoom, otherRoom⟩ := List.forall_mem_cons.mp room
    have first := own (.array (value :: done) :: frames) (itemTokens more ++ rest) ownRoom
    rw [itemTokens, List.cons_append, List.append_assoc, run_cons rfl, first,
      ih others otherRoom, List.reverse_cons (a := item), List.append_assoc,
      List.singleton_append]

/-- Members that are read one by one are put behind others into one object. -/
theorem run_memberTokens {members : Members} (reads : ∀ member ∈ members, member.2.Reads)
    {frames : List Frame}
    (room : ∀ member ∈ members, frames.length + 1 + member.2.depth ≤ depthLimit)
    (done : Members) (key : String) (value : Json) (rest : List Token) :
    run (.after value (.object done key :: frames)) (memberTokens members ++ rest) =
      run (.after (.obj (putAll (put key value done) members)) frames) rest := by
  induction members generalizing done key value with
  | nil =>
    rw [memberTokens]
    exact run_cons rfl rest
  | cons member more ih =>
    obtain ⟨next, nextValue⟩ := member
    obtain ⟨own, others⟩ := List.forall_mem_cons.mp reads
    obtain ⟨ownRoom, otherRoom⟩ := List.forall_mem_cons.mp room
    have first := own (.object (put key value done) next :: frames)
      (memberTokens more ++ rest) ownRoom
    rw [memberTokens, List.cons_append, List.cons_append, List.cons_append, List.append_assoc,
      run_cons rfl, run_cons rfl, run_cons rfl, first, ih others otherRoom]
    rfl

/-- An array is read if its items are. -/
theorem reads_arr {items : List Json} (reads : ∀ item ∈ items, item.Reads) :
    (arr items).Reads := by
  intro frames rest room
  have inside : frames.length < depthLimit := by
    simp only [depth] at room
    omega
  have opens : Stage.step (.value frames) .openArray = .ok (.firstItem frames) := if_pos inside
  have itemRoom : ∀ item ∈ items, frames.length + 1 + item.depth ≤ depthLimit := by
    intro item present
    have bound := itemsDepth_le_iff.mp (Nat.le_refl _) item present
    simp only [depth] at room
    omega
  cases items with
  | nil =>
    rw [tokensOf, List.cons_append, run_cons opens, List.cons_append]
    exact run_cons rfl rest
  | cons item more =>
    obtain ⟨own, others⟩ := List.forall_mem_cons.mp reads
    obtain ⟨ownRoom, otherRoom⟩ := List.forall_mem_cons.mp itemRoom
    have first := own (.array [] :: frames) (itemTokens more ++ rest) ownRoom
    rw [tokensOf, List.cons_append, List.append_assoc, run_cons opens, run_firstItem, first,
      run_itemTokens others otherRoom]
    rfl

/-- An object whose keys ascend is read if its members' values are. -/
theorem reads_obj {members : Members} (ascends : KeysAscend members)
    (reads : ∀ member ∈ members, member.2.Reads) : (obj members).Reads := by
  intro frames rest room
  have inside : frames.length < depthLimit := by
    simp only [depth] at room
    omega
  have opens : Stage.step (.value frames) .openObject = .ok (.firstKey frames) := if_pos inside
  have memberRoom : ∀ member ∈ members, frames.length + 1 + member.2.depth ≤ depthLimit := by
    intro member present
    have bound := membersDepth_le_iff.mp (Nat.le_refl _) member present
    simp only [depth] at room
    omega
  cases members with
  | nil =>
    rw [tokensOf, List.cons_append, run_cons opens, List.cons_append]
    exact run_cons rfl rest
  | cons member more =>
    obtain ⟨key, value⟩ := member
    obtain ⟨own, others⟩ := List.forall_mem_cons.mp reads
    obtain ⟨ownRoom, otherRoom⟩ := List.forall_mem_cons.mp memberRoom
    have first := own (.object [] key :: frames) (memberTokens more ++ rest) ownRoom
    have whole : putAll (put key value []) more = (key, value) :: more := putAll_nil ascends
    rw [tokensOf, List.cons_append, List.cons_append, List.cons_append, List.append_assoc,
      run_cons opens, run_cons rfl, run_cons rfl, first, run_memberTokens others otherRoom, whole]

/-- Every arranged value is read from its tokens. -/
theorem reads_of_isArranged {value : Json} (isArranged : value.IsArranged) : value.Reads := by
  induction value using containers_induction with
  | ofNull | ofBool | ofNum | ofStr => exact fun _ rest _ => run_cons rfl rest
  | ofArr items ih =>
    have own := allArranged_iff.mp isArranged
    exact reads_arr fun item present => ih item present (own item present)
  | ofObj members ih =>
    obtain ⟨ascends, membersArranged⟩ := isArranged
    have own := membersArranged_iff.mp membersArranged
    exact reads_obj ascends fun member present => ih member present (own member present)

/-- An arranged value has no key twice in an object. -/
theorem keysOnce_of_isArranged {value : Json} (isArranged : value.IsArranged) :
    value.Each KeysOnce := by
  induction value using containers_induction with
  | ofNull | ofBool | ofNum | ofStr => exact nofun
  | ofArr items ih =>
    have own := allArranged_iff.mp isArranged
    exact ⟨nofun, eachItem_iff.mpr fun item present => ih item present (own item present)⟩
  | ofObj members ih =>
    obtain ⟨ascends, membersArranged⟩ := isArranged
    have own := membersArranged_iff.mp membersArranged
    refine ⟨?_, eachMember_iff.mpr fun member present => ih member present (own member present)⟩
    intro others same
    cases same
    exact nodup_of_keysAscend ascends

/-- The canonical text of a value is read as the value arranged. -/
theorem read_canonical {value : Json} (fits : value.Each Fits)
    (shallow : value.depth ≤ depthLimit) : read value.canonical = .ok value.arranged := by
  have arrangedFits : value.arranged.Each Fits :=
    each_arranged (fun _ => nofun) (fun _ => nofun) fits
  have reads := reads_of_isArranged (isArranged_arranged value)
  have room : ([] : List Frame).length + value.arranged.depth ≤ depthLimit := by
    have bound := depth_arranged_le value
    simp only [List.length_nil]
    omega
  have all := reads [] [] room
  rw [List.append_nil] at all
  rw [read, canonical, String.toList_ofList, readChars, tokens_canonicalChars arrangedFits, all]
  rfl

/-- Canonical text loses nothing of a value.

The value has no key twice in an object, its numbers are whole ones that 64 bits can hold,
unsigned or below zero, and it nests at most 127 containers; its texts and keys are
arbitrary. Then its canonical text is read without a fault as a value that agrees with it,
and that value has the same canonical text. So two such values have one canonical text
exactly when they agree. -/
theorem canonical_loses_nothing {value : Json} (once : value.Each KeysOnce)
    (fits : value.Each Fits) (shallow : value.depth ≤ 127) :
    (∃ again, read value.canonical = .ok again ∧ Agrees value again ∧
      again.canonical = value.canonical) ∧
    ∀ other : Json, other.Each KeysOnce → other.Each Fits → other.depth ≤ 127 →
      (value.canonical = other.canonical ↔ Agrees value other) := by
  have isArranged := isArranged_arranged value
  have still := arranged_of_isArranged isArranged
  have reread := read_canonical fits shallow
  constructor
  · refine ⟨value.arranged, reread, ?_, ?_⟩
    · exact (agrees_iff once (keysOnce_of_isArranged isArranged)).mpr still.symm
    · rw [canonical, canonicalChars, still, canonical, canonicalChars]
  · intro other otherOnce otherFits otherShallow
    rw [agrees_iff once otherOnce]
    constructor
    · intro same
      rw [same, read_canonical otherFits otherShallow] at reread
      exact (Except.ok.inj reread).symm
    · intro same
      rw [canonical, canonicalChars, same, canonical, canonicalChars]

/-- A value with keys out of order, the least and the greatest whole number, and a text of
a control, a quote, a backslash and a character that takes a pair of surrogates. -/
def unarranged : Json :=
  obj [("z\u00FC", arr [num (.int (-9223372036854775808)), num (.int 18446744073709551615),
    str "\u0001\"\\\u007F𝒳"]), ("a", obj [("", null)])]

theorem canonical_loses_nothing_unarranged :
    (∃ again, read unarranged.canonical = .ok again ∧ Agrees unarranged again ∧
      again.canonical = unarranged.canonical) ∧
    unarranged.canonical ≠ (obj []).canonical := by
  have once : unarranged.Each KeysOnce := by
    refine ⟨?_, ⟨nofun, nofun, nofun, nofun, trivial⟩, ⟨?_, nofun, trivial⟩, trivial⟩
    · rintro _ ⟨⟩
      decide
    · rintro _ ⟨⟩
      decide
  have fits : unarranged.Each Fits := by
    refine ⟨nofun, ⟨nofun, ?_, ?_, nofun, trivial⟩, ⟨nofun, nofun, trivial⟩, trivial⟩
    · rintro _ ⟨⟩
      exact ⟨by decide, by decide⟩
    · rintro _ ⟨⟩
      exact ⟨by decide, by decide⟩
  obtain ⟨reread, distinct⟩ := canonical_loses_nothing once fits (by decide)
  refine ⟨reread, fun same => ?_⟩
  have emptyOnce : (obj []).Each KeysOnce := by
    refine ⟨?_, trivial⟩
    rintro _ ⟨⟩
    exact List.nodup_nil
  have agrees := (distinct (obj []) emptyOnce ⟨nofun, trivial⟩ (by decide)).mp same
  obtain ⟨⟨_, found, _⟩, _⟩ := agrees.1
  cases found

end AllowList.Json
