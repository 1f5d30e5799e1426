import AllowList.Proofs.Order
import Mathlib.Data.List.Basic
import Mathlib.Data.List.Induction
import Mathlib.Data.List.Nodup

/-!
# First occurrences

A list without its repeats is told by places: it holds what the list holds, in the order of
the places where each item comes first. No other list does, so `areFirsts_iff` says what
dropping repeats means without saying how it is done.

Items are taken in one at a time from the front of a list, and one more item changes the
first occurrences at their end alone: `eraseDups_concat`. So dropping repeats may come before
or after a selection of items, and the parts of a list may lose their repeats before the whole
does.

Where items are told apart by a key only, `firstsBy` leaves the first item of each key.
-/

namespace AllowList

section firsts

variable {α : Type} [DecidableEq α] {kept items : List α}

/-- The kept items are the first occurrences of some items: all of them, in the order of
their first places. -/
structure AreFirsts (kept items : List α) : Prop where
  mem_iff : ∀ item, item ∈ kept ↔ item ∈ items
  ordered : kept.Pairwise fun left right => items.idxOf left < items.idxOf right

/-- No item stands in front of itself, so none is kept twice. -/
theorem AreFirsts.nodup (firsts : AreFirsts kept items) : kept.Nodup := by
  refine firsts.ordered.imp ?_
  intro left right inFront same
  rw [same] at inFront
  exact Nat.lt_irrefl _ inFront

/-- Items have one list of first occurrences. -/
theorem AreFirsts.unique {other : List α} (firsts : AreFirsts kept items)
    (others : AreFirsts other items) : kept = other := by
  have perm : kept.Perm other := by
    refine (List.perm_ext_iff_of_nodup firsts.nodup others.nodup).mpr fun item => ?_
    rw [firsts.mem_iff, others.mem_iff]
  refine perm.eq_of_pairwise ?_ firsts.ordered others.ordered
  intro left right _ _ inFront behind
  exact absurd inFront (Nat.lt_asymm behind)

/-- Behind the last item everything keeps its first place, and an item that was there
before is not kept again. -/
theorem AreFirsts.concat_of_mem {last : α} (firsts : AreFirsts kept items)
    (present : last ∈ items) : AreFirsts kept (items ++ [last]) where
  mem_iff item := by
    rw [firsts.mem_iff, List.mem_append, List.mem_singleton]
    constructor
    · exact Or.inl
    · rintro (early | rfl)
      · exact early
      · exact present
  ordered := by
    refine firsts.ordered.imp_of_mem fun {left right} leftKept rightKept inFront => ?_
    rw [List.idxOf_append_of_mem ((firsts.mem_iff left).mp leftKept),
      List.idxOf_append_of_mem ((firsts.mem_iff right).mp rightKept)]
    exact inFront

/-- An item that was not there before is kept at the end. -/
theorem AreFirsts.concat_of_not_mem {last : α} (firsts : AreFirsts kept items)
    (absent : last ∉ items) : AreFirsts (kept ++ [last]) (items ++ [last]) where
  mem_iff item := by rw [List.mem_append, List.mem_append, firsts.mem_iff]
  ordered := by
    have early {item : α} (present : item ∈ kept) :
        (items ++ [last]).idxOf item = items.idxOf item :=
      List.idxOf_append_of_mem ((firsts.mem_iff item).mp present)
    refine List.pairwise_append.mpr ⟨?_, List.pairwise_singleton _ last, ?_⟩
    · refine firsts.ordered.imp_of_mem fun leftKept rightKept inFront => ?_
      rw [early leftKept, early rightKept]
      exact inFront
    · intro item present final isLast
      rw [List.mem_singleton.mp isLast, early present, List.idxOf_append_of_notMem absent]
      have place : items.idxOf item < items.length :=
        List.idxOf_lt_length_iff.mpr ((firsts.mem_iff item).mp present)
      omega

/-- One more item is kept if it was not there before. -/
theorem eraseDups_concat (items : List α) (last : α) :
    (items ++ [last]).eraseDups =
      if last ∈ items then items.eraseDups else items.eraseDups ++ [last] := by
  have alone : [last].eraseDups = [last] := List.eraseDups_cons
  rw [List.eraseDups_append]
  by_cases present : last ∈ items <;> simp [List.removeAll, present, alone]

/-- Dropping repeats leaves the first occurrences and nothing else does. -/
theorem areFirsts_iff : AreFirsts kept items ↔ kept = items.eraseDups := by
  have firsts : AreFirsts items.eraseDups items := by
    induction items using List.reverseRecOn with
    | nil => exact ⟨fun _ => Iff.rfl, List.Pairwise.nil⟩
    | append_singleton items last ih =>
      rw [eraseDups_concat]
      split
      case isTrue present => exact ih.concat_of_mem present
      case isFalse absent => exact ih.concat_of_not_mem absent
  constructor
  · exact fun same => same.unique firsts
  · exact fun same => same ▸ firsts

/-- Repeats may be dropped before or after some of the items are selected. -/
theorem eraseDups_filter (keep : α → Bool) (items : List α) :
    (items.filter keep).eraseDups = items.eraseDups.filter keep := by
  induction items using List.reverseRecOn with
  | nil => rfl
  | append_singleton items last ih =>
    rw [List.filter_append, List.filter_singleton, eraseDups_concat]
    cases kept : keep last with
    | false => by_cases present : last ∈ items <;> simp [ih, present, kept]
    | true => by_cases present : last ∈ items <;> simp [eraseDups_concat, ih, present, kept]

/-- Two parts may lose their repeats before the whole does. -/
theorem eraseDups_append_eraseDups (front back : List α) :
    (front.eraseDups ++ back.eraseDups).eraseDups = (front ++ back).eraseDups := by
  have others : back.eraseDups.removeAll front.eraseDups = (back.removeAll front).eraseDups := by
    rw [List.removeAll, List.removeAll, eraseDups_filter]
    refine List.filter_congr fun item _ => ?_
    simp
  rw [List.eraseDups_append, List.eraseDups_append, others,
    eraseDups_of_nodup (nodup_eraseDups front), eraseDups_of_nodup (nodup_eraseDups _)]

/-- Items that are there already may be left out behind the others. -/
theorem eraseDups_append_of_subset {front back : List α} (known : back ⊆ front) :
    (front ++ back).eraseDups = front.eraseDups := by
  have nothing : back.removeAll front = [] := by
    rw [List.removeAll, List.filter_eq_nil_iff]
    intro item present
    simp [known present]
  rw [List.eraseDups_append, nothing, List.eraseDups_nil, List.append_nil]

end firsts

/-! ## By a key -/

section byKey

variable {α β : Type} [DecidableEq β] (key : α → β)

/-- The items whose key no earlier item has. -/
def firstsBy (items : List α) : List α :=
  items.eraseDupsBy fun later earlier => key later == key earlier

theorem firstsBy_cons (first : α) (rest : List α) :
    firstsBy key (first :: rest) = first :: firstsBy key (rest.filter (key · ≠ key first)) := by
  simp only [firstsBy, List.eraseDupsBy_cons, beq_eq_false_iff_ne]

/-- Behind a part of a list only items with new keys count. The recursion takes the first
item off the part, and with it all later items of its key. -/
theorem firstsBy_append (front back : List α) : firstsBy key (front ++ back) =
    firstsBy key front ++ firstsBy key (back.filter (key · ∉ front.map key)) := by
  match front with
  | [] => simp [firstsBy]
  | first :: rest =>
    have others : (back.filter (key · ≠ key first)).filter
        (key · ∉ (rest.filter (key · ≠ key first)).map key) =
          back.filter (key · ∉ (first :: rest).map key) := by
      rw [List.filter_filter]
      refine List.filter_congr fun item _ => ?_
      by_cases known : key item = key first
      · simp [known]
      · have same : key item ∈ (rest.filter (key · ≠ key first)).map key ↔
            key item ∈ rest.map key := by
          simp only [List.mem_map, List.mem_filter, decide_eq_true_eq]
          refine exists_congr fun other => ?_
          constructor
          · rintro ⟨⟨present, _⟩, same⟩
            exact ⟨present, same⟩
          · rintro ⟨present, same⟩
            exact ⟨⟨present, fun own => known (same.symm.trans own)⟩, same⟩
        simp only [same, List.map_cons, List.mem_cons, known, false_or, ne_eq, not_false_eq_true,
          decide_true, Bool.and_true]
    rw [List.cons_append, firstsBy_cons, firstsBy_cons, List.filter_append, firstsBy_append, others,
      List.cons_append]
termination_by front.length
decreasing_by exact Nat.lt_succ_of_le (List.length_filter_le _ _)

/-- One more item counts if its key is new. -/
theorem firstsBy_concat (items : List α) (last : α) : firstsBy key (items ++ [last]) =
    if key last ∈ items.map key then firstsBy key items else firstsBy key items ++ [last] := by
  rw [firstsBy_append]
  by_cases known : key last ∈ items.map key
  · rw [if_pos known, List.filter_cons_of_neg (by simpa using known)]
    exact List.append_nil _
  · rw [if_neg known, List.filter_cons_of_pos (by simpa using known)]
    rfl

/-- What is left comes from the list, in its order. -/
theorem firstsBy_sublist (items : List α) : (firstsBy key items).Sublist items := by
  induction items using List.reverseRecOn with
  | nil => exact List.Sublist.refl []
  | append_singleton items last ih =>
    rw [firstsBy_concat]
    split
    · exact ih.trans (List.sublist_append_left items [last])
    · exact ih.append (List.Sublist.refl [last])

/-- No key is left twice. -/
theorem nodup_map_firstsBy (items : List α) : ((firstsBy key items).map key).Nodup := by
  induction items using List.reverseRecOn with
  | nil => exact List.nodup_nil
  | append_singleton items last ih =>
    rw [firstsBy_concat]
    split
    case isTrue => exact ih
    case isFalse new =>
      rw [List.map_append, List.map_singleton, List.nodup_append]
      refine ⟨ih, List.nodup_singleton _, ?_⟩
      intro old left final isLast same
      obtain rfl := List.mem_singleton.mp isLast
      exact new (((firstsBy_sublist key items).map key).subset (same ▸ left))

/-- All items are left if no key comes twice. -/
theorem firstsBy_eq_self_iff {items : List α} :
    firstsBy key items = items ↔ (items.map key).Nodup := by
  constructor
  · intro same
    exact same ▸ nodup_map_firstsBy key items
  · intro once
    induction items with
    | nil => rfl
    | cons first rest ih =>
      obtain ⟨absent, restOnce⟩ := List.nodup_cons.mp once
      have others : rest.filter (key · ≠ key first) = rest := by
        refine List.filter_eq_self.mpr fun item present => decide_eq_true fun same => absent ?_
        exact List.mem_map.mpr ⟨item, present, same⟩
      rw [firstsBy_cons, others, ih restOnce]

/-- Items made of others, each by a key of its own, are left if what they are made of is. -/
theorem firstsBy_map {γ : Type} [DecidableEq γ] {make : γ → α}
    (own : ∀ first second, key (make first) = key (make second) → first = second)
    (sources : List γ) : firstsBy key (sources.map make) = sources.eraseDups.map make := by
  induction sources using List.reverseRecOn with
  | nil => rfl
  | append_singleton sources last ih =>
    have known : key (make last) ∈ (sources.map make).map key ↔ last ∈ sources := by
      rw [List.map_map, List.mem_map]
      constructor
      · rintro ⟨source, present, same⟩
        exact own source last same ▸ present
      · exact fun present => ⟨last, present, rfl⟩
    rw [List.map_append, List.map_singleton, firstsBy_concat, eraseDups_concat, ih]
    simp only [known]
    split
    · rfl
    · rw [List.map_append, List.map_singleton]

end byKey

end AllowList
