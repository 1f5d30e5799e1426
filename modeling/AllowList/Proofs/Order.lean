import AllowList.Policy.Normal

/-!
# The canonical order of names

Texts are ordered by their bytes, namespaces by their URIs, and names by their
namespace first. Each of these orders is total and level only on equal values,
so a list of texts or names has exactly one arrangement in canonical order, and
what it is sorted into tells which items it has and how often, and no more:
`mergeSort_isLE_eq_iff`.

`QName.distinct` therefore answers to the set of its names alone once it sorts:
two lists have the same sorted names without repeats exactly when they have the
same members. Unsorted, it keeps the first occurrences in the order they came.
-/

namespace AllowList

namespace Text

/-- The order of bytes is the dictionary order of their numbers. -/
theorem compareBytes_eq_compareLex (left right : List UInt8) :
    compareBytes left right = left.compareLex (compareOn UInt8.toNat) right := by
  induction left generalizing right with
  | nil => cases right <;> rfl
  | cons a as ih =>
    cases right with
    | nil => rfl
    | cons b bs =>
      rw [List.compareLex_cons_cons, ← ih bs]
      rcases Nat.lt_trichotomy a.toNat b.toNat with less | same | more
      · simp [compareBytes, compareOn, less, Nat.compare_eq_lt.mpr less]
      · simp [compareBytes, compareOn, same]
      · simp [compareBytes, compareOn, more, Nat.lt_asymm more, Nat.compare_eq_gt.mpr more]

/-- The order of texts as the dictionary order that the library knows about. -/
theorem order_eq_compareLex (left right : String) :
    order left right = (bytes left).compareLex (compareOn UInt8.toNat) (bytes right) :=
  compareBytes_eq_compareLex (bytes left) (bytes right)

instance : Std.TransCmp order where
  eq_swap {left right} := by
    rw [order_eq_compareLex, order_eq_compareLex]
    exact Std.OrientedCmp.eq_swap
  isLE_trans {first second third} := by
    rw [order_eq_compareLex, order_eq_compareLex, order_eq_compareLex]
    exact Std.TransCmp.isLE_trans

instance : Std.LawfulEqCmp order where
  compare_self := order_eq_iff.mpr rfl
  eq_of_compare := order_eq_iff.mp

/-- Bytes stand behind others when they are greater as a list. -/
theorem compareBytes_eq_gt_iff {left right : List UInt8} :
    compareBytes left right = .gt ↔ right < left := by
  induction left generalizing right with
  | nil => cases right <;> simp [compareBytes]
  | cons a as ih =>
    cases right with
    | nil => simp [compareBytes]
    | cons b bs =>
      rw [List.cons_lt_cons_iff, ← ih, UInt8.lt_iff_toNat_lt, ← UInt8.toNat_inj, compareBytes]
      rcases Nat.lt_trichotomy a.toNat b.toNat with less | same | more
      · simp [less, Nat.lt_asymm less, Nat.ne_of_gt less]
      · simp [same]
      · simp [more, Nat.lt_asymm more]

/-- A text stands at or before another when its bytes, as a list, are at most the other's. -/
theorem atOrBefore_iff {left right : String} :
    atOrBefore left right = true ↔ bytes left ≤ bytes right := by
  rw [← List.not_lt, ← compareBytes_eq_gt_iff, atOrBefore, order]
  cases compareBytes (bytes left) (bytes right) <;> simp

end Text

/-- A total order on the values of a function is one on its arguments. -/
theorem transCmp_pullback {α β : Type} (compare : β → β → Ordering) [Std.TransCmp compare]
    (value : α → β) : Std.TransCmp fun left right => compare (value left) (value right) where
  eq_swap := Std.OrientedCmp.eq_swap
  isLE_trans := Std.TransCmp.isLE_trans

section sorted

variable {α : Type} {compare : α → α → Ordering} [Std.TransCmp compare]

/-- Items that are sorted by a total order ascend in it. -/
theorem pairwise_mergeSort_isLE (items : List α) :
    (items.mergeSort fun left right => (compare left right).isLE).Pairwise
      fun left right => (compare left right).isLE = true := by
  refine List.pairwise_mergeSort ?_ ?_ items
  · intro first second third
    exact Std.TransCmp.isLE_trans
  · intro left right
    have swaps : compare right left = (compare left right).swap := Std.OrientedCmp.eq_swap
    rw [swaps]
    cases compare left right <;> rfl

variable [Std.LawfulEqCmp compare] {left right : List α}

/-- Items that ascend in a total order, which is level on equal items only, have no other
ascending arrangement. -/
theorem eq_of_perm_of_isLE (same : left.Perm right)
    (leftAscends : left.Pairwise fun first second => (compare first second).isLE = true)
    (rightAscends : right.Pairwise fun first second => (compare first second).isLE = true) :
    left = right := by
  refine same.eq_of_pairwise ?_ leftAscends rightAscends
  intro first second _ _ below above
  exact Std.LawfulEqCmp.eq_of_compare (Std.OrientedCmp.isLE_antisymm below above)

/-- Sorted by such an order, two lists are the same exactly when each item is in both equally
often. -/
theorem mergeSort_isLE_eq_iff :
    (left.mergeSort fun first second => (compare first second).isLE) =
        (right.mergeSort fun first second => (compare first second).isLE) ↔ left.Perm right := by
  have kept (items : List α) :
      (items.mergeSort fun first second => (compare first second).isLE).Perm items :=
    List.mergeSort_perm items _
  constructor
  · intro same
    exact (kept left).symm.trans (same ▸ kept right)
  · intro perm
    have sorted := (kept left).trans (perm.trans (kept right).symm)
    exact eq_of_perm_of_isLE sorted (pairwise_mergeSort_isLE left) (pairwise_mergeSort_isLE right)

end sorted

instance : Std.TransCmp Namespace.order :=
  transCmp_pullback Text.order Namespace.uri

namespace QName

instance : Std.TransCmp spaceOrder where
  eq_swap {left right} := by
    cases left with
    | none => cases right <;> rfl
    | some left =>
      cases right with
      | none => rfl
      | some right =>
        have swaps : left.order right = (right.order left).swap := Std.OrientedCmp.eq_swap
        exact swaps
  isLE_trans {first second third} below above := by
    cases first with
    | none => cases third <;> rfl
    | some space =>
      cases second with
      | none => simp [spaceOrder] at below
      | some middle =>
        cases third with
        | none => simp [spaceOrder] at above
        | some last =>
          have chains : (space.order middle).isLE → (middle.order last).isLE →
              (space.order last).isLE := Std.TransCmp.isLE_trans
          exact chains below above

/-- The canonical order compares namespaces and then names. -/
theorem order_eq_compareLex : order =
    compareLex (fun left right => spaceOrder left.space right.space)
      (fun left right => Text.order left.name right.name) := rfl

instance : Std.TransCmp order := by
  have bySpace := transCmp_pullback spaceOrder QName.space
  have byName := transCmp_pullback Text.order QName.name
  rw [order_eq_compareLex]
  infer_instance

instance : Std.LawfulEqCmp order where
  compare_self := order_eq_iff.mpr rfl
  eq_of_compare := order_eq_iff.mp

/-- Sorted names are the names that were given, with their repeats. -/
theorem sort_perm (names : List QName) : (sort names).Perm names :=
  List.mergeSort_perm names atOrBefore

/-- Sorted names ascend. -/
theorem sort_ascends (names : List QName) :
    (sort names).Pairwise fun left right => atOrBefore left right = true :=
  pairwise_mergeSort_isLE names

/-- Names that ascend have no other ascending arrangement. -/
theorem eq_of_perm_of_ascends {left right : List QName} (same : left.Perm right)
    (leftAscends : left.Pairwise fun first second => atOrBefore first second = true)
    (rightAscends : right.Pairwise fun first second => atOrBefore first second = true) :
    left = right :=
  eq_of_perm_of_isLE same leftAscends rightAscends

end QName

/-- The first occurrences of a list repeat nothing. -/
theorem nodup_eraseDups {α : Type} [BEq α] [LawfulBEq α] (items : List α) :
    items.eraseDups.Nodup := by
  match items with
  | [] => exact List.nodup_nil
  | first :: rest =>
    rw [List.eraseDups_cons, List.nodup_cons]
    have shorter := List.length_filter_le (fun item => !item == first) rest
    refine ⟨?_, nodup_eraseDups _⟩
    intro again
    have kept := List.mem_filter.mp (List.mem_eraseDups.mp again)
    simp at kept
termination_by items.length

/-- A list that repeats nothing is its first occurrences. -/
theorem eraseDups_of_nodup {α : Type} [BEq α] [LawfulBEq α] {items : List α}
    (once : items.Nodup) : items.eraseDups = items := by
  induction items with
  | nil => rfl
  | cons first rest ih =>
    obtain ⟨absent, restOnce⟩ := List.nodup_cons.mp once
    have others : rest.filter (fun item => !item == first) = rest := by
      refine List.filter_eq_self.mpr fun item present => ?_
      have differs : item ≠ first := fun same => absent (same ▸ present)
      simp [differs]
    rw [List.eraseDups_cons, others, ih restOnce]

namespace QName

/-- Dropping repeats keeps every name and adds none. -/
@[simp] theorem mem_distinct {sorted : Bool} {names : List QName} {name : QName} :
    name ∈ distinct sorted names ↔ name ∈ names := by
  unfold distinct
  split
  · rw [(sort_perm _).mem_iff, List.mem_eraseDups]
  · exact List.mem_eraseDups

/-- Nothing is left that repeats. -/
theorem nodup_distinct (sorted : Bool) (names : List QName) : (distinct sorted names).Nodup := by
  unfold distinct
  split
  · exact (sort_perm _).nodup_iff.mpr (nodup_eraseDups names)
  · exact nodup_eraseDups names

/-- With sorting, what is left ascends. -/
theorem distinct_ascends (names : List QName) :
    (distinct true names).Pairwise fun left right => atOrBefore left right = true :=
  sort_ascends names.eraseDups

/-- Names that ascend without repeats are determined by what is among them. -/
theorem eq_of_mem_iff_of_ascends {left right : List QName}
    (leftNodup : left.Nodup) (rightNodup : right.Nodup)
    (leftAscends : left.Pairwise fun first second => atOrBefore first second = true)
    (rightAscends : right.Pairwise fun first second => atOrBefore first second = true)
    (same : ∀ name, name ∈ left ↔ name ∈ right) : left = right := by
  have perm : left.Perm right := (List.perm_ext_iff_of_nodup leftNodup rightNodup).mpr same
  exact eq_of_perm_of_ascends perm leftAscends rightAscends

/-- Sorted names without repeats are determined by the set of the names given. -/
theorem distinct_eq_iff {left right : List QName} :
    distinct true left = distinct true right ↔ ∀ name, name ∈ left ↔ name ∈ right := by
  constructor
  · intro same name
    have mem (names : List QName) : name ∈ distinct true names ↔ name ∈ names := mem_distinct
    rw [← mem left, same, mem right]
  · intro same
    refine eq_of_mem_iff_of_ascends (nodup_distinct true left) (nodup_distinct true right)
      (distinct_ascends left) (distinct_ascends right) fun name => ?_
    rw [mem_distinct, mem_distinct]
    exact same name

end QName

end AllowList
