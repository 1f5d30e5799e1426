import AllowList.Proofs.Order

/-!
# Which of two names stands first

The canonical order gives a verdict on two names; this module says what the verdict is about.
`QName.Precedes` is the dictionary order told outright: a name that is tied to no namespace stands
before every name that is tied to one, then the bytes of the namespace's URI decide, then the bytes
of the name. Namespaces are compared by their URIs but told apart by what they are, so the order
agrees with identity only because no two of them share a URI.

Since the order is total and level on equal names only, the arrangement that sorting arrives at is
the only one in which no name stands behind a name that it precedes (`QName.eq_sort_iff`). It does
not matter how it is found, nor in which order the names were given.
-/

namespace AllowList

namespace Text

/-- A text in UTF-8, one character after another. -/
def utf8 (text : String) : List UInt8 :=
  text.toList.flatMap String.utf8EncodeChar

/-- The bytes that texts are ordered by are those of their characters. -/
theorem bytes_eq_utf8 (text : String) : bytes text = utf8 text := by
  rw [bytes, ← String.utf8Encode_toList, List.utf8Encode, List.data_toByteArray]
  rfl

/-- A text stands before another when its bytes, as a list, are less than the other's. -/
theorem order_eq_lt_iff {left right : String} :
    order left right = .lt ↔ utf8 left < utf8 right := by
  rw [← bytes_eq_utf8, ← bytes_eq_utf8, ← compareBytes_eq_gt_iff]
  exact Std.OrientedCmp.gt_iff_lt.symm

end Text

namespace QName

/-- A namespace, or none, stands before another: none before any, and of two namespaces the one
whose URI has the lesser bytes. -/
inductive SpacePrecedes : Option Namespace → Option Namespace → Prop where
  | untied (space : Namespace) : SpacePrecedes none (some space)
  | uri {left right : Namespace} (less : Text.utf8 left.uri < Text.utf8 right.uri) :
    SpacePrecedes (some left) (some right)

/-- A name stands before another: its namespace does, or the two are level there and its bytes
are less. -/
inductive Precedes (left right : QName) : Prop where
  | space (before : SpacePrecedes left.space right.space)
  | name (level : left.space = right.space) (less : Text.utf8 left.name < Text.utf8 right.name)

/-! ## What the comparison tells -/

theorem spaceOrder_eq_lt_iff {left right : Option Namespace} :
    spaceOrder left right = .lt ↔ SpacePrecedes left right := by
  constructor
  · intro before
    match left, right with
    | none, some space => exact .untied space
    | some left, some right => exact .uri (Text.order_eq_lt_iff.mp before)
  · rintro (space | less)
    · rfl
    · exact Text.order_eq_lt_iff.mpr less

instance : DecidableRel SpacePrecedes := fun _ _ => decidable_of_iff _ spaceOrder_eq_lt_iff

-- the six namespaces by their URIs, not as they are listed
example : [none, some .mathml, some .html, some .xlink, some .svg, some .xmlns, some .xml].Pairwise
    SpacePrecedes := by decide

/-- Only the same namespace is level, as each has a URI of its own. -/
theorem spaceOrder_eq_iff {left right : Option Namespace} :
    spaceOrder left right = .eq ↔ left = right := by
  cases left <;> cases right <;> simp [spaceOrder, Namespace.order_eq_iff]

/-- The canonical order finds a name to be less than those that it precedes. -/
theorem order_eq_lt_iff {left right : QName} : order left right = .lt ↔ Precedes left right := by
  rw [order, Ordering.then_eq_lt, spaceOrder_eq_lt_iff, spaceOrder_eq_iff, Text.order_eq_lt_iff]
  constructor
  · rintro (before | ⟨level, less⟩)
    · exact .space before
    · exact .name level less
  · rintro (before | ⟨level, less⟩)
    · exact Or.inl before
    · exact Or.inr ⟨level, less⟩

theorem order_eq_gt_iff {left right : QName} : order left right = .gt ↔ Precedes right left := by
  rw [← order_eq_lt_iff]
  exact Std.OrientedCmp.gt_iff_lt

instance : DecidableRel Precedes := fun _ _ => decidable_of_iff _ order_eq_lt_iff

/-- A name stands at or before another unless the other precedes it. -/
theorem atOrBefore_iff {left right : QName} :
    atOrBefore left right = true ↔ ¬Precedes right left := by
  rw [← order_eq_gt_iff, atOrBefore]
  cases order left right <;> simp

theorem Precedes.atOrBefore {left right : QName} (before : Precedes left right) :
    atOrBefore left right = true := by
  rw [QName.atOrBefore, order_eq_lt_iff.mpr before]
  rfl

theorem atOrBefore_trans {first second third : QName} (front : atOrBefore first second = true)
    (back : atOrBefore second third = true) : atOrBefore first third = true :=
  Std.TransCmp.isLE_trans front back

theorem atOrBefore_antisymm {left right : QName} (front : atOrBefore left right = true)
    (back : atOrBefore right left = true) : left = right :=
  order_eq_iff.mp (Std.OrientedCmp.isLE_antisymm front back)

theorem atOrBefore_total (left right : QName) :
    atOrBefore left right = true ∨ atOrBefore right left = true := by
  by_cases behind : Precedes right left
  · exact Or.inr behind.atOrBefore
  · exact Or.inl (atOrBefore_iff.mpr behind)

/-! ## The one arrangement -/

/-- No name stands behind a name that it precedes. -/
def Arranged (names : List QName) : Prop :=
  names.Pairwise fun earlier later => ¬Precedes later earlier

instance (names : List QName) : Decidable (Arranged names) :=
  inferInstanceAs (Decidable (names.Pairwise fun earlier later => ¬Precedes later earlier))

theorem arranged_iff {names : List QName} :
    Arranged names ↔ names.Pairwise fun left right => atOrBefore left right = true := by
  simp only [Arranged, atOrBefore_iff]

/-- Sorting gives the one arrangement of its names. -/
theorem eq_sort_iff {names arrangement : List QName} :
    arrangement = sort names ↔ arrangement.Perm names ∧ Arranged arrangement := by
  constructor
  · rintro rfl
    exact ⟨sort_perm names, arranged_iff.mpr (sort_ascends names)⟩
  · rintro ⟨same, arranged⟩
    have perm : arrangement.Perm (sort names) := same.trans (sort_perm names).symm
    exact eq_of_perm_of_ascends perm (arranged_iff.mp arranged) (sort_ascends names)

/-- Names are sorted alike exactly when they are the same, each as often. -/
theorem sort_eq_iff {names others : List QName} : sort names = sort others ↔ names.Perm others :=
  mergeSort_isLE_eq_iff

/-- The canonical order is total, level on equal names only, and goes by namespace and then by
name, so that names have one sorted arrangement.

Two names compared the other way round give the opposite verdict, one of two names always stands
at or before the other, both do only if they are the same name, and what stands at or before a
name stands at or before everything behind that. A name is level with itself alone. Which of two
different names stands first is told by `Precedes`. Sorted names are the names that were given,
each as often, and no other arrangement of them has each name in front of those it precedes; other
names are sorted into the same list exactly when they are the same names, each as often. -/
theorem order_total_lexicographic (first second third : QName) (names : List QName) :
    order second first = (order first second).swap ∧
    (atOrBefore first second ∨ atOrBefore second first) ∧
    (atOrBefore first second → atOrBefore second first → first = second) ∧
    (atOrBefore first second → atOrBefore second third → atOrBefore first third) ∧
    (order first second = .eq ↔ first = second) ∧
    (order first second = .lt ↔ Precedes first second) ∧
    (order first second = .gt ↔ Precedes second first) ∧
    (∀ arrangement, arrangement = sort names ↔ arrangement.Perm names ∧ Arranged arrangement) ∧
    ∀ others, sort names = sort others ↔ names.Perm others := by
  have swaps : order second first = (order first second).swap := Std.OrientedCmp.eq_swap
  refine ⟨swaps, atOrBefore_total first second, atOrBefore_antisymm, atOrBefore_trans, ?_⟩
  refine ⟨order_eq_iff, order_eq_lt_iff, order_eq_gt_iff, ?_, ?_⟩
  · intro arrangement
    exact eq_sort_iff
  · intro others
    exact sort_eq_iff

/-- Names with a repeat whose order is neither that in which namespaces are listed nor, for the
last two of HTML, that of UTF-16. -/
def scattered : List QName :=
  [.within .svg "a", .within .html "😀", .bare "id", .within .html "a", .within .mathml "mi",
    .within .html "\uff21", .bare "id", .within .html "B"]

/-- The same names in their one arrangement. -/
def arrangedScattered : List QName :=
  [.bare "id", .bare "id", .within .mathml "mi", .within .html "B", .within .html "a",
    .within .html "\uff21", .within .html "😀", .within .svg "a"]

theorem order_total_lexicographic_scattered :
    sort scattered = arrangedScattered ∧ sort scattered.reverse = arrangedScattered ∧
    order (.within .mathml "mi") (.within .html "😀") = .lt ∧
    atOrBefore (.within .mathml "mi") (.within .svg "a") := by
  obtain ⟨_, _, _, transitive, _, less, _, arrangements, alike⟩ :=
    order_total_lexicographic (.within .mathml "mi") (.within .html "😀") (.within .svg "a")
      scattered
  have same : arrangedScattered.Perm scattered := by decide
  have arranged : Arranged arrangedScattered := by decide
  have sorted : arrangedScattered = sort scattered := (arrangements _).mpr ⟨same, arranged⟩
  have reversed : sort scattered = sort scattered.reverse :=
    (alike _).mpr (List.reverse_perm scattered).symm
  have inFront : Precedes (.within .mathml "mi") (.within .html "😀") := .space (by decide)
  have behind : atOrBefore (.within .html "😀") (.within .svg "a") := by decide
  refine ⟨sorted.symm, reversed.symm.trans sorted.symm, less.mpr inFront, ?_⟩
  exact transitive inFront.atOrBefore behind

end QName

end AllowList
