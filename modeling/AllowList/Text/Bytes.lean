/-!
# Texts measured and ordered by their bytes

Positions in a text are counted in bytes of its UTF-8 form, and names are put
in order by those bytes. `byteLength` is the measure on a run of characters,
`compareBytes` the dictionary order on byte sequences, and `order` the order
it gives two texts. A text is determined by its bytes, so `order` answers
`eq` on equal texts only.
-/

namespace AllowList.Text

/-- The number of bytes a run of characters takes in UTF-8. -/
def byteLength : List Char → Nat
  | [] => 0
  | c :: rest => c.utf8Size + byteLength rest

@[simp] theorem byteLength_nil : byteLength [] = 0 := rfl

@[simp] theorem byteLength_cons (c : Char) (rest : List Char) :
    byteLength (c :: rest) = c.utf8Size + byteLength rest := rfl

/-- The measure of a concatenation is the sum of the measures. -/
@[simp] theorem byteLength_append (front back : List Char) :
    byteLength (front ++ back) = byteLength front + byteLength back := by
  induction front with
  | nil => simp
  | cons c rest ih => simp [ih, Nat.add_assoc]

/-- Dictionary order of byte sequences: the first unequal byte decides, and a
sequence stands before its extensions. -/
def compareBytes : List UInt8 → List UInt8 → Ordering
  | [], [] => .eq
  | [], _ :: _ => .lt
  | _ :: _, [] => .gt
  | a :: as, b :: bs =>
    if a.toNat < b.toNat then .lt
    else if b.toNat < a.toNat then .gt
    else compareBytes as bs

/-- The bytes of a text in UTF-8. -/
def bytes (text : String) : List UInt8 :=
  text.toByteArray.data.toList

/-- The order of two texts: the dictionary order of their bytes. -/
def order (left right : String) : Ordering :=
  compareBytes (bytes left) (bytes right)

/-- Whether the first text stands at or before the second. -/
def atOrBefore (left right : String) : Bool :=
  (order left right).isLE

/-- Every byte sequence is level with itself. -/
theorem compareBytes_self (bytes : List UInt8) : compareBytes bytes bytes = .eq := by
  induction bytes with
  | nil => rfl
  | cons b rest ih => simp [compareBytes, ih]

/-- Only equal byte sequences are level. -/
theorem eq_of_compareBytes_eq {left right : List UInt8}
    (level : compareBytes left right = .eq) : left = right := by
  induction left generalizing right with
  | nil =>
    cases right with
    | nil => rfl
    | cons b bs => simp [compareBytes] at level
  | cons a as ih =>
    cases right with
    | nil => simp [compareBytes] at level
    | cons b bs =>
      simp only [compareBytes] at level
      split at level
      · simp at level
      · split at level
        · simp at level
        · have same : a = b := UInt8.toNat_inj.mp (by omega)
          rw [same, ih level]

/-- Two texts are level exactly when they are the same text. -/
theorem order_eq_iff {left right : String} : order left right = .eq ↔ left = right := by
  constructor
  · intro level
    have sameBytes := eq_of_compareBytes_eq level
    refine String.toByteArray_inj.mp ?_
    have sameData : left.toByteArray.data = right.toByteArray.data :=
      Array.toList_inj.mp sameBytes
    exact ByteArray.ext sameData
  · intro same
    subst same
    exact compareBytes_self _

end AllowList.Text
