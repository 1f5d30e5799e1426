import AllowList.Json.Value
import AllowList.Proofs.Firsts

/-!
# Values alike

As JSON two values are alike when they are the same but for the signs of zeros: a real zero
has a sign, which is written, but it is equal to the zero of the other sign. A whole number is
never alike a real one. Since the members of an object stand in the order of their keys,
objects are compared member by member.

`firsts` leaves of each of some values the first that is alike it, and `Differ` says that this
changes nothing. A value without numbers is alike itself alone.
-/

namespace AllowList.Json

/-- The number with the sign of a zero taken away. -/
def Number.unsigned : Number → Number
  | .real value => if value.mantissa = 0 then .real (.zero false) else .real value
  | .int value => .int value

mutual

/-- The value with the signs of its zeros taken away. -/
def unsigned : Json → Json
  | num value => num value.unsigned
  | arr items => arr (unsignedItems items)
  | obj members => obj (unsignedMembers members)
  | value => value

/-- The signs of zeros are taken away in every value of a list. -/
def unsignedItems : List Json → List Json
  | [] => []
  | item :: items => item.unsigned :: unsignedItems items

/-- The signs of zeros are taken away in the value of every member. -/
def unsignedMembers : Members → Members
  | [] => []
  | (key, value) :: rest => (key, value.unsigned) :: unsignedMembers rest

end

/-- Whether two values are equal as JSON. -/
def alike (left right : Json) : Bool :=
  left.unsigned == right.unsigned

/-- The values that no earlier one is alike. -/
def firsts (values : List Json) : List Json :=
  values.eraseDupsBy alike

/-- No two of the values are alike. -/
def Differ (values : List Json) : Prop :=
  values.Pairwise fun earlier later => alike earlier later = false

instance (values : List Json) : Decidable (Differ values) :=
  inferInstanceAs (Decidable (values.Pairwise _))

theorem firsts_eq_firstsBy (values : List Json) : firsts values = firstsBy unsigned values := rfl

theorem differ_iff {values : List Json} : Differ values ↔ (values.map unsigned).Nodup := by
  rw [Differ, List.Nodup, List.pairwise_map]
  simp only [alike, beq_eq_false_iff_ne]

/-- The first values of each kind are all values if no two are alike. -/
theorem firsts_eq_self_iff {values : List Json} : firsts values = values ↔ Differ values := by
  rw [differ_iff, firsts_eq_firstsBy, firstsBy_eq_self_iff]

theorem firsts_eq_nil_iff (values : List Json) : firsts values = [] ↔ values = [] := by
  cases values with
  | nil => exact Iff.rfl
  | cons first rest => simp [firsts_eq_firstsBy, firstsBy_cons]

theorem differ_firsts (values : List Json) : Differ (firsts values) := by
  rw [differ_iff, firsts_eq_firstsBy]
  exact nodup_map_firstsBy unsigned values

/-! ## Values without numbers -/

theorem eq_of_unsigned_eq_str {value : Json} {text : String} (same : value.unsigned = str text) :
    value = str text := by
  cases value <;> simp_all [unsigned]

/-- An object of two members is the same without its signs only if it has these members. -/
theorem eq_of_unsigned_eq_pair {value : Json} {first second : String × Json}
    (same : value.unsigned = obj [first, second]) :
    ∃ left right, value = obj [(first.1, left), (second.1, right)] ∧
      left.unsigned = first.2 ∧ right.unsigned = second.2 := by
  cases value with
  | obj members =>
    rw [unsigned, obj.injEq] at same
    match members with
    | [(_, left), (_, right)] =>
      simp only [unsignedMembers, List.cons.injEq, and_true] at same
      obtain ⟨rfl, rfl⟩ := same
      exact ⟨left, right, rfl, rfl, rfl⟩
    | [] | [_] | _ :: _ :: _ :: _ => simp [unsignedMembers] at same
  | null | bool | num | str | arr => simp [unsigned] at same

end AllowList.Json
