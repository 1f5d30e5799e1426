import AllowList.Proofs.Policy.Accepted

/-!
# Values that are no objects

A policy is written as an object, but it is read from an array as well: an array of at most as many
values as a policy has keys stands for the object that has these values under the keys, in the
order of `Form.fields`. No longer array is read, and no other value that is no object.
-/

namespace AllowList.Policy

open Json (Members)

/-- An array with at most as many values as a policy has keys stands for the object that has its
values under these keys. -/
inductive StandsFor : Json → Members → Prop where
  | arr {items : List Json} (short : items.length ≤ Form.fields.length) :
    StandsFor (.arr items) (Form.fields.zip items)

namespace StandsFor

variable {value : Json} {members : Members}

/-- The keys that the values of an array come under are the first keys of a policy. -/
theorem keys_sublist (stands : StandsFor value members) :
    (members.map Prod.fst).Sublist Form.fields := by
  obtain @⟨items, short⟩ := stands
  rw [List.zip_eq_zip_take_min, List.map_fst_zip (by simp)]
  exact List.take_sublist _ _

/-- The object that an array stands for has no key twice. -/
theorem keysOnce (stands : StandsFor value members) (once : value.Each Json.KeysOnce) :
    (Json.obj members).Each Json.KeysOnce := by
  have fields : Form.fields.Nodup := by decide
  constructor
  · rintro _ ⟨⟩
    exact fields.sublist stands.keys_sublist
  · rw [Json.eachMember_iff]
    intro member present
    obtain @⟨items, short⟩ := stands
    exact Json.eachItem_iff.mp once.2 _ (List.of_mem_zip present).2

end StandsFor

namespace Form

/-- A value that is no object has the shape of the object that it stands for. An array that stands
for none is refused for one of its values or for its length. -/
theorem ofJson_eq_ok_iff {value : Json} (noObject : ∀ members, value ≠ .obj members)
    {form : Form} : ofJson value = .ok form ↔
      ∃ members, StandsFor value members ∧ ofJson (.obj members) = .ok form := by
  cases value with
  | obj members => exact absurd rfl (noObject members)
  | null | bool | num | str =>
    constructor
    · intro shape
      cases shape
    · rintro ⟨_, ⟨⟩, _⟩
  | arr items =>
    by_cases long : fields.length < items.length
    · -- the values are read before they are counted, but whatever they are, they are too many
      have refused : ofJson (.arr items) ≠ .ok form := by
        simp only [ofJson, if_pos long]
        cases setAll {} (fields.zip items) <;> rintro ⟨⟩
      constructor
      · intro shape
        exact absurd shape refused
      · rintro ⟨_, ⟨short⟩, _⟩
        omega
    · have same : ofJson (.arr items) = ofJson (.obj (fields.zip items)) := by
        simp only [ofJson, if_neg long]
        cases setAll {} (fields.zip items) <;> rfl
      rw [same]
      constructor
      · intro shape
        exact ⟨_, .arr (Nat.le_of_not_lt long), shape⟩
      · rintro ⟨_, ⟨_⟩, shape⟩
        exact shape

end Form

section outcomes

variable {value : Json}

/-- A policy is read from the shape of a value. -/
theorem ofJson_eq_ok_iff {policy : Policy} :
    (ofJson value).mapError Failure.ofDecodeFault = .ok policy ↔
      ∃ form, Form.ofJson value = .ok form ∧ ofForm form = .ok policy := by
  unfold ofJson
  cases Form.ofJson value with
  | error fault => simp [Except.mapError]
  | ok form => cases made : ofForm form <;> simp [Except.mapError, made]

/-- A policy is read from the values that have the shape of one and name known namespaces. -/
theorem exists_ofJson_eq_ok_iff :
    (∃ policy, (ofJson value).mapError Failure.ofDecodeFault = .ok policy) ↔
      ∃ form, Form.ofJson value = .ok form ∧ ∃ policy, ofForm form = .ok policy := by
  simp only [ofJson_eq_ok_iff]
  rw [exists_comm]
  simp only [exists_and_left]

/-- A namespace is refused in the values that have the shape of a policy and are none. -/
theorem exists_ofJson_eq_unknownSpace_iff :
    (∃ text, (ofJson value).mapError Failure.ofDecodeFault = .error (.unknownSpace text)) ↔
      ∃ form, Form.ofJson value = .ok form ∧ ¬∃ policy, ofForm form = .ok policy := by
  unfold ofJson
  cases Form.ofJson value with
  | error fault => simp [Except.mapError, Failure.ofDecodeFault]
  | ok form =>
    cases made : ofForm form with
    | ok policy => simp [Except.mapError, made]
    | error fault =>
      obtain ⟨text, rfl⟩ := spaceFaults_ofForm form fault made
      simp [Except.mapError, made, Failure.ofDecodeFault]

/-- A shape is refused in the values that do not have the shape of a policy. -/
theorem exists_ofJson_eq_badShape_iff :
    (∃ fault, (ofJson value).mapError Failure.ofDecodeFault = .error (.badShape fault)) ↔
      ¬∃ form, Form.ofJson value = .ok form := by
  unfold ofJson
  cases Form.ofJson value with
  | error fault => simp [Except.mapError, Failure.ofDecodeFault]
  | ok form =>
    cases made : ofForm form with
    | ok policy => simp [Except.mapError, made]
    | error fault =>
      obtain ⟨text, rfl⟩ := spaceFaults_ofForm form fault made
      simp [Except.mapError, made, Failure.ofDecodeFault]

variable (once : value.Each Json.KeysOnce) (noObject : ∀ members, value ≠ .obj members)

include once noObject

/-- What a form is known by, where a value that is no object has one: it has the form of the
object that it stands for. -/
theorem exists_form_and_iff {holds : Form → Prop} {known : Members → Prop}
    (each : ∀ members form, (Json.obj members).Each Json.KeysOnce →
      Form.ofJson (.obj members) = .ok form → (holds form ↔ known members)) :
    (∃ form, Form.ofJson value = .ok form ∧ holds form) ↔
      ∃ members, StandsFor value members ∧ IsShaped members ∧ known members := by
  constructor
  · rintro ⟨form, shape, held⟩
    obtain ⟨members, stands, shape⟩ := (Form.ofJson_eq_ok_iff noObject).mp shape
    have own := stands.keysOnce once
    exact ⟨members, stands, (exists_form_iff own).mp ⟨form, shape⟩,
      (each members form own shape).mp held⟩
  · rintro ⟨members, stands, shaped, held⟩
    have own := stands.keysOnce once
    obtain ⟨form, shape⟩ := (exists_form_iff own).mpr shaped
    exact ⟨form, (Form.ofJson_eq_ok_iff noObject).mpr ⟨members, stands, shape⟩,
      (each members form own shape).mpr held⟩

/-- A value that is no object is read as the policy of the object that it stands for, if it is an
array that stands for one with the shape of a policy that knows its namespaces. Every other value
that is no object is refused: for a namespace if it stands for an object with the shape of a
policy, and for its shape if it does not. -/
theorem ofJson_of_no_object :
    (∀ policy, (ofJson value).mapError Failure.ofDecodeFault = .ok policy ↔
      ∃ members, StandsFor value members ∧
        (ofJson (.obj members)).mapError Failure.ofDecodeFault = .ok policy) ∧
    ((∃ policy, (ofJson value).mapError Failure.ofDecodeFault = .ok policy) ↔
      ∃ members, StandsFor value members ∧ IsShaped members ∧ SpacesKnown members) ∧
    ((∃ text, (ofJson value).mapError Failure.ofDecodeFault = .error (.unknownSpace text)) ↔
      ∃ members, StandsFor value members ∧ IsShaped members ∧ ¬SpacesKnown members) ∧
    ((∃ fault, (ofJson value).mapError Failure.ofDecodeFault = .error (.badShape fault)) ↔
      ¬∃ members, StandsFor value members ∧ IsShaped members) := by
  refine ⟨?_, ?_, ?_, ?_⟩
  · intro policy
    simp only [ofJson_eq_ok_iff, Form.ofJson_eq_ok_iff noObject]
    constructor
    · rintro ⟨form, ⟨members, stands, shape⟩, made⟩
      exact ⟨members, stands, form, shape, made⟩
    · rintro ⟨members, stands, form, shape, made⟩
      exact ⟨form, ⟨members, stands, shape⟩, made⟩
  · rw [exists_ofJson_eq_ok_iff]
    exact exists_form_and_iff once noObject fun members form own shape =>
      exists_ofForm_iff own shape
  · rw [exists_ofJson_eq_unknownSpace_iff]
    exact exists_form_and_iff once noObject fun members form own shape =>
      not_congr (exists_ofForm_iff own shape)
  · rw [exists_ofJson_eq_badShape_iff]
    have shapes : (∃ form, Form.ofJson value = .ok form ∧ True) ↔
        ∃ members, StandsFor value members ∧ IsShaped members ∧ True :=
      exists_form_and_iff once noObject fun _ _ _ _ => Iff.rfl
    simpa only [and_true] using not_congr shapes

end outcomes

/-- An array with an element, and with an attribute in a namespace. -/
def listed (space : String) : Json :=
  .arr [.arr [.str "p"], .arr [.obj [("name", .str "href"), ("namespace", .str space)]]]

theorem ofJson_of_no_object_listed :
    (∃ members, StandsFor (listed "http://www.w3.org/1999/xlink") members ∧ IsShaped members ∧
      SpacesKnown members) ∧
    (∃ members, StandsFor (listed "urn:x") members ∧ IsShaped members ∧ ¬SpacesKnown members) ∧
    ∀ value ∈ [Json.null, .bool true, .str "p", .arr [.null]],
      ¬∃ members, StandsFor value members ∧ IsShaped members := by
  have once (space : String) : (listed space).Each Json.KeysOnce := by
    simp [listed, Json.Each, Json.EachItem, Json.EachMember, Json.KeysOnce]
  have noObject (space : String) : ∀ members, listed space ≠ .obj members :=
    fun _ => Json.noConfusion
  obtain ⟨_, accepts, _, _⟩ :=
    ofJson_of_no_object (once "http://www.w3.org/1999/xlink") (noObject _)
  obtain ⟨_, _, refuses, _⟩ := ofJson_of_no_object (once "urn:x") (noObject _)
  refine ⟨accepts.mp ⟨_, rfl⟩, refuses.mp ⟨_, rfl⟩, ?_⟩
  simp only [List.forall_mem_cons, List.not_mem_nil, false_imp_iff, implies_true, and_true]
  refine ⟨?_, ?_, ?_, ?_⟩ <;>
    exact (ofJson_of_no_object (by simp [Json.Each, Json.EachItem, Json.KeysOnce])
      (fun _ => Json.noConfusion)).2.2.2.mp ⟨_, rfl⟩

/-- The array without values is read as the policy that allows nothing. -/
theorem ofJson_empty_array :
    (∀ members, Json.arr [] ≠ .obj members) ∧
    (ofJson (.arr [])).mapError Failure.ofDecodeFault = .ok {} :=
  ⟨fun _ => Json.noConfusion, rfl⟩

end AllowList.Policy
