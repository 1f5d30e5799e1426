import AllowList.Failure
import AllowList.Proofs.Policy.Entries

/-!
# Which objects are policies

An object is read as a policy when it has the shape of one, `IsShaped`, and knows the namespaces
that count, `SpacesKnown`. Both say what the object's keys have, and neither says how it is read.
An object without the shape is refused for its shape whatever its namespaces are, and one that has
it is refused only for a namespace.
-/

namespace AllowList.Policy

open Json (Members get?)

/-- The shape of a policy: lists of entries and truth values, each of which may be missing. -/
structure IsShaped (members : Members) : Prop where
  lists : ∀ key ∈ ["elements", "attributes", "removeAttributes"], ∀ value,
    get? key members = some value → ∃ items, value = .arr items ∧ ∀ item ∈ items, IsEntry item
  truths : ∀ key ∈ ["comments", "dataAttributes"], ∀ value,
    get? key members = some value → ∃ truth, value = .bool truth

/-- The namespaces of a policy that count are known: each entry's own and, for an element, those
of the attributes that it lists itself. -/
structure SpacesKnown (members : Members) : Prop where
  own : ∀ key ∈ ["elements", "attributes", "removeAttributes"], ∀ items,
    get? key members = some (.arr items) → ∀ item ∈ items, SpaceKnown item
  listed : ∀ items, get? "elements" members = some (.arr items) →
    ∀ item ∈ items, ListedSpacesKnown item

section shape

variable {members : Members}

/-- A list of entries has their shapes. -/
theorem formsOf_eq_ok_iff {value : Json} {forms : List EntryForm} :
    formsOf value = .ok forms ↔
      ∃ items, value = .arr items ∧ EntryForm.ofJsons? items = some forms := by
  cases value with
  | arr items => cases shapes : EntryForm.ofJsons? items <;> simp [formsOf, shapes]
  | _ => simp [formsOf]

/-- A list is read from its key when it is there as a list of entries, or not at all. -/
theorem exists_field_formsOf_iff (once : (Json.obj members).Each Json.KeysOnce) {key : String} :
    (∃ forms, Form.field key members formsOf [] = .ok forms) ↔
      ∀ value, get? key members = some value →
        ∃ items, value = .arr items ∧ ∀ item ∈ items, IsEntry item := by
  rw [Form.exists_field_iff]
  refine forall₂_congr fun value told => ?_
  simp only [formsOf_eq_ok_iff]
  rw [exists_comm]
  refine exists_congr fun items => ?_
  rw [exists_and_left]
  refine and_congr_right ?_
  rintro rfl
  rw [EntryForm.exists_ofJsons?_iff]
  exact forall₂_congr fun item present => exists_ofJson?_iff (each_of_mem once told item present)

/-- A truth value is read from its key when it is there as one, or not at all. -/
theorem exists_field_truthOf_iff {key : String} :
    (∃ truth, Form.field key members truthOf false = .ok truth) ↔
      ∀ value, get? key members = some value → ∃ truth, value = .bool truth := by
  rw [Form.exists_field_iff]
  refine forall₂_congr fun value _ => ?_
  cases value <;> simp [truthOf]

/-- The members of a policy's shape have one. -/
theorem exists_form_iff (once : (Json.obj members).Each Json.KeysOnce) :
    (∃ form, Form.ofJson (.obj members) = .ok form) ↔ IsShaped members := by
  have tells (form : Form) : Form.ofJson (.obj members) = .ok form ↔
      Form.Tells members {} form := Form.setAll_eq_ok_iff (once.1 members rfl)
  simp only [tells]
  constructor
  · rintro ⟨form, elements, globals, removed, comments, dataAttributes⟩
    constructor
    · simp only [List.forall_mem_cons, List.not_mem_nil, false_imp_iff, implies_true, and_true,
        ← exists_field_formsOf_iff once]
      exact ⟨⟨_, elements⟩, ⟨_, globals⟩, ⟨_, removed⟩⟩
    · simp only [List.forall_mem_cons, List.not_mem_nil, false_imp_iff, implies_true, and_true,
        ← exists_field_truthOf_iff]
      exact ⟨⟨_, comments⟩, ⟨_, dataAttributes⟩⟩
  · rintro ⟨lists, truths⟩
    simp only [List.forall_mem_cons, List.not_mem_nil, false_imp_iff, implies_true, and_true,
      ← exists_field_formsOf_iff once, ← exists_field_truthOf_iff] at lists truths
    obtain ⟨⟨elements, ofElements⟩, ⟨globals, ofGlobals⟩, ⟨removed, ofRemoved⟩⟩ := lists
    obtain ⟨⟨comments, ofComments⟩, ⟨dataAttributes, ofDataAttributes⟩⟩ := truths
    exact ⟨⟨elements, globals, removed, comments, dataAttributes⟩,
      ofElements, ofGlobals, ofRemoved, ofComments, ofDataAttributes⟩

end shape

section spaces

variable {members : Members}

/-- What decides whether an entry is read decides it for the entries under a key. -/
theorem exists_mapM_field_iff (once : (Json.obj members).Each Json.KeysOnce) {α : Type}
    {read : EntryForm → Except DecodeFault α} {known : Json → Prop}
    (each : ∀ value form, value.Each Json.KeysOnce → EntryForm.ofJson? value = some form →
      ((∃ meaning, read form = .ok meaning) ↔ known value))
    {key : String} {forms : List EntryForm}
    (tells : Form.field key members formsOf [] = .ok forms) :
    (∃ meanings, forms.mapM read = .ok meanings) ↔
      ∀ items, get? key members = some (.arr items) → ∀ item ∈ items, known item := by
  unfold Form.field at tells
  cases told : get? key members with
  | none =>
    rw [told] at tells
    cases tells
    simp [pure, Except.pure]
  | some value =>
    rw [told] at tells
    obtain ⟨items, rfl, shapes⟩ := formsOf_eq_ok_iff.mp tells
    simp only [Option.some.injEq, Json.arr.injEq, forall_eq']
    exact exists_mapM_iff each (each_of_mem once told) shapes

/-- A policy's shape is read as a policy when the namespaces that count are known. -/
theorem exists_ofForm_iff (once : (Json.obj members).Each Json.KeysOnce) {form : Form}
    (shape : Form.ofJson (.obj members) = .ok form) :
    (∃ policy, ofForm form = .ok policy) ↔ SpacesKnown members := by
  obtain ⟨elements, globals, removed, _, _⟩ := (Form.setAll_eq_ok_iff (once.1 members rfl)).mp shape
  have rules := exists_mapM_field_iff once (fun _ _ own => exists_ruleOf_iff own) elements
  have allowed := exists_mapM_field_iff once (fun _ _ own => exists_attributeOf_iff own) globals
  have taken := exists_mapM_field_iff once (fun _ _ own => exists_attributeOf_iff own) removed
  have parts : (∃ policy, ofForm form = .ok policy) ↔
      (∃ rules, form.elements.mapM ruleOf = .ok rules) ∧
      (∃ names, form.globals.mapM attributeOf = .ok names) ∧
      ∃ names, form.removed.mapM attributeOf = .ok names := by
    simp only [ofForm, attributesOf, bind_eq_ok_iff, Option.getD_some]
    constructor
    · rintro ⟨_, rules, ruled, allowing, allowed, removing, removed, _⟩
      exact ⟨⟨rules, ruled⟩, ⟨allowing, allowed⟩, removing, removed⟩
    · rintro ⟨⟨rules, ruled⟩, ⟨allowing, allowed⟩, removing, removed⟩
      exact ⟨_, rules, ruled, allowing, allowed, removing, removed, rfl⟩
  rw [parts, rules, allowed, taken]
  constructor
  · rintro ⟨ofElements, ofGlobals, ofRemoved⟩
    refine ⟨?_, fun items told item present => (ofElements items told item present).2⟩
    simp only [List.forall_mem_cons, List.not_mem_nil, false_imp_iff, implies_true, and_true]
    exact ⟨fun items told item present => (ofElements items told item present).1, ofGlobals,
      ofRemoved⟩
  · rintro ⟨own, listed⟩
    exact ⟨fun items told item present =>
      ⟨own "elements" (by simp) items told item present, listed items told item present⟩,
      own "attributes" (by simp), own "removeAttributes" (by simp)⟩

end spaces

/-- Nothing goes wrong with an outcome but an unknown namespace. -/
def SpaceFaults {α : Type} (outcome : Except DecodeFault α) : Prop :=
  ∀ fault, outcome = .error fault → ∃ text, fault = .unknownSpace text

namespace SpaceFaults

variable {α β : Type}

/-- A value is no fault. -/
theorem ok (value : α) : SpaceFaults (.ok value) := by
  intro fault fails
  cases fails

/-- So it is with two steps if it is with each. -/
theorem bind {first : Except DecodeFault α} {next : α → Except DecodeFault β}
    (own : SpaceFaults first) (others : ∀ given, SpaceFaults (next given)) :
    SpaceFaults (first >>= next) := by
  intro fault fails
  rcases bind_eq_error_iff.mp fails with fails | ⟨given, _, fails⟩
  · exact own fault fails
  · exact others given fault fails

/-- So it is with a step on each item of a list. -/
theorem mapM {step : α → Except DecodeFault β} (each : ∀ item, SpaceFaults (step item))
    (items : List α) : SpaceFaults (items.mapM step) := by
  intro fault fails
  obtain ⟨_, item, _, _, _, fails⟩ := mapM_eq_error_iff.mp fails
  exact each item fault fails

end SpaceFaults

/-- A namespace that is looked up is all that can be wrong with it. -/
theorem spaceFaults_spaceOf (space : Option String) : SpaceFaults (spaceOf space) := by
  intro fault fails
  cases space with
  | none => cases fails
  | some text =>
    rw [spaceOf] at fails
    split at fails
    · cases fails
    · cases fails
      exact ⟨text, rfl⟩

theorem spaceFaults_attributeOf (form : EntryForm) : SpaceFaults (attributeOf form) := by
  cases form with
  | bare name => exact .ok _
  | full name space _ _ =>
    intro fault fails
    exact spaceFaults_spaceOf space fault (map_eq_error_iff.mp fails)

theorem spaceFaults_attributesOf (forms : Option (List EntryForm)) :
    SpaceFaults (attributesOf forms) :=
  .mapM spaceFaults_attributeOf _

theorem spaceFaults_ruleOf (form : EntryForm) : SpaceFaults (ruleOf form) := by
  cases form with
  | bare name => exact .ok _
  | full name space allowed removed =>
    refine (spaceFaults_spaceOf space).bind fun _ => ?_
    refine (spaceFaults_attributesOf allowed).bind fun _ => ?_
    exact (spaceFaults_attributesOf removed).bind fun _ => .ok _

/-- Nothing goes wrong with a policy's shape but an unknown namespace. -/
theorem spaceFaults_ofForm (form : Form) : SpaceFaults (ofForm form) := by
  refine (SpaceFaults.mapM spaceFaults_ruleOf form.elements).bind fun _ => ?_
  refine (spaceFaults_attributesOf form.globals).bind fun _ => ?_
  exact (spaceFaults_attributesOf form.removed).bind fun _ => .ok _

/-- An object whose keys are there once is read as a policy exactly when it has the shape of one
and knows the namespaces that count. Without the shape it is refused for the shape, whatever its
namespaces are, and with the shape it is refused for a namespace. -/
theorem ofJson_by_shape_and_spaces {members : Members}
    (once : (Json.obj members).Each Json.KeysOnce) :
    ((∃ policy, (ofJson (.obj members)).mapError Failure.ofDecodeFault = .ok policy) ↔
      IsShaped members ∧ SpacesKnown members) ∧
    ((∃ text, (ofJson (.obj members)).mapError Failure.ofDecodeFault =
        .error (.unknownSpace text)) ↔ IsShaped members ∧ ¬SpacesKnown members) ∧
    ((∃ fault, (ofJson (.obj members)).mapError Failure.ofDecodeFault =
        .error (.badShape fault)) ↔ ¬IsShaped members) := by
  have shaped := exists_form_iff once
  cases shape : Form.ofJson (.obj members) with
  | error fault =>
    have unshaped : ¬IsShaped members := by
      rw [← shaped, shape]
      simp
    simp [ofJson, shape, unshaped, Except.mapError, Failure.ofDecodeFault]
  | ok form =>
    have isShaped : IsShaped members := shaped.mp ⟨form, shape⟩
    rw [← exists_ofForm_iff once shape]
    cases made : ofForm form with
    | ok policy => simp [ofJson, shape, made, isShaped, Except.mapError]
    | error fault =>
      obtain ⟨text, rfl⟩ := spaceFaults_ofForm form fault made
      simp [ofJson, shape, made, isShaped, Except.mapError, Failure.ofDecodeFault]

/-- An object with a truth value, the namespace of an element's attribute, and the namespace of
an attribute that is listed under this one. -/
def nested (comments : Json) (space inner : String) : Members :=
  [("comments", comments),
    ("elements", .arr [.obj [("attributes", .arr [.obj [
      ("attributes", .arr [.obj [("name", .str "c"), ("namespace", .str inner)]]),
      ("name", .str "b"), ("namespace", .str space)]]), ("name", .str "a")]])]

theorem ofJson_by_shape_and_spaces_nested :
    (∀ comments ∈ [Json.bool true, .null], ∀ space inner,
      (Json.obj (nested comments space inner)).Each Json.KeysOnce) ∧
    IsShaped (nested (.bool true) "" "urn:x") ∧ SpacesKnown (nested (.bool true) "" "urn:x") ∧
    ¬SpacesKnown (nested (.bool true) "urn:x" "") ∧
    ∃ fault, (ofJson (.obj (nested .null "urn:x" ""))).mapError Failure.ofDecodeFault =
      .error (.badShape fault) := by
  have once : ∀ comments ∈ [Json.bool true, .null], ∀ space inner,
      (Json.obj (nested comments space inner)).Each Json.KeysOnce := by
    simp [nested, Json.Each, Json.EachItem, Json.EachMember, Json.KeysOnce]
  obtain ⟨accepts, _, _⟩ := ofJson_by_shape_and_spaces (once (.bool true) (by simp) "" "urn:x")
  obtain ⟨_, refuses, _⟩ := ofJson_by_shape_and_spaces (once (.bool true) (by simp) "urn:x" "")
  obtain ⟨_, _, misshapes⟩ := ofJson_by_shape_and_spaces (once .null (by simp) "urn:x" "")
  have known := accepts.mp ⟨_, rfl⟩
  have unknown := refuses.mp ⟨_, rfl⟩
  refine ⟨once, known.1, known.2, unknown.2, misshapes.mpr fun shaped => ?_⟩
  obtain ⟨_, isTruth⟩ := shaped.truths "comments" (by simp) .null rfl
  cases isTruth

end AllowList.Policy
