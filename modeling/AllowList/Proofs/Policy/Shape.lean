import AllowList.Policy.Decoding
import AllowList.Policy.Encoding
import AllowList.Proofs.Fallible
import AllowList.Proofs.Json.Members
import Mathlib.Data.List.Forall2

/-!
# Reading a policy's parts

The shape of a policy is read member by member. Where no key comes twice, what
the walk ends with is what each field says on its own, and the members that are
no field do not matter.

An entry is read in two passes. `ReadsAs` puts them together: the value has a
shape, and the shape has this meaning. Every entry a policy is written with is
read as what it was written for, whichever of its forms the options chose.
-/

namespace AllowList.Policy

namespace Form

/-- What the members say under a field's key, or the value the field has when
they say nothing. -/
def field {α : Type} (key : String) (members : Json.Members)
    (read : Json → Except ShapeFault α) (missing : α) : Except ShapeFault α :=
  match Json.get? key members with
  | none => .ok missing
  | some value => read value

section field

variable {α : Type} {key : String} {value : Json} {rest : Json.Members}
  {read : Json → Except ShapeFault α} {missing : α}

/-- The member in front tells its own field. -/
theorem field_own : field key ((key, value) :: rest) read missing = read value := by
  simp [field, Json.get?]

/-- The member in front tells nothing about another field. -/
theorem field_other {other : String} (apart : key ≠ other) :
    field other ((key, value) :: rest) read missing = field other rest read missing := by
  simp [field, Json.get?, apart]

/-- A field that nobody tells keeps its value. -/
theorem field_of_get?_eq_none (untold : Json.get? key rest = none) :
    field key rest read missing = .ok missing := by
  simp [field, untold]

/-- A field has a value unless what is told of it cannot be read. -/
theorem exists_field_iff : (∃ result, field key rest read missing = .ok result) ↔
    ∀ value, Json.get? key rest = some value → ∃ result, read value = .ok result := by
  unfold field
  cases Json.get? key rest <;> simp

end field

/-- What members make of a form, told field by field. -/
structure Tells (members : Json.Members) (form result : Form) : Prop where
  elements : field "elements" members formsOf form.elements = .ok result.elements
  globals : field "attributes" members formsOf form.globals = .ok result.globals
  removed : field "removeAttributes" members formsOf form.removed = .ok result.removed
  comments : field "comments" members truthOf form.comments = .ok result.comments
  dataAttributes :
    field "dataAttributes" members truthOf form.dataAttributes = .ok result.dataAttributes

/-- Taking in the front member leaves the rest to be told. If the member is a field's,
the field has its final value, and behind the member it is not told again. -/
theorem Tells.set_front {key : String} {value : Json} {rest : Json.Members} {form result : Form}
    (tells : Tells ((key, value) :: rest) form result) (untold : Json.get? key rest = none) :
    ∃ next, form.set key value = .ok next ∧ Tells rest next result := by
  obtain ⟨elements, globals, removed, comments, dataAttributes⟩ := tells
  by_cases isElements : key = "elements"
  · subst isElements
    rw [field_own] at elements
    rw [field_other (by decide)] at globals removed comments dataAttributes
    refine ⟨{ form with elements := result.elements }, ?_, ?_⟩
    · simp [set, elements, Except.map]
    · exact ⟨field_of_get?_eq_none untold, globals, removed, comments, dataAttributes⟩
  by_cases isGlobals : key = "attributes"
  · subst isGlobals
    rw [field_own] at globals
    rw [field_other (by decide)] at elements removed comments dataAttributes
    refine ⟨{ form with globals := result.globals }, ?_, ?_⟩
    · simp [set, globals, Except.map]
    · exact ⟨elements, field_of_get?_eq_none untold, removed, comments, dataAttributes⟩
  by_cases isRemoved : key = "removeAttributes"
  · subst isRemoved
    rw [field_own] at removed
    rw [field_other (by decide)] at elements globals comments dataAttributes
    refine ⟨{ form with removed := result.removed }, ?_, ?_⟩
    · simp [set, removed, Except.map]
    · exact ⟨elements, globals, field_of_get?_eq_none untold, comments, dataAttributes⟩
  by_cases isComments : key = "comments"
  · subst isComments
    rw [field_own] at comments
    rw [field_other (by decide)] at elements globals removed dataAttributes
    refine ⟨{ form with comments := result.comments }, ?_, ?_⟩
    · simp [set, comments, Except.map]
    · exact ⟨elements, globals, removed, field_of_get?_eq_none untold, dataAttributes⟩
  by_cases isDataAttributes : key = "dataAttributes"
  · subst isDataAttributes
    rw [field_own] at dataAttributes
    rw [field_other (by decide)] at elements globals removed comments
    refine ⟨{ form with dataAttributes := result.dataAttributes }, ?_, ?_⟩
    · simp [set, dataAttributes, Except.map]
    · exact ⟨elements, globals, removed, comments, field_of_get?_eq_none untold⟩
  rw [field_other isElements] at elements
  rw [field_other isGlobals] at globals
  rw [field_other isRemoved] at removed
  rw [field_other isComments] at comments
  rw [field_other isDataAttributes] at dataAttributes
  exact ⟨form, by simp [set], elements, globals, removed, comments, dataAttributes⟩

/-- Members that tell no key twice fill in the form that their fields tell. The induction
takes the members off the front. -/
theorem setAll_eq_ok {form result : Form} {members : Json.Members}
    (once : (members.map Prod.fst).Nodup) (tells : Tells members form result) :
    setAll form members = .ok result := by
  induction members generalizing form with
  | nil =>
    obtain ⟨_, _, _, _, _⟩ := form
    obtain ⟨_, _, _, _, _⟩ := result
    obtain ⟨⟨⟩, ⟨⟩, ⟨⟩, ⟨⟩, ⟨⟩⟩ := tells
    rfl
  | cons member rest ih =>
    obtain ⟨key, value⟩ := member
    obtain ⟨absent, restOnce⟩ := List.nodup_cons.mp once
    obtain ⟨next, set, told⟩ := tells.set_front (Json.get?_eq_none_of_not_mem absent)
    simp only [setAll, List.foldlM_cons, set]
    exact ih restOnce told

/-- Members that were taken in were taken in one by one. -/
theorem set_of_setAll {form result : Form} {members : Json.Members}
    (taken : setAll form members = .ok result) :
    ∀ member ∈ members, ∃ before after, set before member.1 member.2 = .ok after := by
  induction members generalizing form with
  | nil => exact fun _ none => absurd none List.not_mem_nil
  | cons member rest ih =>
    rw [setAll, List.foldlM_cons] at taken
    obtain ⟨next, own, taken⟩ := bind_eq_ok_iff.mp taken
    exact List.forall_mem_cons.mpr ⟨⟨form, next, own⟩, ih taken⟩

/-- And they fill in no other form than the one that their fields tell. -/
theorem setAll_eq_ok_iff {form result : Form} {members : Json.Members}
    (once : (members.map Prod.fst).Nodup) :
    setAll form members = .ok result ↔ Tells members form result := by
  refine ⟨fun taken => ?_, setAll_eq_ok once⟩
  -- Whether a member can be taken in does not depend on the form it is taken into.
  have told {α : Type} (key : String) {read : Json → Except ShapeFault α} (missing : α)
      (own : ∀ before after value, set before key value = .ok after →
        ∃ result, read value = .ok result) :
      ∃ result, field key members read missing = .ok result := by
    refine exists_field_iff.mpr fun value present => ?_
    obtain ⟨before, after, own'⟩ := set_of_setAll taken _ (Json.mem_of_get? present)
    exact own before after value own'
  have mapped {α : Type} {change : α → Form} {outcome : Except ShapeFault α} {after : Form}
      (done : outcome.map change = .ok after) : ∃ result, outcome = .ok result :=
    (map_eq_ok_iff.mp done).imp fun _ => And.left
  obtain ⟨elements, ofElements⟩ := told "elements" form.elements fun _ _ _ => mapped
  obtain ⟨globals, ofGlobals⟩ := told "attributes" form.globals fun _ _ _ => mapped
  obtain ⟨removed, ofRemoved⟩ := told "removeAttributes" form.removed fun _ _ _ => mapped
  obtain ⟨comments, ofComments⟩ := told "comments" form.comments fun _ _ _ => mapped
  obtain ⟨dataAttributes, ofDataAttributes⟩ :=
    told "dataAttributes" form.dataAttributes fun _ _ _ => mapped
  have filled : setAll form members = .ok ⟨elements, globals, removed, comments, dataAttributes⟩ :=
    setAll_eq_ok once ⟨ofElements, ofGlobals, ofRemoved, ofComments, ofDataAttributes⟩
  cases taken.symm.trans filled
  exact ⟨ofElements, ofGlobals, ofRemoved, ofComments, ofDataAttributes⟩

end Form

/-- Both passes over an entry succeed and arrive at the meaning. -/
def ReadsAs {α : Type} (read : EntryForm → Except DecodeFault α) (value : Json) (meaning : α) :
    Prop :=
  ∃ form, EntryForm.ofJson? value = some form ∧ read form = .ok meaning

/-- Entries that are read one by one are read as a list, each pass going over the
whole list. -/
theorem ReadsAs.list {α : Type} {read : EntryForm → Except DecodeFault α} {values : List Json}
    {meanings : List α} (each : List.Forall₂ (ReadsAs read) values meanings) :
    ∃ forms, EntryForm.ofJsons? values = some forms ∧ forms.mapM read = .ok meanings := by
  induction each with
  | nil => exact ⟨[], by simp [EntryForm.ofJsons?], rfl⟩
  | cons first _ ih =>
    obtain ⟨form, shape, meaning⟩ := first
    obtain ⟨forms, shapes, meanings⟩ := ih
    refine ⟨form :: forms, ?_, ?_⟩
    · simp [EntryForm.ofJsons?, shape, shapes]
    · rw [List.mapM_cons, meaning, meanings]
      rfl

/-- Entries written one by one and read one by one are read as they were meant. -/
theorem ReadsAs.map {α : Type} {read : EntryForm → Except DecodeFault α} {write : α → Json}
    (each : ∀ meaning, ReadsAs read (write meaning) meaning) (meanings : List α) :
    ∃ forms, EntryForm.ofJsons? (meanings.map write) = some forms ∧
      forms.mapM read = .ok meanings :=
  ReadsAs.list <| List.forall₂_map_left_iff.mpr <| List.forall₂_same.mpr
    fun meaning _ => each meaning

/-- A namespace is found again under its URI, and null stands for none. -/
@[simp] theorem spaceOf_uri (space : Option Namespace) :
    spaceOf (space.map Namespace.uri) = .ok space := by
  cases space with
  | none => rfl
  | some space => simp [spaceOf]

namespace EntryForm

variable {name text : Option String} {allowed removed : Option (List EntryForm)}
  {rest : Json.Members}

/-- A text under `name` is the name. -/
theorem ofMembers?_name (written : String) :
    ofMembers? name text allowed removed (("name", .str written) :: rest) =
      ofMembers? (some written) text allowed removed rest := rfl

/-- A namespace as a policy writes it tells its URI, or none. -/
theorem ofMembers?_namespace (space : Option Namespace) :
    ofMembers? name text allowed removed (("namespace", spaceJson space) :: rest) =
      ofMembers? name (space.map Namespace.uri) allowed removed rest := by
  cases space <;> rfl

/-- A list of attributes that may be left out tells what shape it has. -/
theorem ofMembers?_attributes {items : Option (List Json)} {forms : Option (List EntryForm)}
    (shape : items.mapM ofJsons? = some forms) :
    ofMembers? name text none removed (optionalMember "attributes" items ++ rest) =
      ofMembers? name text forms removed rest := by
  cases items with
  | none =>
    cases shape
    rfl
  | some items =>
    obtain ⟨shapes, known, rfl⟩ := Option.map_eq_some_iff.mp shape
    simp only [optionalMember, List.cons_append, List.nil_append]
    rw [ofMembers?.eq_def]
    simp [known]

/-- A list of removals that may be left out tells what shape it has. -/
theorem ofMembers?_removals {items : Option (List Json)} {forms : Option (List EntryForm)}
    (shape : items.mapM ofJsons? = some forms) :
    ofMembers? name text allowed none (optionalMember removalsKey items ++ rest) =
      ofMembers? name text allowed forms rest := by
  cases items with
  | none =>
    cases shape
    rfl
  | some items =>
    obtain ⟨shapes, known, rfl⟩ := Option.map_eq_some_iff.mp shape
    simp only [optionalMember, List.cons_append, List.nil_append]
    rw [ofMembers?.eq_def]
    simp [known, removalsKey]

end EntryForm

/-- An entry written out is read member by member: the lists in front of the name
and behind it have shapes of their own or are missing. -/
theorem ofJson?_fullEntry (name : QName) {allowed removed : Option (List Json)}
    {allowedForms removedForms : Option (List EntryForm)}
    (allows : allowed.mapM EntryForm.ofJsons? = some allowedForms)
    (removes : removed.mapM EntryForm.ofJsons? = some removedForms) :
    EntryForm.ofJson? (fullEntry name allowed removed) =
      some (.full name.name (name.space.map Namespace.uri) allowedForms removedForms) := by
  have listed := @EntryForm.ofMembers?_removals (some name.name) (name.space.map Namespace.uri)
    allowedForms [] _ _ removes
  rw [List.append_nil] at listed
  simp only [fullEntry, EntryForm.ofJson?, List.append_assoc, List.cons_append, List.nil_append]
  rw [EntryForm.ofMembers?_attributes allows, EntryForm.ofMembers?_name,
    EntryForm.ofMembers?_namespace, listed]
  rfl

/-- A list of attributes that may be left out is read as these names. -/
def ListReadsAs (items : Option (List Json)) (names : List QName) : Prop :=
  ∃ forms, items.mapM EntryForm.ofJsons? = some forms ∧ attributesOf forms = .ok names

/-- A list left out is read as no names. -/
theorem listReadsAs_none : ListReadsAs none [] :=
  ⟨none, rfl, rfl⟩

/-- A list of entries that are read as names is read as these names. -/
theorem ListReadsAs.of_each {items : List Json} {names : List QName}
    (each : List.Forall₂ (ReadsAs attributeOf) items names) : ListReadsAs (some items) names := by
  obtain ⟨forms, shapes, meanings⟩ := ReadsAs.list each
  refine ⟨some forms, ?_, meanings⟩
  show Option.map some (EntryForm.ofJsons? items) = some (some forms)
  rw [shapes]
  rfl

/-- A name alone is an attribute tied to no namespace. -/
theorem readsAs_bare (name : String) : ReadsAs attributeOf (.str name) (.bare name) :=
  ⟨.bare name, by simp [EntryForm.ofJson?], rfl⟩

/-- An attribute written out in full is read as itself. -/
theorem readsAs_fullEntry (name : QName) : ReadsAs attributeOf (fullEntry name) name := by
  refine ⟨_, ofJson?_fullEntry name rfl rfl, ?_⟩
  simp [attributeOf, Except.map]

/-- An attribute is read as itself from either way of writing it, for the short
one is chosen only when there is no namespace to lose. -/
theorem readsAs_attributeEntry (options : Options) (name : QName) :
    ReadsAs attributeOf (attributeEntry options name) name := by
  unfold attributeEntry
  split
  case isTrue short =>
    obtain ⟨space, name⟩ := name
    simp only [Bool.and_eq_true, Option.isNone_iff_eq_none] at short
    cases short.1
    exact readsAs_bare name
  case isFalse => exact readsAs_fullEntry name

/-- A removal is read as the attribute it removes. -/
theorem readsAs_removalEntry (name : QName) : ReadsAs attributeOf (removalEntry name) name := by
  unfold removalEntry
  split
  case isTrue short =>
    obtain ⟨space, name⟩ := name
    cases Option.isNone_iff_eq_none.mp short
    exact readsAs_bare name
  case isFalse => exact readsAs_fullEntry name

/-- A list of attributes is read as itself. -/
theorem listReadsAs_attributeEntries (options : Options) (names : List QName) :
    ListReadsAs (some (names.map (attributeEntry options))) names :=
  .of_each <| List.forall₂_map_left_iff.mpr <| List.forall₂_same.mpr
    fun name _ => readsAs_attributeEntry options name

/-- A rule written out in full is read as its element with what its lists are read
as. -/
theorem readsAs_rule (name : QName) {allowed removed : Option (List Json)}
    {allows removes : List QName} (allowing : ListReadsAs allowed allows)
    (removing : ListReadsAs removed removes) :
    ReadsAs ruleOf (fullEntry name allowed removed) ⟨name, allows, removes⟩ := by
  obtain ⟨allowedForms, allowedShape, allowedNames⟩ := allowing
  obtain ⟨removedForms, removedShape, removedNames⟩ := removing
  refine ⟨_, ofJson?_fullEntry name allowedShape removedShape, ?_⟩
  simp only [ruleOf, spaceOf_uri, allowedNames, removedNames]
  rfl

/-- An element's rule is read as itself. Whatever is left out, the reader puts back:
the namespace of a bare name is HTML's, and a list left out is empty. -/
theorem readsAs_elementEntry (options : Options) (rule : ElementRule) :
    ReadsAs ruleOf (elementEntry options rule) rule := by
  obtain ⟨name, allowed, removed⟩ := rule
  unfold elementEntry
  split
  case isTrue short =>
    obtain ⟨space, name⟩ := name
    simp only [ElementRule.isCompactable, Bool.and_eq_true, beq_iff_eq, List.isEmpty_iff] at short
    obtain ⟨-, ⟨rfl, rfl⟩, rfl⟩ := short
    exact ⟨.bare name, by simp [EntryForm.ofJson?], rfl⟩
  case isFalse =>
    refine readsAs_rule name ?_ ?_
    · split
      case isTrue omitted =>
        simp only [Bool.and_eq_true, List.isEmpty_iff] at omitted
        exact omitted.2 ▸ listReadsAs_none
      case isFalse => exact listReadsAs_attributeEntries options allowed
    · split
      case isTrue omitted =>
        simp only [List.isEmpty_iff] at omitted
        exact omitted ▸ listReadsAs_none
      case isFalse => exact listReadsAs_attributeEntries options removed

end AllowList.Policy
