import AllowList.Proofs.Fallible
import AllowList.Proofs.Json.Arranged
import AllowList.Proofs.Namespace
import AllowList.Proofs.Policy.Shape

/-!
# Which values are entries

`IsEntry` says what an entry of a policy looks like, by what its keys have and without a word
about reading. Exactly such values have the shape of an entry, at any depth of lists within
lists; the keys of every object are taken to be there once.

An entry is then read as an attribute, or as an element's rule, if the namespaces are known that
count for it: its own, and for a rule those of the attributes that it lists itself.
-/

namespace AllowList.Policy

open Json (Members get?)

/-- An entry of a policy: a text, or an object with a text as its name, with a text or null as
its namespace if it has one, and with entries or null in each of the two lists that it may have. -/
inductive IsEntry : Json → Prop where
  | bare (name : String) : IsEntry (.str name)
  | full (members : Members) (name : String) (named : get? "name" members = some (.str name))
      (space : ∀ value, get? "namespace" members = some value →
        value = .null ∨ ∃ text, value = .str text)
      (lists : ∀ key ∈ ["attributes", "removeAttributes"], ∀ value,
        get? key members = some value → value = .null ∨ ∃ items, value = .arr items)
      (entries : ∀ key ∈ ["attributes", "removeAttributes"], ∀ items,
        get? key members = some (.arr items) → ∀ item ∈ items, IsEntry item) :
      IsEntry (.obj members)

/-- A text that is a value's namespace is empty or a known URI. -/
def SpaceKnown (value : Json) : Prop :=
  ∀ members text, value = .obj members → get? "namespace" members = some (.str text) →
    text = "" ∨ ∃ space : Namespace, text = space.uri

/-- The namespaces of the attributes are known that a value lists as allowed or removed. -/
def ListedSpacesKnown (value : Json) : Prop :=
  ∀ members, value = .obj members → ∀ key ∈ ["attributes", "removeAttributes"], ∀ items,
    get? key members = some (.arr items) → ∀ item ∈ items, SpaceKnown item

namespace EntryForm

/-- The name that a value tells. -/
def nameIn : Json → Option (Option String)
  | .str text => some (some text)
  | _ => none

/-- The text of a namespace that a value tells; null tells that there is none. -/
def spaceIn : Json → Option (Option String)
  | .str text => some (some text)
  | .null => some none
  | _ => none

/-- The list that a value tells; null tells that there is none. -/
def formsIn : Json → Option (Option (List EntryForm))
  | .arr items => (ofJsons? items).map some
  | .null => some none
  | _ => none

/-- Members that tell each key once are read key by key: what one does not tell stays as it was.
The induction takes the members off the front, and behind a member its key is not told again. -/
theorem ofMembers?_eq {name space : Option String} {allowed removed : Option (List EntryForm)}
    {members : Members} (once : (members.map Prod.fst).Nodup) :
    ofMembers? name space allowed removed members = (do
      let name ← (get? "name" members).elim (some name) nameIn
      let space ← (get? "namespace" members).elim (some space) spaceIn
      let allowed ← (get? "attributes" members).elim (some allowed) formsIn
      let removed ← (get? "removeAttributes" members).elim (some removed) formsIn
      name.map (full · space allowed removed)) := by
  induction members generalizing name space allowed removed with
  | nil => rfl
  | cons member rest ih =>
    obtain ⟨key, value⟩ := member
    obtain ⟨absent, restOnce⟩ := List.nodup_cons.mp once
    have untold := Json.get?_eq_none_of_not_mem absent
    rw [ofMembers?.eq_def]
    by_cases isName : key = "name"
    · subst isName
      cases value <;> simp [Json.get?, ih restOnce, untold, nameIn]
    by_cases isSpace : key = "namespace"
    · subst isSpace
      cases value <;> simp [Json.get?, ih restOnce, untold, spaceIn]
    by_cases isAllowed : key = "attributes"
    · subst isAllowed
      cases value with
      | arr items =>
        cases shape : ofJsons? items <;> simp [Json.get?, ih restOnce, untold, formsIn, shape]
      | _ => simp [Json.get?, ih restOnce, untold, formsIn]
    by_cases isRemoved : key = "removeAttributes"
    · subst isRemoved
      cases value with
      | arr items =>
        cases shape : ofJsons? items <;> simp [Json.get?, ih restOnce, untold, formsIn, shape]
      | _ => simp [Json.get?, ih restOnce, untold, formsIn]
    simp [Json.get?, ih restOnce, isName, isSpace, isAllowed, isRemoved]

/-- An object has the shape of an entry when it tells a name, and whatever else it tells is what
that key asks for. -/
theorem ofJson?_obj_eq_some_iff {members : Members} (once : (members.map Prod.fst).Nodup)
    {form : EntryForm} :
    ofJson? (.obj members) = some form ↔ ∃ name space allowed removed,
      get? "name" members = some (.str name) ∧
      (get? "namespace" members).elim (some none) spaceIn = some space ∧
      (get? "attributes" members).elim (some none) formsIn = some allowed ∧
      (get? "removeAttributes" members).elim (some none) formsIn = some removed ∧
      form = .full name space allowed removed := by
  have nameTold (name : Option String) :
      (get? "name" members).elim (some none) nameIn = some name ↔
        name = none ∧ get? "name" members = none ∨
          ∃ text, name = some text ∧ get? "name" members = some (.str text) := by
    cases get? "name" members with
    | none => simp [eq_comm]
    | some value => cases value <;> simp [nameIn, eq_comm]
  rw [ofJson?, ofMembers?_eq once]
  simp only [Option.bind_eq_bind, Option.bind_eq_some_iff, nameTold]
  constructor
  · rintro ⟨_, ⟨rfl, _⟩ | ⟨name, rfl, named⟩, space, spaced, allowed, allows, removed, removes,
      made⟩
    · cases made
    · cases made
      exact ⟨name, space, allowed, removed, named, spaced, allows, removes, rfl⟩
  · rintro ⟨name, space, allowed, removed, named, spaced, allows, removes, rfl⟩
    exact ⟨some name, Or.inr ⟨name, rfl, named⟩, space, spaced, allowed, allows, removed,
      removes, rfl⟩

/-- A list has the shapes of its values. -/
theorem ofJsons?_eq_some_iff {items : List Json} {forms : List EntryForm} :
    ofJsons? items = some forms ↔
      List.Forall₂ (fun item form => ofJson? item = some form) items forms := by
  induction items generalizing forms with
  | nil => simp [ofJsons?, eq_comm]
  | cons item rest ih =>
    rw [List.forall₂_cons_left_iff, ofJsons?]
    simp only [← ih]
    cases ofJson? item with
    | none => simp
    | some form => cases ofJsons? rest <;> simp [eq_comm]

/-- A list has shapes when each of its values has one. -/
theorem exists_ofJsons?_iff {items : List Json} :
    (∃ forms, ofJsons? items = some forms) ↔ ∀ item ∈ items, ∃ form, ofJson? item = some form := by
  induction items with
  | nil => simp [ofJsons?]
  | cons item rest ih =>
    rw [List.forall_mem_cons, ← ih, ofJsons?]
    cases ofJson? item <;> cases ofJsons? rest <;> simp

section told

variable {told : Option Json}

/-- A namespace is told by a text, or by null or not at all if there is none. -/
theorem exists_spaceIn_iff :
    (∃ space, told.elim (some none) spaceIn = some space) ↔
      ∀ value, told = some value → value = .null ∨ ∃ text, value = .str text := by
  cases told with
  | none => simp
  | some value => cases value <;> simp [spaceIn]

/-- The text of a namespace is the text that tells it. -/
theorem spaceIn_eq_iff {space : Option String}
    (tells : told.elim (some none) spaceIn = some space) {text : String} :
    space = some text ↔ told = some (.str text) := by
  cases told with
  | none =>
    cases tells
    simp
  | some value => cases value <;> cases tells <;> simp

/-- A list is told by one of shapes, or by null or not at all if there is none. -/
theorem exists_formsIn_iff :
    (∃ forms, told.elim (some none) formsIn = some forms) ↔
      ∀ value, told = some value → value = .null ∨
        ∃ items forms, value = .arr items ∧ ofJsons? items = some forms := by
  cases told with
  | none => simp
  | some value => cases value <;> simp [formsIn]

end told

end EntryForm

section entries

open EntryForm

/-- What a key of an object has keeps a law that holds everywhere in the object. -/
theorem each_of_get? {holds : Json → Prop} {members : Members} {key : String} {value : Json}
    (each : (Json.obj members).Each holds) (told : get? key members = some value) :
    value.Each holds :=
  Json.eachMember_iff.mp each.2 _ (Json.mem_of_get? told)

/-- So does every item of a list that a key has. -/
theorem each_of_mem {holds : Json → Prop} {members : Members} {key : String} {items : List Json}
    (each : (Json.obj members).Each holds) (told : get? key members = some (.arr items)) :
    ∀ item ∈ items, item.Each holds :=
  Json.eachItem_iff.mp (each_of_get? each told).2

/-- An item of a list that a key has is smaller than the object. -/
theorem sizeOf_lt_of_get? {members : Members} {key : String} {items : List Json} {item : Json}
    (told : get? key members = some (.arr items)) (present : item ∈ items) :
    sizeOf item < sizeOf (Json.obj members) := by
  have inList := List.sizeOf_lt_of_mem present
  have inMembers := List.sizeOf_lt_of_mem (Json.mem_of_get? told)
  simp only [Prod.mk.sizeOf_spec, Json.arr.sizeOf_spec] at inMembers
  simp only [Json.obj.sizeOf_spec]
  omega

/-- Every entry has a shape. -/
theorem IsEntry.exists_form {value : Json} (isEntry : IsEntry value)
    (once : value.Each Json.KeysOnce) : ∃ form, ofJson? value = some form := by
  induction isEntry with
  | bare name => exact ⟨.bare name, by simp [ofJson?]⟩
  | full members name named space lists entries ih =>
    have listed : ∀ key ∈ ["attributes", "removeAttributes"],
        ∃ forms, (get? key members).elim (some none) formsIn = some forms := by
      intro key own
      refine exists_formsIn_iff.mpr fun value told => ?_
      refine (lists key own value told).imp_right ?_
      rintro ⟨items, rfl⟩
      obtain ⟨forms, shapes⟩ := exists_ofJsons?_iff.mpr fun item present =>
        ih key own items told item present (each_of_mem once told item present)
      exact ⟨items, forms, rfl, shapes⟩
    obtain ⟨allowed, allows⟩ := listed "attributes" (by simp)
    obtain ⟨removed, removes⟩ := listed "removeAttributes" (by simp)
    obtain ⟨text, spaced⟩ := exists_spaceIn_iff.mpr space
    exact ⟨_, (ofJson?_obj_eq_some_iff (once.1 members rfl)).mpr
      ⟨name, text, allowed, removed, named, spaced, allows, removes, rfl⟩⟩

/-- Only entries have a shape. The induction is on the size of the value, since the entries that
count inside it are items of its members. -/
theorem isEntry_of_ofJson? {value : Json} (once : value.Each Json.KeysOnce) {form : EntryForm}
    (shape : ofJson? value = some form) : IsEntry value := by
  induction size : sizeOf value using Nat.strongRecOn generalizing value form with
  | ind bound ih =>
    subst size
    cases value with
    | str name => exact .bare name
    | null | bool _ | num _ | arr _ => simp [ofJson?] at shape
    | obj members =>
      obtain ⟨name, space, allowed, removed, named, spaced, allows, removes, _⟩ :=
        (ofJson?_obj_eq_some_iff (once.1 members rfl)).mp shape
      have listed : ∀ key ∈ ["attributes", "removeAttributes"],
          ∃ forms, (get? key members).elim (some none) formsIn = some forms := by
        simp [allows, removes]
      refine .full members name named (exists_spaceIn_iff.mp ⟨space, spaced⟩) ?_ ?_
      · intro key own value told
        refine (exists_formsIn_iff.mp (listed key own) value told).imp_right ?_
        rintro ⟨items, _, rfl, _⟩
        exact ⟨items, rfl⟩
      · intro key own items told item present
        rcases exists_formsIn_iff.mp (listed key own) _ told with isNull | ⟨_, forms, same, shapes⟩
        · cases isNull
        · cases same
          obtain ⟨_, known⟩ := exists_ofJsons?_iff.mp ⟨forms, shapes⟩ item present
          exact ih _ (sizeOf_lt_of_get? told present) (each_of_mem once told item present) known rfl

/-- Exactly the entries have a shape. -/
theorem exists_ofJson?_iff {value : Json} (once : value.Each Json.KeysOnce) :
    (∃ form, ofJson? value = some form) ↔ IsEntry value := by
  constructor
  · rintro ⟨form, shape⟩
    exact isEntry_of_ofJson? once shape
  · intro isEntry
    exact isEntry.exists_form once

/-- A namespace is looked up with success if there is none, or a known one. -/
theorem exists_spaceOf_iff {space : Option String} :
    (∃ found, spaceOf space = .ok found) ↔
      ∀ text, space = some text → text = "" ∨ ∃ known : Namespace, text = known.uri := by
  cases space with
  | none => simp [spaceOf]
  | some text =>
    have known : (∃ own, Namespace.ofUri? text = some own) ↔
        text = "" ∨ ∃ own : Namespace, text = own.uri := by
      simp only [Namespace.ofUri?_eq_some_iff, exists_or, exists_and_left, exists_eq, and_true]
    simp only [Option.some.injEq, forall_eq', ← known]
    cases found : Namespace.ofUri? text <;> simp [spaceOf, found]

/-- What the text of a namespace is told by can be looked up when the text can. -/
theorem exists_spaceOf_iff_told {members : Members} {space : Option String}
    (tells : (get? "namespace" members).elim (some none) spaceIn = some space) :
    (∃ found, spaceOf space = .ok found) ↔ SpaceKnown (.obj members) := by
  simp only [exists_spaceOf_iff, spaceIn_eq_iff tells, SpaceKnown, Json.obj.injEq]
  constructor
  · rintro known _ text rfl told
    exact known text told
  · intro known text told
    exact known members text rfl told

/-- An entry is read as an attribute when its own namespace is known. -/
theorem exists_attributeOf_iff {value : Json} (once : value.Each Json.KeysOnce) {form : EntryForm}
    (shape : ofJson? value = some form) :
    (∃ name, attributeOf form = .ok name) ↔ SpaceKnown value := by
  cases value with
  | str name =>
    cases shape
    simp [attributeOf, SpaceKnown]
  | obj members =>
    obtain ⟨name, space, _, _, _, spaced, _, _, rfl⟩ :=
      (ofJson?_obj_eq_some_iff (once.1 members rfl)).mp shape
    rw [← exists_spaceOf_iff_told spaced, attributeOf]
    cases spaceOf space <;> simp [Except.map]
  | null | bool _ | num _ | arr _ => simp [ofJson?] at shape

/-- What decides whether an entry is read decides it for a list of entries. -/
theorem exists_mapM_iff {α : Type} {read : EntryForm → Except DecodeFault α} {known : Json → Prop}
    (each : ∀ value form, value.Each Json.KeysOnce → ofJson? value = some form →
      ((∃ meaning, read form = .ok meaning) ↔ known value))
    {items : List Json} (once : ∀ item ∈ items, item.Each Json.KeysOnce) {forms : List EntryForm}
    (shapes : ofJsons? items = some forms) :
    (∃ meanings, forms.mapM read = .ok meanings) ↔ ∀ item ∈ items, known item := by
  rw [exists_mapM_eq_ok_iff]
  have paired := ofJsons?_eq_some_iff.mp shapes
  clear shapes
  induction paired with
  | nil => simp
  | cons shape _ ih =>
    obtain ⟨own, others⟩ := List.forall_mem_cons.mp once
    rw [List.forall_mem_cons, List.forall_mem_cons]
    exact and_congr (each _ _ own shape) (ih others)

/-- A list that a key may have is read as attributes when the namespace of each is known. -/
theorem exists_attributesOf_iff {members : Members} {key : String}
    (once : (Json.obj members).Each Json.KeysOnce) {forms : Option (List EntryForm)}
    (tells : (get? key members).elim (some none) formsIn = some forms) :
    (∃ names, attributesOf forms = .ok names) ↔
      ∀ items, get? key members = some (.arr items) → ∀ item ∈ items, SpaceKnown item := by
  cases told : get? key members with
  | none =>
    rw [told] at tells
    cases tells
    simp [attributesOf, pure, Except.pure]
  | some value =>
    rw [told] at tells
    cases value with
    | null =>
      cases tells
      simp [attributesOf, pure, Except.pure]
    | arr items =>
      obtain ⟨shapes, known, rfl⟩ := Option.map_eq_some_iff.mp tells
      simp only [Option.some.injEq, Json.arr.injEq, forall_eq']
      exact exists_mapM_iff (fun _ _ own shape => exists_attributeOf_iff own shape)
        (each_of_mem once told) known
    | bool _ | num _ | str _ | obj _ => cases tells

/-- An entry is read as a rule when its own namespace is known and those of the attributes that
it lists. -/
theorem exists_ruleOf_iff {value : Json} (once : value.Each Json.KeysOnce) {form : EntryForm}
    (shape : ofJson? value = some form) :
    (∃ rule, ruleOf form = .ok rule) ↔ SpaceKnown value ∧ ListedSpacesKnown value := by
  cases value with
  | str name =>
    cases shape
    simp [ruleOf, SpaceKnown, ListedSpacesKnown]
  | obj members =>
    obtain ⟨name, space, allowed, removed, _, spaced, allows, removes, rfl⟩ :=
      (ofJson?_obj_eq_some_iff (once.1 members rfl)).mp shape
    have listed : ListedSpacesKnown (.obj members) ↔
        (∃ names, attributesOf allowed = .ok names) ∧
          ∃ names, attributesOf removed = .ok names := by
      rw [exists_attributesOf_iff once allows, exists_attributesOf_iff once removes]
      simp [ListedSpacesKnown]
    rw [← exists_spaceOf_iff_told spaced, listed, ruleOf]
    simp only [bind_eq_ok_iff]
    constructor
    · rintro ⟨_, found, looked, allowing, allowed, removing, removed, _⟩
      exact ⟨⟨found, looked⟩, ⟨allowing, allowed⟩, removing, removed⟩
    · rintro ⟨⟨found, looked⟩, ⟨allowing, allowed⟩, removing, removed⟩
      exact ⟨_, found, looked, allowing, allowed, removing, removed, rfl⟩
  | null | bool _ | num _ | arr _ => simp [ofJson?] at shape

end entries

end AllowList.Policy
