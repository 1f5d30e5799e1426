import AllowList.Proofs.Policy.Shape

/-!
# Reading a written policy back

A policy that is written and read back is the same policy, whichever form the
options chose for its entries. Only the removals can differ: those of the base
come first, and those of the policy and of a removal list follow, each once and
only if the base does not hold it in the form it is written in.
-/

namespace AllowList.Policy

/-- The entry of a base's removals stands for the attribute: a name alone, or an
object of nothing but a name and a namespace that is null or known. -/
inductive Denotes : Json → QName → Prop where
  | bare (name : String) : Denotes (.str name) (.bare name)
  | unbound (name : String) :
    Denotes (.obj [("name", .str name), ("namespace", .null)]) (.bare name)
  | bound (name uri : String) (space : Namespace) (known : Namespace.ofUri? uri = some space) :
    Denotes (.obj [("name", .str name), ("namespace", .str uri)]) (.within space name)

/-- The base lists these removals, or it has no list and there are none. -/
def BaseLists (base : Json.Members) (listed : List Json) : Prop :=
  Json.get? removalsKey base = some (.arr listed) ∨
    Json.get? removalsKey base = none ∧ listed = []

/-- The names that are written behind removals already listed: the first
occurrences of those whose entry is not among them. -/
def newRemovals (listed : List Json) (names : List QName) : List QName :=
  (names.filter fun name => removalEntry name ∉ listed).eraseDups

/-- An entry has one meaning. -/
theorem ReadsAs.unique {α : Type} {read : EntryForm → Except DecodeFault α} {value : Json}
    {first second : α} (one : ReadsAs read value first) (other : ReadsAs read value second) :
    first = second := by
  obtain ⟨form, shape, meaning⟩ := one
  obtain ⟨otherForm, otherShape, otherMeaning⟩ := other
  cases shape.symm.trans otherShape
  cases meaning.symm.trans otherMeaning
  rfl

/-- Removals of different attributes are written differently, because each is read
back as its own. -/
theorem removalEntry_injective {first second : QName}
    (same : removalEntry first = removalEntry second) : first = second :=
  (readsAs_removalEntry first).unique (same ▸ readsAs_removalEntry second)

/-- What a base's entry stands for is what it is read as. -/
theorem Denotes.readsAs {value : Json} {name : QName} (denotes : Denotes value name) :
    ReadsAs attributeOf value name := by
  cases denotes with
  | bare name => exact readsAs_bare name
  | unbound name => exact readsAs_fullEntry (.bare name)
  | bound name uri space known =>
    refine ⟨.full name (some uri) none none, rfl, ?_⟩
    simp [attributeOf, spaceOf, known, Except.map, QName.within]

/-- A removal that is listed already is not new. -/
theorem newRemovals_cons_of_listed {listed : List Json} {name : QName} (rest : List QName)
    (present : removalEntry name ∈ listed) :
    newRemovals listed (name :: rest) = newRemovals listed rest := by
  simp [newRemovals, present]

/-- A removal that is not listed comes first, and what follows is new behind it. -/
theorem newRemovals_cons_of_not_listed {listed : List Json} {name : QName} (rest : List QName)
    (absent : removalEntry name ∉ listed) :
    newRemovals listed (name :: rest) =
      name :: newRemovals (listed ++ [removalEntry name]) rest := by
  have later (other : QName) : removalEntry other ∉ listed ++ [removalEntry name] ↔
      removalEntry other ∉ listed ∧ other ≠ name := by
    have same : removalEntry other = removalEntry name ↔ other = name :=
      ⟨removalEntry_injective, fun equal => equal ▸ rfl⟩
    simp [same]
  have once : (name :: rest).filter (fun other => removalEntry other ∉ listed) =
      name :: rest.filter fun other => removalEntry other ∉ listed :=
    List.filter_cons_of_pos (by simpa using absent)
  rw [newRemovals, once, List.eraseDups_cons, List.filter_filter, newRemovals]
  refine congrArg (fun names => name :: List.eraseDups names) (List.filter_congr ?_)
  intro other _
  rw [Bool.eq_iff_iff]
  simp only [Bool.and_eq_true, Bool.not_eq_true', beq_eq_false_iff_ne, decide_eq_true_eq, later]
  exact and_comm

/-- Adding removals one by one leaves what is listed in front and puts the entries of
the new ones behind it. The induction takes the names off the front, and what the
first one adds is listed for the rest. -/
theorem foldl_addRemoval (listed : List Json) (names : List QName) :
    names.foldl addRemoval listed = listed ++ (newRemovals listed names).map removalEntry := by
  induction names generalizing listed with
  | nil => simp [newRemovals]
  | cons name rest ih =>
    rw [List.foldl_cons, ih]
    by_cases present : removalEntry name ∈ listed
    · rw [newRemovals_cons_of_listed rest present, addRemoval, if_pos present]
    · rw [newRemovals_cons_of_not_listed rest present, addRemoval, if_neg present]
      simp

/-- Without removals listed before, what is new is every name once. -/
theorem newRemovals_nil (names : List QName) : newRemovals [] names = names.eraseDups := by
  simp [newRemovals]

/-- Names that do not repeat are all new. -/
theorem newRemovals_nil_of_nodup {names : List QName} (once : names.Nodup) :
    newRemovals [] names = names := by
  rw [newRemovals_nil, eraseDups_of_nodup once]

/-- The removals that a base lists are what is taken from it. -/
theorem baseRemovals_eq_ok {base : Json.Members} {listed : List Json}
    (lists : BaseLists base listed) : baseRemovals base = .ok listed := by
  rcases lists with known | ⟨missing, rfl⟩
  · simp [baseRemovals, known]
  · simp [baseRemovals, missing]

/-- What is written over a base that lists removals: the policy's own members, and
all the removals if there are any. -/
theorem toMembers_eq_ok (options : Options) (policy : Policy) {base : Json.Members}
    (removals : Option NameList) {listed : List Json} (ascends : Json.KeysAscend base)
    (lists : BaseLists base listed) :
    ∃ members, policy.toMembers options base removals = .ok members ∧
      Json.KeysAscend members ∧
      (∀ key value, (key, value) ∈ ownMembers options policy →
        Json.get? key members = some value) ∧
      BaseLists members (listed ++ (newRemovals listed
        (policy.removed ++ (removals.map NameList.removals).getD [])).map removalEntry) := by
  have ownAscends : Json.KeysAscend
      (Json.putAll (Json.erase removalsKey base) (ownMembers options policy)) :=
    Json.keysAscend_putAll _ (Json.keysAscend_erase removalsKey ascends)
  have own (key : String) (value : Json) (present : (key, value) ∈ ownMembers options policy) :
      Json.get? key (Json.putAll (Json.erase removalsKey base) (ownMembers options policy)) =
        some value := by
    refine Json.get?_putAll_of_mem _ ?_ present
    simp [ownMembers]
  have free : ∀ member ∈ ownMembers options policy, removalsKey ≠ member.1 := by
    simp [ownMembers, removalsKey]
  have taken : Json.get? removalsKey
      (Json.putAll (Json.erase removalsKey base) (ownMembers options policy)) = none := by
    rw [Json.get?_putAll_of_forall_ne _ _ free, Json.get?_erase, if_pos rfl]
  simp only [toMembers, baseRemovals_eq_ok lists, Except.map, foldl_addRemoval]
  refine ⟨_, rfl, ?_⟩
  split
  case isTrue empty =>
    exact ⟨ownAscends, own, Or.inr ⟨taken, List.isEmpty_iff.mp empty⟩⟩
  case isFalse =>
    refine ⟨Json.keysAscend_put _ _ ownAscends, ?_, Or.inl ?_⟩
    · intro key value present
      rw [Json.get?_put, if_neg (free (key, value) present).symm]
      exact own key value present
    · rw [Json.get?_put, if_pos rfl]

/-- A list under a key is read as its entries' shapes. -/
theorem formsOf_arr {items : List Json} {forms : List EntryForm}
    (shapes : EntryForm.ofJsons? items = some forms) : formsOf (.arr items) = .ok forms := by
  simp [formsOf, shapes]

/-- Members that hold a policy's own values and list removals are read as that policy
with the attributes that the removals stand for. -/
theorem ofJson_of_members {options : Options} {policy : Policy} {members : Json.Members}
    {removals : List Json} {names : List QName} (ascends : Json.KeysAscend members)
    (own : ∀ key value, (key, value) ∈ ownMembers options policy →
      Json.get? key members = some value)
    (lists : BaseLists members removals)
    (each : List.Forall₂ (ReadsAs attributeOf) removals names) :
    ofJson (.obj members) = .ok { policy with removed := names } := by
  obtain ⟨elements, elementShapes, rules⟩ :=
    ReadsAs.map (readsAs_elementEntry options) policy.elements
  obtain ⟨globals, globalShapes, globalNames⟩ :=
    ReadsAs.map (readsAs_attributeEntry options) policy.globals
  obtain ⟨removed, removedShapes, removedNames⟩ := ReadsAs.list each
  have tells {α : Type} {key : String} {value : Json} {read : Json → Except ShapeFault α}
      {missing : α} (present : (key, value) ∈ ownMembers options policy) :
      Form.field key members read missing = read value := by
    simp [Form.field, own key value present]
  have removals : Form.field removalsKey members formsOf [] = .ok removed := by
    rcases lists with known | ⟨untold, rfl⟩
    · simp [Form.field, known, formsOf_arr removedShapes]
    · cases removedShapes
      exact Form.field_of_get?_eq_none untold
  have elementsIn : ("elements", .arr (policy.elements.map (elementEntry options))) ∈
      ownMembers options policy := by simp [ownMembers]
  have globalsIn : ("attributes", .arr (policy.globals.map (attributeEntry options))) ∈
      ownMembers options policy := by simp [ownMembers]
  have commentsIn : ("comments", .bool policy.flags.comments) ∈ ownMembers options policy := by
    simp [ownMembers]
  have dataIn : ("dataAttributes", .bool policy.flags.dataAttributes) ∈
      ownMembers options policy := by simp [ownMembers]
  have shape : Form.ofJson (.obj members) =
      .ok ⟨elements, globals, removed, policy.flags.comments, policy.flags.dataAttributes⟩ :=
    Form.setAll_eq_ok (Json.nodup_of_keysAscend ascends)
      { elements := (tells elementsIn).trans (formsOf_arr elementShapes)
        globals := (tells globalsIn).trans (formsOf_arr globalShapes)
        removed := removals
        comments := tells commentsIn
        dataAttributes := tells dataIn }
  simp only [ofJson, shape, ofForm, rules, attributesOf, Option.getD_some, globalNames,
    removedNames]
  rfl

/-- A policy written over a base that lists removals, and with a removal list, is read
back with its own elements, attributes and flags, whatever its base holds; its
removals are those of the base and then those that are new. -/
theorem ofJson_of_toMembers (options : Options) (policy : Policy) {base : Json.Members}
    (removals : Option NameList) {listed : List Json} {names : List QName}
    (ascends : Json.KeysAscend base) (lists : BaseLists base listed)
    (denotes : List.Forall₂ Denotes listed names) :
    ∃ members, policy.toMembers options base removals = .ok members ∧
      ofJson (.obj members) = .ok { policy with
        removed := names ++ newRemovals listed
          (policy.removed ++ (removals.map NameList.removals).getD []) } := by
  obtain ⟨members, written, ascends, own, lists⟩ :=
    toMembers_eq_ok options policy removals ascends lists
  refine ⟨members, written, ofJson_of_members ascends own lists ?_⟩
  refine List.rel_append (denotes.imp fun _ _ => Denotes.readsAs) ?_
  exact List.forall₂_map_left_iff.mpr <| List.forall₂_same.mpr
    fun name _ => readsAs_removalEntry name

/-- Reading undoes writing over the whole format: for any policy, options, base that
lists entries of a policy as removals, and removal list, writing succeeds and the
value reads back as the policy with the base's removals before its own new ones. On
its own, a policy that repeats no removal comes back as it was, and so does every
policy in normal form. -/
theorem ofJson_toJson (options : Options) (policy : Policy) :
    (∀ (base : Json.Members) (removals : Option NameList) (listed : List Json)
      (names : List QName), Json.KeysAscend base → BaseLists base listed →
      List.Forall₂ Denotes listed names →
      ∃ value, policy.toJson options base removals = .ok value ∧
        ofJson value = .ok { policy with
          removed := names ++ newRemovals listed
            (policy.removed ++ (removals.map NameList.removals).getD []) }) ∧
    (policy.removed.Nodup →
      ∃ value, policy.toJson options [] none = .ok value ∧ ofJson value = .ok policy) ∧
    ∀ normal : Options, ∃ value, (policy.normalize normal).toJson options [] none = .ok value ∧
      ofJson value = .ok (policy.normalize normal) := by
  have alone (policy : Policy) (once : policy.removed.Nodup) :
      ∃ value, policy.toJson options [] none = .ok value ∧ ofJson value = .ok policy := by
    have ascends : Json.KeysAscend [] := trivial
    have lists : BaseLists [] [] := Or.inr ⟨rfl, rfl⟩
    obtain ⟨members, written, read⟩ := ofJson_of_toMembers options policy none ascends lists .nil
    refine ⟨.obj members, by rw [toJson, written]; rfl, ?_⟩
    rw [read]
    simp [newRemovals_nil_of_nodup once]
  refine ⟨?_, alone policy, fun normal => alone (policy.normalize normal) ?_⟩
  · intro base removals listed names ascends lists denotes
    obtain ⟨members, written, read⟩ :=
      ofJson_of_toMembers options policy removals ascends lists denotes
    exact ⟨.obj members, by rw [toJson, written]; rfl, read⟩
  · exact QName.nodup_distinct normal.sorted policy.removed

/-- The base removes `onclick` and `xlink:href`, the policy `onload`, `onclick` and
`onload` again, and an HTML list `style` and `onload`: each is read back once, in the
place where it was first listed, and the base's own flag gives way. -/
theorem ofJson_toJson_over_base :
    ∃ value, toJson { compact := true } [("comments", .bool true), ("removeAttributes", .arr
        [.str "onclick", .obj [("name", .str "href"), ("namespace", .str Namespace.xlink.uri)]])]
        (some ⟨.html, ["style", "onload"]⟩)
        { elements := [⟨.within .html "p", [], []⟩, ⟨.within .svg "a", [.bare "id"], []⟩]
          removed := [.bare "onload", .bare "onclick", .bare "onload"] } = .ok value ∧
      ofJson value = .ok
        { elements := [⟨.within .html "p", [], []⟩, ⟨.within .svg "a", [.bare "id"], []⟩]
          removed := [.bare "onclick", .within .xlink "href", .bare "onload", .bare "style"] } := by
  refine (ofJson_toJson { compact := true } _).1 _ _
    [.str "onclick", .obj [("name", .str "href"), ("namespace", .str Namespace.xlink.uri)]]
    [.bare "onclick", .within .xlink "href"] ?_ (Or.inl rfl) ?_
  · have ascends : Text.order "comments" "removeAttributes" = .lt := by decide
    simp [Json.KeysAscend, ascends]
  · exact .cons (.bare _) (.cons (.bound _ _ _ rfl) .nil)

end AllowList.Policy
