import AllowList.Json.Value
import AllowList.Policy.Basic

/-!
# Policies from JSON

A policy is read back in two passes. The first looks at shapes only: `Form` is
what a well-shaped value says, with namespaces still as text. The second looks
up the namespaces. So a value of the wrong shape is told from one that names an
unknown namespace, and the shape comes first.

The value is an object with members as a policy is written, any of which may
be missing, or an array of the members' values in the order of `fields`, cut
short anywhere. Keys that mean nothing are ignored. Of several faults in an
object, the one under the first key in byte order is told.
-/

namespace AllowList

/-- What was expected where something else was found. -/
inductive Expected where
  | list
  | truth
  | policy
  deriving DecidableEq, Repr

/-- What is wrong with the shape of a value. -/
inductive ShapeFault where
  /-- A value of another kind was found. -/
  | unexpected (found : Json) (expected : Expected)
  /-- A value that is no entry of a policy. -/
  | notAnEntry
  /-- An array with more values than a policy has members. -/
  | tooLong (length : Nat)
  deriving DecidableEq, Repr

/-- Why a value cannot be read as a policy. -/
inductive DecodeFault where
  | shape (fault : ShapeFault)
  | unknownSpace (text : String)
  deriving DecidableEq, Repr

namespace Policy

/-- An entry as its shape tells it. -/
inductive EntryForm where
  /-- A name alone. -/
  | bare (name : String)
  /-- A name, the text of its namespace, and the lists it has. -/
  | full (name : String) (space : Option String) (allowed removed : Option (List EntryForm))
  deriving Repr, Inhabited

/-- A policy as its shape tells it. -/
structure Form where
  elements : List EntryForm := []
  globals : List EntryForm := []
  removed : List EntryForm := []
  comments : Bool := false
  dataAttributes : Bool := false
  deriving Repr, Inhabited

mutual

/-- The shape of an entry, if it has one: a text, or an object with a text
`name`, and perhaps a `namespace` that is a text or null, and lists of entries
or null under `attributes` and `removeAttributes`. -/
def EntryForm.ofJson? : Json → Option EntryForm
  | .str name => some (.bare name)
  | .obj members => EntryForm.ofMembers? none none none none members
  | _ => none

/-- The shape of each of some entries, if all have one. -/
def EntryForm.ofJsons? : List Json → Option (List EntryForm)
  | [] => some []
  | item :: items =>
    match EntryForm.ofJson? item, EntryForm.ofJsons? items with
    | some form, some forms => some (form :: forms)
    | _, _ => none

/-- The shape of an entry, given what the members in front have told. -/
def EntryForm.ofMembers? (name space : Option String) (allowed removed : Option (List EntryForm)) :
    Json.Members → Option EntryForm
  | [] => name.map fun name => .full name space allowed removed
  | (key, value) :: rest =>
    if key = "name" then
      match value with
      | .str text => ofMembers? (some text) space allowed removed rest
      | _ => none
    else if key = "namespace" then
      match value with
      | .str text => ofMembers? name (some text) allowed removed rest
      | .null => ofMembers? name none allowed removed rest
      | _ => none
    else if key = "attributes" then
      match value with
      | .arr items =>
        match EntryForm.ofJsons? items with
        | some forms => ofMembers? name space (some forms) removed rest
        | none => none
      | .null => ofMembers? name space none removed rest
      | _ => none
    else if key = "removeAttributes" then
      match value with
      | .arr items =>
        match EntryForm.ofJsons? items with
        | some forms => ofMembers? name space allowed (some forms) rest
        | none => none
      | .null => ofMembers? name space allowed none rest
      | _ => none
    else ofMembers? name space allowed removed rest

end

/-- A list of entries. -/
def formsOf : Json → Except ShapeFault (List EntryForm)
  | .arr items =>
    match EntryForm.ofJsons? items with
    | some forms => .ok forms
    | none => .error .notAnEntry
  | found => .error (.unexpected found .list)

/-- A truth value. -/
def truthOf : Json → Except ShapeFault Bool
  | .bool value => .ok value
  | found => .error (.unexpected found .truth)

namespace Form

/-- The members of a policy, in the order in which an array gives them. -/
def fields : List String :=
  ["elements", "attributes", "comments", "dataAttributes", "removeAttributes"]

/-- Takes in the value of a member. -/
def set (form : Form) (key : String) (value : Json) : Except ShapeFault Form :=
  match key with
  | "elements" => (formsOf value).map fun elements => { form with elements := elements }
  | "attributes" => (formsOf value).map fun globals => { form with globals := globals }
  | "removeAttributes" => (formsOf value).map fun removed => { form with removed := removed }
  | "comments" => (truthOf value).map fun comments => { form with comments := comments }
  | "dataAttributes" =>
    (truthOf value).map fun dataAttributes => { form with dataAttributes := dataAttributes }
  | _ => .ok form

/-- Takes in members one by one. -/
def setAll (form : Form) (members : Json.Members) : Except ShapeFault Form :=
  members.foldlM (fun form member => form.set member.1 member.2) form

/-- The shape of a policy. -/
def ofJson : Json → Except ShapeFault Form
  | .obj members => setAll {} members
  | .arr items => do
    let form ← setAll {} (fields.zip items)
    if fields.length < items.length then throw (.tooLong items.length)
    return form
  | found => .error (.unexpected found .policy)

end Form

/-- The namespace that an entry's text names; an entry without one is tied to
none. -/
def spaceOf : Option String → Except DecodeFault (Option Namespace)
  | none => .ok none
  | some text =>
    match Namespace.ofUri? text with
    | some space => .ok (some space)
    | none => .error (.unknownSpace text)

/-- An attribute. Lists it may have of its own do not count. -/
def attributeOf : EntryForm → Except DecodeFault QName
  | .bare name => .ok (.bare name)
  | .full name space _ _ => (spaceOf space).map fun space => ⟨space, name⟩

/-- The attributes of a list that may be missing. -/
def attributesOf (forms : Option (List EntryForm)) : Except DecodeFault (List QName) :=
  (forms.getD []).mapM attributeOf

/-- An element's rule; a bare name is an HTML element. -/
def ruleOf : EntryForm → Except DecodeFault ElementRule
  | .bare name => .ok { name := .within .html name }
  | .full name space allowed removed => do
    let space ← spaceOf space
    let allowed ← attributesOf allowed
    let removed ← attributesOf removed
    return { name := ⟨space, name⟩, allowed := allowed, removed := removed }

/-- The policy of a shape: its elements' namespaces are looked up first, then
those of the global attributes and of the removals. -/
def ofForm (form : Form) : Except DecodeFault Policy := do
  let elements ← form.elements.mapM ruleOf
  let globals ← attributesOf form.globals
  let removed ← attributesOf form.removed
  return { elements := elements, globals := globals, removed := removed,
           flags := ⟨form.comments, form.dataAttributes⟩ }

/-- The policy that a JSON value describes. -/
def ofJson (value : Json) : Except DecodeFault Policy :=
  match Form.ofJson value with
  | .error fault => .error (.shape fault)
  | .ok form => ofForm form

end Policy

end AllowList
