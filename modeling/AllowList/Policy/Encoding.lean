import AllowList.Json.Value
import AllowList.NameList.Basic
import AllowList.Policy.Normal

/-!
# Policies as JSON

A policy is written as an object with the members `elements`, `attributes`,
`comments`, `dataAttributes` and, if anything is removed from every element,
`removeAttributes`. An entry is written as an object with its name and its
namespace, which is null for a name tied to none; when a compact form is asked
for, an entry that has nothing but its name to say is written as the name: an
attribute without a namespace, or an HTML element without attributes.

A base object may stand under the policy. Its other members are kept, its own
versions of the first four members give way, and its `removeAttributes` comes
first in the list of removals, followed by those of the policy and of a removal
list that are not in it yet.
-/

namespace AllowList

/-- What may be wrong with a base for a policy. -/
inductive BaseFault where
  /-- The base is no object. -/
  | notObject (found : Json)
  /-- The base's `removeAttributes` is no array. -/
  | removalsNotArray (found : Json)
  deriving DecidableEq, Repr

namespace Policy

/-- The key of the attributes removed from every element, or from one. -/
def removalsKey : String := "removeAttributes"

/-- A namespace as a member: its URI, or null. -/
def spaceJson : Option Namespace → Json
  | none => .null
  | some space => .str space.uri

/-- A member that may be left out. -/
def optionalMember (key : String) : Option (List Json) → Json.Members
  | none => []
  | some items => [(key, .arr items)]

/-- An entry with its name, its namespace and the lists it has. -/
def fullEntry (name : QName) (allowed removed : Option (List Json) := none) : Json :=
  .obj (optionalMember "attributes" allowed ++
    [("name", .str name.name), ("namespace", spaceJson name.space)] ++
    optionalMember removalsKey removed)

/-- An attribute as an entry. -/
def attributeEntry (options : Options) (name : QName) : Json :=
  if name.space.isNone && options.compact then .str name.name else fullEntry name

/-- An attribute removed from every element; without a namespace it is always
written as its name. -/
def removalEntry (name : QName) : Json :=
  if name.space.isNone then .str name.name else fullEntry name

/-- An element's rule as an entry. The list of its attributes is left out only
when it is empty and options say so, the list of removals whenever it is
empty. -/
def elementEntry (options : Options) (rule : ElementRule) : Json :=
  if options.compact && rule.isCompactable then .str rule.name.name
  else
    fullEntry rule.name
      (if options.stripEmpty && rule.allowed.isEmpty then none
        else some (rule.allowed.map (attributeEntry options)))
      (if rule.removed.isEmpty then none else some (rule.removed.map (attributeEntry options)))

/-- The removals that a base lists. -/
def baseRemovals (base : Json.Members) : Except BaseFault (List Json) :=
  match Json.get? removalsKey base with
  | none => .ok []
  | some (.arr items) => .ok items
  | some found => .error (.removalsNotArray found)

/-- Adds a removal behind a list of them, unless it is in the list. -/
def addRemoval (listed : List Json) (name : QName) : List Json :=
  if removalEntry name ∈ listed then listed else listed ++ [removalEntry name]

/-- The members that a policy computes, whatever its base holds. -/
def ownMembers (options : Options) (policy : Policy) : Json.Members :=
  [("elements", .arr (policy.elements.map (elementEntry options))),
   ("attributes", .arr (policy.globals.map (attributeEntry options))),
   ("comments", .bool policy.flags.comments),
   ("dataAttributes", .bool policy.flags.dataAttributes)]

/-- The members of a policy over a base and with a removal list. -/
def toMembers (options : Options) (base : Json.Members) (removals : Option NameList)
    (policy : Policy) : Except BaseFault Json.Members :=
  (baseRemovals base).map fun listed =>
    let names := policy.removed ++ (removals.map NameList.removals).getD []
    let all := names.foldl addRemoval listed
    let members := Json.putAll (Json.erase removalsKey base) (ownMembers options policy)
    if all.isEmpty then members else Json.put removalsKey (.arr all) members

/-- A policy as JSON, over a base and with a removal list. -/
def toJson (options : Options) (base : Json.Members) (removals : Option NameList)
    (policy : Policy) : Except BaseFault Json :=
  (policy.toMembers options base removals).map .obj

end Policy

end AllowList
