import AllowList.Json.Value
import AllowList.NameList.Basic

/-!
# The default configuration

A configuration of the older kind is made of two name lists: the elements that
are allowed, each once and in the order listed, and the attributes, each of
which is allowed on any element. A base object may stand under it; its other
members are kept.
-/

namespace AllowList.DefaultConfig

/-- The elements that an attribute is allowed on: any. -/
def anyElement : Json :=
  .arr [.str "*"]

/-- The allowed elements, without repeats. -/
def allowedElements (elements : NameList) : List String :=
  elements.tagged.eraseDups

/-- The allowed attributes by name. -/
def allowedAttributes (attributes : NameList) : Json.Members :=
  Json.putAll [] (attributes.tagged.map fun name => (name, anyElement))

/-- The members of the configuration of two name lists over a base. -/
def toMembers (base : Json.Members) (elements attributes : NameList) : Json.Members :=
  Json.putAll base
    [("allowElements", .arr ((allowedElements elements).map .str)),
     ("allowAttributes", .obj (allowedAttributes attributes))]

/-- The configuration of two name lists over a base, as JSON. -/
def toJson (base : Json.Members) (elements attributes : NameList) : Json :=
  .obj (toMembers base elements attributes)

end AllowList.DefaultConfig
