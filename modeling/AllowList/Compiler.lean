import AllowList.DefaultConfig
import AllowList.Failure
import AllowList.Json.Canonical
import AllowList.Json.Reader
import AllowList.NameList.Join
import AllowList.NameList.Reader
import AllowList.Settings
import AllowList.Source.Draft

/-!
# Compiling lists

The pieces of work a run is made of: reading a source list into a normal
policy, reading a name list or a base, and writing a policy or a default
configuration as canonical text. Each tells of what it does, and either gives
its result or fails; what was told before a failure stays told.
-/

namespace AllowList

/-- A piece of work: it tells records, and gives a value or fails. -/
abbrev Work (α : Type) := ExceptT Failure Logged α

namespace Work

/-- Tells one record. -/
def tell (level : Log.Level) (message : String) (fields : List (String × String) := []) :
    Work Unit :=
  ExceptT.lift (Logged.tell level message fields)

/-- Work that only tells. -/
def ofLogged {α : Type} (logged : Logged α) : Work α :=
  ExceptT.lift logged

/-- Work whose faults are turned into failures. -/
def ofFaulty {α ε : Type} (failure : ε → Failure) (logged : Logged (Except ε α)) : Work α :=
  ExceptT.mk ⟨logged.records, logged.value.mapError failure⟩

/-- What may fail without telling anything. -/
def ofExcept {α ε : Type} (failure : ε → Failure) (result : Except ε α) : Work α :=
  ExceptT.mk ⟨[], result.mapError failure⟩

end Work

/-- The number of bytes of a text, in digits. -/
def byteCount (text : String) : String :=
  toString text.utf8ByteSize

namespace Policy

/-- Brings a policy into normal form and tells of it. -/
def normalized (options : Options) (policy : Policy) : Logged Policy := do
  let normal := policy.normalize options
  Logged.tell .debug "Document normalized"
    [("elements_before", toString policy.elements.length),
     ("elements_after", toString normal.elements.length),
     ("sorted", Log.spellBool options.sorted)]
  pure normal

/-- Writes a policy as JSON and tells of it. -/
def encoded (options : Options) (base : Json.Members) (removals : Option NameList)
    (policy : Policy) : Work Json := do
  let members ← Work.ofExcept .badBase (policy.toMembers options base removals)
  Work.tell .debug "Policy object emitted" [("keys", toString members.length)]
  pure (.obj members)

/-- Writes a policy as canonical text. -/
def rendered (options : Options) (base : Json.Members) (removals : Option NameList)
    (policy : Policy) : Work String := do
  let json ← policy.encoded options base removals
  let text := json.canonical
  Work.tell .info "Policy rendered" [("bytes", byteCount text)]
  pure text

/-- Reads back the text of a policy. -/
def reread (text : String) : Work Policy := do
  let json ← Work.ofExcept .badText (Json.read text)
  Work.ofExcept Failure.ofDecodeFault (Policy.ofJson json)

/-- Reads a source list into a policy as it stands. -/
def drafted (flags : Flags) (text : String) : Work Policy :=
  Work.ofFaulty (Failure.ofIssues text) (Source.read flags text)

/-- Reads a source list into a normal policy. -/
def compiled (settings : Settings) (text : String) : Work Policy := do
  Work.tell .info "Parsing source list"
  let policy ← drafted settings.flags text
  let normal ← Work.ofLogged (policy.normalized settings.options)
  Work.tell .debug "Source list compiled"
    [("elements", toString normal.elements.length),
     ("global_attributes", toString normal.globals.length)]
  Work.tell .trace "Normalized document" [("document", Log.spellPolicy normal)]
  pure normal

end Policy

namespace NameList

/-- Reads a name list. -/
def loaded (space : Option Namespace) (text : String) : Work NameList :=
  Work.ofFaulty (fun issue => Failure.ofIssues text [issue]) (NameList.read space text)

end NameList

/-- Reads a base: a JSON object. -/
def readBase (text : String) : Except Failure Json.Members :=
  match Json.read text with
  | .error fault => .error (.badText fault)
  | .ok (.obj members) => .ok members
  | .ok found => .error (.badBase (.notObject found))

namespace DefaultConfig

/-- Writes a default configuration as canonical text. One without elements
allows nothing, which deserves a warning. -/
def rendered (base : Json.Members) (elements attributes : NameList) : Logged String := do
  if elements.names.isEmpty then
    Logged.tell .warn "Element list is empty; the configuration allows no elements"
  Logged.tell .debug "Default configuration emitted"
    [("elements", toString (allowedElements elements).length),
     ("attributes", toString (allowedAttributes attributes).length)]
  let text := (toJson base elements attributes).canonical
  Logged.tell .info "Default configuration rendered" [("bytes", byteCount text)]
  pure text

end DefaultConfig

end AllowList
