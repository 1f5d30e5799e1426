import AllowList.Run.Effects

/-!
# Artifacts

A run makes one artifact: the text that its command asks for and the path it is
to be written to. Everything is read before the artifact is complete, and
nothing is written until then, so that what it holds depends on the files as
they were, its own path included.
-/

namespace AllowList

/-- What a run makes. -/
structure Artifact where
  /-- The path it is written to. -/
  path : String
  text : String
  deriving DecidableEq, Repr

/-- What is said once an artifact is written. -/
def Command.success : Command → String
  | compile _ => "Policy written successfully"
  | defaults _ => "Default configuration written successfully"
  | join _ => "Joined list written successfully"

/-- Tells that the artifact of a command is written. -/
def Artifact.announce (artifact : Artifact) (command : Command) : Logged Unit := do
  Logged.tell .debug "Artifact written"
    [("path", Text.quoted artifact.path), ("bytes", byteCount artifact.text)]
  Logged.tell .info command.success [("output_file", artifact.path)]

namespace Effects

variable {m : Type → Type} [Monad m] (effects : Effects m)

/-- Compiles a source list into a policy. -/
def compiled (settings : Settings) (request : CompileRequest) : ExceptT Failure m Artifact := do
  effects.perform (Work.tell .info "Compiling source list"
    [("input_path", request.input), ("output_path", request.out)])
  let settings := settings.switched request
  let source ← effects.input request.input
  let policy ← effects.perform (Policy.compiled settings source)
  let base ← effects.base request.base
  let removals ← request.removals.mapM effects.nameList
  let text ← effects.perform (policy.rendered settings.options base removals)
  pure ⟨request.out, text⟩

/-- Makes a default configuration. -/
def defaults (request : DefaultsRequest) : ExceptT Failure m Artifact := do
  effects.perform (Work.tell .info "Building default configuration"
    [("elements_path", request.elements), ("attributes_path", request.attributes),
     ("output_path", request.out)])
  let base ← effects.base request.base
  let elements ← effects.nameList request.elements
  let attributes ← effects.nameList request.attributes
  let text ← effects.perform (Work.ofLogged (DefaultConfig.rendered base elements attributes))
  pure ⟨request.out, text⟩

/-- Joins name lists. -/
def joined (settings : Settings) (request : JoinRequest) : ExceptT Failure m Artifact := do
  effects.perform (Work.tell .info "Joining name lists"
    [("lists", toString request.lists.length), ("output_path", request.out)])
  let lists ← request.lists.mapM effects.nameList
  let text ← effects.perform
    (Work.ofLogged (NameList.writeJoined (settings.joinWidth request) lists))
  pure ⟨request.out, text⟩

/-- Makes what an invocation asks for. -/
def artifact (invocation : Invocation) : ExceptT Failure m Artifact := do
  let settings ← effects.settings invocation.config
  match invocation.command with
  | .compile request => effects.compiled settings request
  | .defaults request => effects.defaults request
  | .join request => effects.joined settings request

/-- Writes the artifact of a command, and tells of it. -/
def deliver (command : Command) (artifact : Artifact) : ExceptT Failure m Unit := do
  if ← effects.write artifact.path artifact.text then
    effects.perform (Work.ofLogged (artifact.announce command))
  else throw (.unwritable artifact.path)

/-- Runs an invocation: makes what it asks for, and writes that. -/
def run (invocation : Invocation) : ExceptT Failure m Unit := do
  let artifact ← effects.artifact invocation
  effects.deliver invocation.command artifact

end Effects

end AllowList
