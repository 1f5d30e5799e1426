import AllowList.Settings

/-!
# Invocations

What a command line asks for: one of three commands with its paths and
switches, and for all of them where the configuration is and how much is told.
-/

namespace AllowList

/-- Compiles a source list into a policy. -/
structure CompileRequest where
  /-- The path of the source list. -/
  input : String
  /-- The path the policy is written to. -/
  out : String
  /-- The path of a base. -/
  base : Option String := none
  /-- The path of a removal list. -/
  removals : Option String := none
  /-- The options that are switched on. -/
  options : Options := {}
  /-- The flags that are switched on. -/
  flags : Flags := {}
  deriving DecidableEq, Repr

/-- Writes a default configuration. -/
structure DefaultsRequest where
  /-- The path the configuration is written to. -/
  out : String
  /-- The path of a base. -/
  base : Option String := none
  /-- The path of the list of elements. -/
  elements : String
  /-- The path of the list of attributes. -/
  attributes : String
  deriving DecidableEq, Repr

/-- Joins name lists. -/
structure JoinRequest where
  /-- The path the joined list is written to. -/
  out : String
  /-- The width, if it is not the configured one. -/
  width : Option Nat := none
  /-- The paths of the lists. -/
  lists : List String
  deriving DecidableEq, Repr

/-- A command. -/
inductive Command where
  | compile (request : CompileRequest)
  | defaults (request : DefaultsRequest)
  | join (request : JoinRequest)
  deriving DecidableEq, Repr

/-- What a command line asks for. -/
structure Invocation where
  command : Command
  /-- The path of the configuration, if it is given. -/
  config : Option String := none
  /-- How much is told. -/
  logLevel : String := "info"
  deriving DecidableEq, Repr

/-- The paths of the files that a command reads. -/
def Command.inputs : Command → List String
  | compile request => request.input :: (request.base.toList ++ request.removals.toList)
  | defaults request => request.base.toList ++ [request.elements, request.attributes]
  | join request => request.lists

namespace Settings

/-- The settings of a compilation: a switch turns its option on and never off. -/
def switched (settings : Settings) (request : CompileRequest) : Settings :=
  { settings with
    options :=
      { sorted := settings.options.sorted || request.options.sorted
        compact := settings.options.compact || request.options.compact
        stripEmpty := settings.options.stripEmpty || request.options.stripEmpty }
    flags :=
      { comments := settings.flags.comments || request.flags.comments
        dataAttributes := settings.flags.dataAttributes || request.flags.dataAttributes } }

/-- The width of a join: the one asked for, at least one, or else the one set. -/
def joinWidth (settings : Settings) (request : JoinRequest) : Nat :=
  match request.width with
  | some width => max width 1
  | none => settings.width

end Settings

end AllowList
