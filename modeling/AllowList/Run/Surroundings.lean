import AllowList.Command.Invocation
import AllowList.Failure

/-!
# The surroundings of a run

What a run reads: files by their paths, and the settings. These come from the
one file that the command line names, or else from the first of two usual files
that is there: one under the working directory, and the system's own. Without
any, the defaults hold.
-/

namespace AllowList

/-- Where the system keeps its settings file. -/
structure SystemPath where
  /-- The path it is read by. -/
  path : String
  /-- The path it is told of by. -/
  shown : String := path

/-- What a run can read. -/
structure Surroundings where
  /-- Whether a path leads to something. -/
  has : String → Bool
  /-- The text of the file that a path leads to. -/
  read : String → Except ReadFault String
  /-- The system's settings file, if it is known where that would be. -/
  system : Option SystemPath := none

namespace Surroundings

/-- The settings file under the working directory. -/
def localPath : String :=
  "sieve/config.toml"

/-- The paths that an invocation may read. -/
def paths (system : Option SystemPath) (invocation : Invocation) : List String :=
  invocation.config.toList ++ localPath :: (system.map SystemPath.path).toList ++
    invocation.command.inputs

end Surroundings

end AllowList
