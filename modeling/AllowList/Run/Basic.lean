import AllowList.Files.Access
import AllowList.Run.Artifact

/-!
# Runs on files

A file system is a state with three operations: two that read it and one that
writes a file, or fails to. A run passes the state on from action to action, and
what the state is afterwards is told also of a run that fails.

`Files` are such a state, and any other description of a system's files may be one.
-/

namespace AllowList

/-- What can be done with files whose state is described. -/
structure FileSystem (σ : Type) where
  /-- Whether a path leads to something. -/
  has : σ → String → Bool
  /-- The text of the file that a path leads to. -/
  read : σ → String → Except ReadFault String
  /-- Writes a text to the file that a path leads to. The answer is whether that
  worked, and the state afterwards. -/
  write : σ → String → String → Bool × σ

namespace FileSystem

variable {σ : Type} (files : FileSystem σ) (system : Option SystemPath)

/-- What a run can read in a state. -/
def around (state : σ) : Surroundings where
  has := files.has state
  read := files.read state
  system := system

/-- The actions of a run, on a state that is passed on. -/
def effects : Effects (StateT σ Logged) where
  has path := do return files.has (← get) path
  read path := do return files.read (← get) path
  write path text := modifyGet fun state => files.write state path text
  record record := StateT.lift ⟨[record], ()⟩
  system := system

/-- Runs an invocation in a state. It tells records, fails or does not, and in both
cases leaves a state. -/
def run (invocation : Invocation) (state : σ) : Logged (Except Failure Unit × σ) :=
  ((files.effects system).run invocation).run.run state

end FileSystem

/-- Files as a file system. -/
def Files.fileSystem : FileSystem Files where
  has := Files.has
  read := Files.read
  write := Files.write

end AllowList
