import AllowList.Failure
import AllowList.Files.Basic
import AllowList.Text.Rows

/-!
# Paths

A path names a location by the names on the way, with slashes between them. The
way begins at the root if the path begins with a slash, and else at the working
directory. A single dot stays where it is and two dots go up; a slash at the end
asks for a directory, as a dot behind it would. Every name but the last must be a
directory's.
-/

namespace AllowList.Files

/-- The longest name, in bytes. -/
def nameLimit : Nat := 255

/-- The longest path, in bytes. -/
def pathLimit : Nat := 4095

/-- Whether a path begins at the root of all files. -/
def isAbsolute (path : String) : Bool :=
  path.toList.head? == some '/'

/-- The names of a path, with a dot for a slash at its end. -/
def names (path : String) : List String :=
  let parts := (Text.pieces '/' path.toList).map String.ofList
  let inner := parts.filter fun part => !part.isEmpty
  if path.toList.getLast? = some '/' then inner ++ ["."] else inner

/-- Goes on from a location by one name. Nothing is above the root. -/
def enter (files : Files) (location : Location) (name : String) : Except ReadFault Location :=
  match files.node? location with
  | none => .error .notFound
  | some (.file _) => .error .notDirectory
  | some .directory =>
    if name = "." then .ok location
    else if name = ".." then .ok location.dropLast
    else if nameLimit < name.utf8ByteSize then .error .nameTooLong
    else if (files.node? (location ++ [name])).isSome then .ok (location ++ [name])
    else .error .notFound

/-- Why a path leads nowhere, whatever files there are. -/
def pathFault? (path : String) : Option ReadFault :=
  if path.toList.any (·.toNat = 0) then some .nulInPath
  else if path.isEmpty then some .notFound
  else if pathLimit < path.utf8ByteSize then some .nameTooLong
  else none

/-- Where a path begins. -/
def origin (files : Files) (path : String) : Location :=
  if isAbsolute path then [] else files.working

/-- The location that a path leads to. -/
def locate (files : Files) (path : String) : Except ReadFault Location :=
  match pathFault? path with
  | some fault => .error fault
  | none => (names path).foldlM files.enter (files.origin path)

end AllowList.Files
