import AllowList.Files.Path

/-!
# Reading and writing files

A file is read as text or not at all. It is written as a whole: what was at its
location before is replaced only once everything is written, and nothing else
changes. Until then the text is kept in a draft in the same directory. The draft
is reached from the root, through the working directory if the path does not begin
at the root itself, so that the way there must be somewhat shorter than a path may
be.
-/

namespace AllowList.Files

/-- Whether a path leads to something. -/
def has (files : Files) (path : String) : Bool :=
  match files.locate path with
  | .ok _ => true
  | .error _ => false

/-- The text of the file that a path leads to. -/
def read (files : Files) (path : String) : Except ReadFault String :=
  match files.locate path with
  | .error fault => .error fault
  | .ok location =>
    match files.node? location with
    | none => .error .notFound
    | some .directory => .error .isDirectory
    | some (.file content) =>
      match String.fromUTF8? content with
      | some text => .ok text
      | none => .error .notText

/-- The size of the name of a draft, in bytes. -/
def draftNameSize : Nat := 10

/-- The names on the way to the directory of a path, without the slashes and dots
at its end, which lead no further. -/
def wayTo (path : String) : List (List Char) :=
  ((Text.pieces '/' path.toList).dropLast.reverse.dropWhile fun part =>
    part.isEmpty || part == ['.']).reverse

/-- The size of a way, in bytes, with a slash in front of each name. -/
def waySize (way : List (List Char)) : Nat :=
  (String.ofList (way.flatMap ('/' :: ·))).utf8ByteSize

/-- The size of the path of the directory that a file is written into by a path. One
that begins at the root has an empty name in front of its first slash. A dot leads
to the working directory itself. -/
def directorySize (files : Files) (path : String) : Nat :=
  let size := waySize (wayTo path)
  if isAbsolute path then size - 1
  else waySize (files.working.map String.toList) + max 2 size

/-- Whether the path of a draft beside the file that a path leads to is short
enough. -/
def hasDraftRoom (files : Files) (path : String) : Bool :=
  files.directorySize path + (1 + draftNameSize) ≤ pathLimit

/-- The location that a file is written to by a path: the path must end in the
name of a file that is there or could be, in a directory that is there, and leave
room for a draft. -/
def target? (files : Files) (path : String) : Option Location :=
  match pathFault? path, (names path).getLast? with
  | none, some name =>
    if name = "." ∨ name = ".." ∨ nameLimit < name.utf8ByteSize ∨ !files.hasDraftRoom path then none
    else
      match (names path).dropLast.foldlM files.enter (files.origin path) with
      | .error _ => none
      | .ok parent =>
        match files.node? parent, files.node? (parent ++ [name]) with
        | some .directory, some .directory => none
        | some .directory, _ => some (parent ++ [name])
        | _, _ => none
  | _, _ => none

/-- Writes a file. The answer is whether that worked, and the files afterwards. -/
def write (files : Files) (path text : String) : Bool × Files :=
  match files.target? path with
  | none => (false, files)
  | some location =>
    if files.admits location text.toUTF8 then (true, files.put location (.file text.toUTF8))
    else (false, files)

end AllowList.Files
