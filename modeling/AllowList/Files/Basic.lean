/-!
# Files

The files and directories of a system, as far as a run can see them. Each is
known by its location, the names on the way down to it from the root. The working
directory and all directories above it are always there.
-/

namespace AllowList

/-- The names on the way from the root down. -/
abbrev Location := List String

/-- What is at a location. -/
inductive Node where
  | directory
  | file (content : ByteArray)

/-- The files and directories of a system. -/
structure Files where
  /-- What is at each location, but for the way to the working directory. -/
  nodes : List (Location × Node) := []
  /-- The working directory. -/
  working : Location := []
  /-- Whether the system lets a file of some content be written to a location. That
  may depend on permissions and on the room that is left, which are not told here. -/
  admits : Location → ByteArray → Bool := fun _ _ => true

namespace Files

/-- What is at a location, if anything is. -/
def node? (files : Files) (location : Location) : Option Node :=
  if location.isPrefixOf files.working then some .directory
  else (files.nodes.find? fun entry => entry.1 == location).map (·.2)

/-- The files with something put at a location, in place of what was there. -/
def put (files : Files) (location : Location) (node : Node) : Files :=
  { files with
    nodes := (location, node) :: files.nodes.filter fun entry => entry.1 != location }

/-- What is put at a location is there, unless that is on the way to the working
directory. -/
theorem node?_put_self (files : Files) {location : Location} (node : Node)
    (aside : location.isPrefixOf files.working = false) :
    (files.put location node).node? location = some node := by
  simp [node?, put, aside]

/-- What is at any other location stays. -/
theorem node?_put_of_ne (files : Files) {location other : Location} (node : Node)
    (distinct : other ≠ location) : (files.put location node).node? other = files.node? other := by
  unfold node? put
  dsimp only
  split
  · rfl
  · have kept : ∀ nodes : List (Location × Node),
        (nodes.filter fun entry => entry.1 != location).find? (fun entry => entry.1 == other) =
          nodes.find? fun entry => entry.1 == other := by
      intro nodes
      rw [List.find?_filter]
      congr 1
      funext entry
      by_cases found : entry.1 = other <;> simp [found, distinct]
    simp [kept, Ne.symm distinct]

/-- The files with a directory at a location and on the way to it, as far as
there is none yet. -/
def withDirectories (files : Files) (location : Location) : Files :=
  (List.range (location.length + 1)).foldl (fun files count =>
    let front := location.take count
    if (files.node? front).isSome then files else files.put front .directory) files

/-- The files with something at a location and directories on the way to it. -/
def withNode (files : Files) (location : Location) (node : Node) : Files :=
  (files.withDirectories location.dropLast).put location node

end Files

end AllowList
