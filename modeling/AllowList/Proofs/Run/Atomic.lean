import AllowList.Proofs.Files.Replaced
import AllowList.Proofs.Run.Reads

/-!
# Runs change one file or none

A file system writes a file as a whole or not at all: that much is asked of it here, and no
more. It may refuse to write for reasons of its own, and its paths may lead anywhere.

Then a run that fails leaves all files as they were, and its failure is that of its outcome, or
else the artifact cannot be written. A run that does not fail changes one file: its path leads
there, and what it holds is the outcome of the files before the run, whichever of them was
replaced. `Files` are written in this way.
-/

namespace AllowList

/-- Files are written as a whole or not at all. A state has something at some places, and paths
lead to places. -/
structure FileSystem.WritesWhole {σ Place : Type} (files : FileSystem σ)
    (node? : σ → Place → Option Node) (locate : σ → String → Option Place) : Prop where
  /-- What is read at the end of a path is the text of the file there. -/
  reads : ∀ {state path place text}, locate state path = some place →
    node? state place = some (.file text.toUTF8) → files.read state path = .ok text
  /-- A file that cannot be written leaves everything as it was. -/
  refused : ∀ {state after path text}, files.write state path text = (false, after) →
    ∀ place, node? after place = node? state place
  /-- A file that is written holds the text, its path leads to it, and everything else is as it
  was. -/
  written : ∀ {state after path text}, files.write state path text = (true, after) →
    ∃ place, locate after path = some place ∧ node? after place = some (.file text.toUTF8) ∧
      ∀ other ≠ place, node? after other = node? state other

namespace Files

variable {files after : Files} {path text : String}

/-- Files that cannot be written are left as they are. -/
theorem write_eq_false (refused : files.write path text = (false, after)) : after = files := by
  unfold write at refused
  split at refused
  · cases refused
    rfl
  · split at refused <;> cases refused
    rfl

/-- A file is written by putting it where its path leads. -/
theorem write_eq_true (written : files.write path text = (true, after)) :
    ∃ location, files.target? path = some location ∧
      files.put location (.file text.toUTF8) = after := by
  unfold write at written
  split at written
  case h_1 => cases written
  case h_2 location target =>
    refine ⟨location, target, ?_⟩
    split at written <;> cases written
    rfl

/-- Files are written as a whole or not at all. -/
theorem writesWhole :
    fileSystem.WritesWhole node? fun files path => (files.locate path).toOption where
  reads := by
    intro files path location text leads holds
    cases located : files.locate path with
    | error fault =>
      rw [located] at leads
      cases leads
    | ok own =>
      rw [located] at leads
      cases leads
      exact read_of_node? located holds
  refused := by
    intro files after path text refused location
    rw [write_eq_false refused]
  written := by
    intro files after path text written
    obtain ⟨location, target, rfl⟩ := write_eq_true written
    obtain ⟨parent, name, rfl, leads⟩ := exists_leadsInto target
    refine ⟨parent ++ [name], ?_, node?_put_of_free leads.free, ?_⟩
    · rw [leads.locate_put]
      rfl
    · intro other apart
      exact files.node?_put_of_ne _ apart

/-- Files that are read alike at the paths that a run may read make it come to one outcome. -/
theorem outcome_congr {files others : Files} {system : Option SystemPath}
    {invocation : Invocation}
    (same : ∀ path ∈ Surroundings.paths system invocation, others.read path = files.read path) :
    (fileSystem.around system others).outcome invocation =
      (fileSystem.around system files).outcome invocation := by
  refine Surroundings.outcome_congr ⟨?_, same, rfl⟩
  intro path named
  show others.has path = files.has path
  rw [has_eq_read, has_eq_read, same path named]

end Files

/-- A source list in a directory of its own, beside a base that is none. Nothing may be written
beside the base. The working directory is that of the list. -/
def listed : Files :=
  { nodes := [(["home", "lists", "p.txt"], .file "p\n- class".toUTF8), (["etc"], .directory),
      (["etc", "base.json"], .file "[]".toUTF8)]
    working := ["home", "lists"]
    admits := fun location _ => location.dropLast != ["etc"] }

/-- The list is compiled in place, compactly. It is read by a way that goes up, and written by
one from the root. -/
def inPlace : Invocation :=
  { command := .compile
      { input := "../lists/p.txt", out := "/home/lists//p.txt", options := { compact := true } } }

/-- The list is compiled over the base that is none. -/
def overNoBase : Invocation :=
  { command := .compile
      { input := "p.txt", out := "p.txt", base := some "../../etc/base.json" } }

/-- The list is compiled to a file that may not be written. -/
def unadmitted : Invocation :=
  { command := .compile { input := "/home/lists/p.txt", out := "/etc/p.json" } }

end AllowList
