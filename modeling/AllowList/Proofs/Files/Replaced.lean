import AllowList.Files.Access
import Mathlib.Data.List.Infix
import Mathlib.Tactic.SplitIfs

/-!
# What writing a file changes

A path leads through directories, name by name, so at every location that it comes to there
is something. So whether something is at a path can be told from reading it: only some
faults say that nothing is there.

A file is written into a directory. No way leads through the file, neither before nor
afterwards, so what was reached before is still reached. Afterwards its path leads to the
file, what is read there is what was written, and nothing else has changed.
-/

namespace AllowList.Files

variable {files : Files}

/-! ## Ways -/

/-- A location that a path can come to: something is there, and all of the way leads through
directories. -/
def Reached (files : Files) (location : Location) : Prop :=
  (files.node? location).isSome = true ∧
    ∀ front, front <+: location → front ≠ location → files.node? front = some .directory

/-- What is on the way to the working directory is a directory. -/
theorem node?_of_isPrefixOf {location : Location}
    (above : location.isPrefixOf files.working = true) :
    files.node? location = some .directory := if_pos above

theorem reached_root : files.Reached [] := by
  constructor
  · rw [node?_of_isPrefixOf rfl]
    rfl
  · intro front leads proper
    exact absurd (List.prefix_nil.mp leads) proper

theorem reached_working : files.Reached files.working := by
  have above {front : Location} (leads : front <+: files.working) :
      files.node? front = some .directory :=
    node?_of_isPrefixOf (List.isPrefixOf_iff_prefix.mpr leads)
  constructor
  · rw [above (List.prefix_refl _)]
    rfl
  · intro front leads _
    exact above leads

theorem reached_origin (path : String) : files.Reached (files.origin path) := by
  unfold origin
  split
  · exact reached_root
  · exact reached_working

/-- How one goes on from a directory by a name: one stays, goes up, or goes down to
something that is there. -/
inductive Enters (files : Files) (name : String) (location : Location) : Location → Prop
  | stay : name = "." → Enters files name location location
  | rise : name = ".." → Enters files name location location.dropLast
  | descend : name ≠ "." → name ≠ ".." → ¬nameLimit < name.utf8ByteSize →
      (files.node? (location ++ [name])).isSome = true →
      Enters files name location (location ++ [name])

/-- One goes on from directories only. -/
theorem enter_eq_ok_iff {location next : Location} {name : String} :
    files.enter location name = .ok next ↔
      files.node? location = some .directory ∧ files.Enters name location next := by
  constructor
  · intro entered
    unfold enter at entered
    split at entered
    case h_1 => cases entered
    case h_2 => cases entered
    case h_3 directory =>
      refine ⟨directory, ?_⟩
      split_ifs at entered with dot dots long present
      · cases entered
        exact .stay dot
      · cases entered
        exact .rise dots
      · cases entered
        exact .descend dot dots long present
  · rintro ⟨directory, enters⟩
    unfold enter
    rw [directory]
    cases enters with
    | stay dot => simp [dot]
    | rise dots => simp [dots]
    | descend notDot notDots notLong present => simp [notDot, notDots, notLong, present]

/-- Above a location on the way is a location on the way. -/
theorem Reached.dropLast {location : Location} (reached : files.Reached location) :
    files.Reached location.dropLast := by
  cases location with
  | nil => exact reached_root
  | cons first rest =>
    obtain ⟨_, way⟩ := reached
    have leads : (first :: rest).dropLast <+: first :: rest := List.dropLast_prefix _
    have shorter : (first :: rest).dropLast.length < (first :: rest).length := by simp
    constructor
    · rw [way _ leads (fun same => by rw [same] at shorter; omega)]
      rfl
    · intro front onWay _
      apply way front (onWay.trans leads)
      rintro rfl
      have := onWay.length_le
      omega

/-- Going on by a name one comes to a location on a way. -/
theorem Reached.enter {location next : Location} (reached : files.Reached location)
    {name : String} (entered : files.enter location name = .ok next) : files.Reached next := by
  obtain ⟨directory, enters⟩ := enter_eq_ok_iff.mp entered
  cases enters with
  | stay _ => exact reached
  | rise _ => exact reached.dropLast
  | descend _ _ _ present =>
    refine ⟨present, ?_⟩
    intro front leads proper
    rcases List.prefix_concat_iff.mp leads with whole | leads
    · exact absurd whole proper
    · by_cases last : front = location
      · rw [last]
        exact directory
      · exact reached.2 front leads last

/-- Going on by several names one goes on by the first and then by the others. -/
theorem foldlM_enter_cons {location last : Location} {name : String} {names : List String} :
    (name :: names).foldlM files.enter location = .ok last ↔
      ∃ next, files.enter location name = .ok next ∧ names.foldlM files.enter next = .ok last := by
  rw [List.foldlM_cons]
  cases files.enter location name with
  | error fault => simp [bind, Except.bind]
  | ok next => simp [bind, Except.bind]

/-- Going on by several names one comes to a location on a way. -/
theorem Reached.foldlM {location last : Location} (reached : files.Reached location)
    {names : List String} (led : names.foldlM files.enter location = .ok last) :
    files.Reached last := by
  induction names generalizing location with
  | nil =>
    cases led
    exact reached
  | cons name names ih =>
    obtain ⟨next, entered, led⟩ := foldlM_enter_cons.mp led
    exact ih (reached.enter entered) led

/-- Where a path leads is something. -/
theorem reached_of_locate {path : String} {location : Location}
    (located : files.locate path = .ok location) : files.Reached location := by
  unfold locate at located
  split at located
  · cases located
  · exact (reached_origin path).foldlM located

/-! ## Absence -/

theorem isAbsence_of_pathFault? {path : String} {fault : ReadFault}
    (found : pathFault? path = some fault) : fault.isAbsence = true := by
  unfold pathFault? at found
  repeat' split at found
  all_goals cases found
  all_goals rfl

theorem isAbsence_of_enter {location : Location} {name : String} {fault : ReadFault}
    (refused : files.enter location name = .error fault) : fault.isAbsence = true := by
  unfold Files.enter at refused
  repeat' split at refused
  all_goals cases refused
  all_goals rfl

theorem isAbsence_of_foldlM {location : Location} {names : List String} {fault : ReadFault}
    (refused : names.foldlM files.enter location = .error fault) : fault.isAbsence = true := by
  induction names generalizing location with
  | nil => cases refused
  | cons name names ih =>
    rw [List.foldlM_cons] at refused
    cases entered : files.enter location name with
    | error other =>
      rw [entered] at refused
      cases refused
      exact isAbsence_of_enter entered
    | ok next =>
      rw [entered] at refused
      exact ih refused

/-- A path that leads nowhere is told of by a fault that says so. -/
theorem isAbsence_of_locate {path : String} {fault : ReadFault}
    (lost : files.locate path = .error fault) : fault.isAbsence = true := by
  unfold locate at lost
  split at lost
  case h_1 other found =>
    cases lost
    exact isAbsence_of_pathFault? found
  case h_2 => exact isAbsence_of_foldlM lost

/-- Whether a path leads to something is told by reading it. -/
theorem has_eq_read (files : Files) (path : String) :
    files.has path =
      match files.read path with
      | .ok _ => true
      | .error fault => !fault.isAbsence := by
  unfold has read
  cases located : files.locate path with
  | error fault => simp [isAbsence_of_locate located]
  | ok location =>
    obtain ⟨node, present⟩ := Option.isSome_iff_exists.mp (reached_of_locate located).1
    dsimp only
    rw [present]
    cases node with
    | directory => rfl
    | file content =>
      dsimp only
      cases String.fromUTF8? content <;> rfl

/-! ## Writing -/

/-- A path that a file of a name can be written by, into a directory. -/
structure LeadsInto (files : Files) (path : String) (parent : Location) (name : String) :
    Prop where
  faultless : pathFault? path = none
  named : (names path).getLast? = some name
  notDot : name ≠ "."
  notDots : name ≠ ".."
  notLong : ¬nameLimit < name.utf8ByteSize
  way : (names path).dropLast.foldlM files.enter (files.origin path) = .ok parent
  directory : files.node? parent = some .directory
  free : files.node? (parent ++ [name]) ≠ some .directory

/-- A file is written into a directory that its path leads into. -/
theorem exists_leadsInto {path : String} {location : Location}
    (target : files.target? path = some location) :
    ∃ parent name, location = parent ++ [name] ∧ files.LeadsInto path parent name := by
  unfold target? at target
  split at target
  case h_2 => cases target
  case h_1 name faultless named =>
    split at target
    case isTrue => cases target
    case isFalse allowed =>
      simp only [not_or] at allowed
      obtain ⟨notDot, notDots, notLong, _⟩ := allowed
      split at target
      case h_1 => cases target
      case h_2 parent way =>
        split at target
        case h_1 => cases target
        case h_3 => cases target
        case h_2 directory free =>
          cases target
          refine ⟨parent, name, rfl, faultless, named, notDot, notDots, notLong, way, directory, ?_⟩
          intro occupied
          exact free occupied

section put

variable {target : Location} {content : ByteArray}
  (free : files.node? target ≠ some .directory)
include free

/-- What is put where no directory is is there. -/
theorem node?_put_of_free :
    (files.put target (.file content)).node? target = some (.file content) := by
  apply files.node?_put_self
  rw [Bool.eq_false_iff]
  intro above
  exact free (node?_of_isPrefixOf above)

/-- A directory stays one when a file is put elsewhere. -/
theorem node?_put_of_directory {location : Location}
    (directory : files.node? location = some .directory) :
    (files.put target (.file content)).node? location = some .directory := by
  have apart : location ≠ target := by
    rintro rfl
    exact free directory
  exact (files.node?_put_of_ne _ apart).trans directory

/-- What is there stays or is the file that is put. -/
theorem isSome_node?_put {location : Location}
    (present : (files.node? location).isSome = true) :
    ((files.put target (.file content)).node? location).isSome = true := by
  by_cases own : location = target
  · rw [own, node?_put_of_free free]
    rfl
  · rw [files.node?_put_of_ne _ own]
    exact present

/-- Where one could go on by a name, one still can. -/
theorem enter_put {location next : Location} {name : String}
    (entered : files.enter location name = .ok next) :
    (files.put target (.file content)).enter location name = .ok next := by
  obtain ⟨directory, enters⟩ := enter_eq_ok_iff.mp entered
  refine enter_eq_ok_iff.mpr ⟨node?_put_of_directory free directory, ?_⟩
  cases enters with
  | stay dot => exact .stay dot
  | rise dots => exact .rise dots
  | descend notDot notDots notLong present =>
    exact .descend notDot notDots notLong (isSome_node?_put free present)

/-- Where a way led before, it still leads. -/
theorem foldlM_enter_put {location last : Location} {names : List String}
    (led : names.foldlM files.enter location = .ok last) :
    names.foldlM (files.put target (.file content)).enter location = .ok last := by
  induction names generalizing location with
  | nil => exact led
  | cons name names ih =>
    obtain ⟨next, entered, led⟩ := foldlM_enter_cons.mp led
    exact foldlM_enter_cons.mpr ⟨next, enter_put free entered, ih led⟩

end put

/-- Once its file is put there, a path leads to the file. -/
theorem LeadsInto.locate_put {path : String} {parent : Location} {name : String}
    (leads : files.LeadsInto path parent name) (content : ByteArray) :
    (files.put (parent ++ [name]) (.file content)).locate path = .ok (parent ++ [name]) := by
  obtain ⟨faultless, named, notDot, notDots, notLong, way, directory, free⟩ := leads
  have whole : (names path).dropLast ++ [name] = names path :=
    List.dropLast_append_getLast? name named
  have begins : (files.put (parent ++ [name]) (.file content)).origin path = files.origin path :=
    rfl
  have entered : (files.put (parent ++ [name]) (.file content)).enter parent name =
      .ok (parent ++ [name]) := by
    refine enter_eq_ok_iff.mpr ⟨node?_put_of_directory free directory, ?_⟩
    exact .descend notDot notDots notLong
      (Option.isSome_iff_exists.mpr ⟨_, node?_put_of_free free⟩)
  rw [locate, faultless, ← whole, begins]
  dsimp only
  rw [List.foldlM_append, foldlM_enter_put free way]
  exact foldlM_enter_cons.mpr ⟨_, entered, rfl⟩

/-- What is read of a file is its text. -/
theorem read_of_node? {path : String} {location : Location} {text : String}
    (located : files.locate path = .ok location)
    (holds : files.node? location = some (.file text.toUTF8)) : files.read path = .ok text := by
  have spelled : String.fromUTF8? text.toUTF8 = some text := dif_pos text.isValidUTF8
  rw [read, located]
  dsimp only
  rw [holds]
  dsimp only
  rw [spelled]

end AllowList.Files
