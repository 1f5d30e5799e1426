import AllowList.Compiler
import AllowList.Run.Surroundings
import AllowList.Settings.Reader

/-!
# What a run comes to

What an invocation asks for is told by what can be read before it: its `outcome` is the
artifact's text or the first failure on the way there, and no word of the log or of writing
is in it. It depends on the files that the invocation may read, and on no others.
-/

namespace AllowList

/-- The path that a command's artifact is written to. -/
def Command.out : Command → String
  | compile request => request.out
  | defaults request => request.out
  | join request => request.out

namespace Surroundings

section outcome

variable (around : Surroundings)

/-- The text of the file that a path leads to. -/
def textAt (path : String) (shown : String := path) : Except Failure String :=
  (around.read path).mapError (.unreadable shown)

/-- The settings file that counts: the one that is named, or else the first of the usual
ones that is there. -/
def settingsFile? : Option String → Option SystemPath
  | some path => some { path := path }
  | none =>
    if around.has localPath then some { path := localPath }
    else around.system.filter fun system => around.has system.path

/-- The settings of the file that counts, or the defaults if none does. -/
def configured (config : Option String) : Except Failure Settings :=
  match around.settingsFile? config with
  | none => .ok {}
  | some file =>
    if around.has file.path then do
      let text ← around.textAt file.path file.shown
      (Settings.read text).mapError .badConfig
    else .error (.badConfig (.missing file.shown))

/-- The base that a path leads to; without a path there is an empty one. -/
def baseAt : Option String → Except Failure Json.Members
  | none => .ok []
  | some path => around.textAt path >>= readBase

/-- The name list that a path leads to. -/
def listAt (path : String) : Except Failure NameList := do
  let text ← around.textAt path
  (NameList.ofText .html text).mapError fun issue => Failure.ofIssues text [issue]

/-- The text of the policy that a source list compiles to. Each option holds that is
configured or switched on. -/
def policyText (settings : Settings) (request : CompileRequest) : Except Failure String := do
  let options : Options :=
    { sorted := settings.options.sorted || request.options.sorted
      compact := settings.options.compact || request.options.compact
      stripEmpty := settings.options.stripEmpty || request.options.stripEmpty }
  let flags : Flags :=
    { comments := settings.flags.comments || request.flags.comments
      dataAttributes := settings.flags.dataAttributes || request.flags.dataAttributes }
  let source ← around.textAt request.input
  let policy ← (Source.read flags source).value.mapError (Failure.ofIssues source)
  let base ← around.baseAt request.base
  let removals ← request.removals.mapM around.listAt
  let value ← ((policy.normalize options).toJson options base removals).mapError .badBase
  pure value.canonical

/-- The text of the default configuration of two name lists. -/
def defaultsText (request : DefaultsRequest) : Except Failure String := do
  let base ← around.baseAt request.base
  let elements ← around.listAt request.elements
  let attributes ← around.listAt request.attributes
  pure (DefaultConfig.toJson base elements attributes).canonical

/-- The text of joined name lists, of the width that is asked for but at least one, or else
of the configured width. -/
def joinText (settings : Settings) (request : JoinRequest) : Except Failure String := do
  let lists ← request.lists.mapM around.listAt
  let width := (request.width.map (max 1)).getD settings.width
  pure (NameList.joinedText width lists)

/-- The text that an invocation asks for. -/
def outcome (invocation : Invocation) : Except Failure String := do
  let settings ← around.configured invocation.config
  match invocation.command with
  | .compile request => around.policyText settings request
  | .defaults request => around.defaultsText request
  | .join request => around.joinText settings request

end outcome

end Surroundings

/-! ## What the outcome depends on -/

namespace Surroundings

/-- Surroundings in which some paths are read alike, and with one system. -/
structure SameOn (paths : List String) (left right : Surroundings) : Prop where
  has : ∀ path ∈ paths, left.has path = right.has path
  read : ∀ path ∈ paths, left.read path = right.read path
  system : left.system = right.system

section same

variable {paths : List String} {left right : Surroundings} (same : SameOn paths left right)
include same

theorem SameOn.textAt {path : String} (named : path ∈ paths) (shown : String) :
    left.textAt path shown = right.textAt path shown := by
  rw [Surroundings.textAt, Surroundings.textAt, same.read path named]

theorem SameOn.baseAt {path : Option String} (named : ∀ own ∈ path, own ∈ paths) :
    left.baseAt path = right.baseAt path := by
  cases path with
  | none => rfl
  | some path =>
    rw [Surroundings.baseAt, Surroundings.baseAt, same.textAt (named path rfl)]

theorem SameOn.listAt {path : String} (named : path ∈ paths) :
    left.listAt path = right.listAt path := by
  rw [Surroundings.listAt, Surroundings.listAt, same.textAt named]

theorem SameOn.mapM_listAt {lists : List String} (named : ∀ path ∈ lists, path ∈ paths) :
    lists.mapM left.listAt = lists.mapM right.listAt := by
  induction lists with
  | nil => rfl
  | cons path lists ih =>
    obtain ⟨own, others⟩ := List.forall_mem_cons.mp named
    rw [List.mapM_cons, List.mapM_cons, same.listAt own, ih others]

/-- The same settings file counts. -/
theorem SameOn.settingsFile? {config : Option String} (usual : localPath ∈ paths)
    (system : ∀ own ∈ left.system, own.path ∈ paths) :
    left.settingsFile? config = right.settingsFile? config := by
  cases config with
  | some path => rfl
  | none =>
    unfold Surroundings.settingsFile?
    rw [same.has localPath usual, ← same.system]
    dsimp only
    split
    · rfl
    · cases known : left.system with
      | none => rfl
      | some own => rw [Option.filter_some, Option.filter_some, same.has own.path (system own known)]

theorem SameOn.policyText {request : CompileRequest}
    (named : ∀ path ∈ (Command.compile request).inputs, path ∈ paths) (settings : Settings) :
    left.policyText settings request = right.policyText settings request := by
  have source := same.textAt (named request.input (by simp [Command.inputs])) request.input
  have base : left.baseAt request.base = right.baseAt request.base := by
    apply same.baseAt
    intro own given
    exact named own (by simp [Command.inputs, Option.mem_def.mp given])
  have removals : request.removals.mapM left.listAt = request.removals.mapM right.listAt := by
    cases list : request.removals with
    | none => rfl
    | some path =>
      have own := named path (by simp [Command.inputs, list])
      rw [Option.mapM_some, Option.mapM_some, same.listAt own]
  simp only [Surroundings.policyText, source, base, removals]

theorem SameOn.defaultsText {request : DefaultsRequest}
    (named : ∀ path ∈ (Command.defaults request).inputs, path ∈ paths) :
    left.defaultsText request = right.defaultsText request := by
  have base : left.baseAt request.base = right.baseAt request.base := by
    apply same.baseAt
    intro own given
    exact named own (by simp [Command.inputs, Option.mem_def.mp given])
  have elements := same.listAt (named request.elements (by simp [Command.inputs]))
  have attributes := same.listAt (named request.attributes (by simp [Command.inputs]))
  simp only [Surroundings.defaultsText, base, elements, attributes]

theorem SameOn.joinText {request : JoinRequest}
    (named : ∀ path ∈ (Command.join request).inputs, path ∈ paths) (settings : Settings) :
    left.joinText settings request = right.joinText settings request := by
  have lists : request.lists.mapM left.listAt = request.lists.mapM right.listAt :=
    same.mapM_listAt named
  simp only [Surroundings.joinText, lists]

end same

/-- The settings file that counts is one of those that an invocation may read. -/
theorem mem_paths_of_settingsFile? {around : Surroundings} {invocation : Invocation}
    {file : SystemPath} (counts : around.settingsFile? invocation.config = some file) :
    file.path ∈ paths around.system invocation := by
  unfold settingsFile? at counts
  unfold paths
  split at counts
  case h_1 path config =>
    cases counts
    simp [config]
  case h_2 =>
    split at counts
    · cases counts
      simp
    · obtain ⟨system, _⟩ := Option.filter_eq_some_iff.mp counts
      simp [system]

/-- The outcome of an invocation depends on nothing but the files at its paths, and on
whether these are there. -/
theorem outcome_congr {left right : Surroundings} {invocation : Invocation}
    (same : SameOn (paths left.system invocation) left right) :
    left.outcome invocation = right.outcome invocation := by
  have inputs : ∀ path ∈ invocation.command.inputs, path ∈ paths left.system invocation := by
    intro path named
    exact List.mem_append_right _ named
  have usual : localPath ∈ paths left.system invocation := by simp [paths]
  have system : ∀ own ∈ left.system, own.path ∈ paths left.system invocation := by
    intro own given
    simp [paths, Option.mem_def.mp given]
  have configured : left.configured invocation.config = right.configured invocation.config := by
    unfold Surroundings.configured
    rw [← same.settingsFile? usual system]
    cases counts : left.settingsFile? invocation.config with
    | none => rfl
    | some file =>
      have named := mem_paths_of_settingsFile? counts
      dsimp only
      rw [same.has file.path named, same.textAt named]
  unfold outcome
  rw [configured]
  refine congrArg _ (funext fun settings => ?_)
  cases command : invocation.command with
  | compile request => exact same.policyText (command ▸ inputs) settings
  | defaults request => exact same.defaultsText (command ▸ inputs)
  | join request => exact same.joinText (command ▸ inputs) settings

end Surroundings

end AllowList
