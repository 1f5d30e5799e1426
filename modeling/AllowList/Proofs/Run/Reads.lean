import AllowList.Proofs.Run.Outcome
import AllowList.Proofs.Work
import AllowList.Run.Basic

/-!
# What a run does before it writes

Up to its last step a run only reads: from a state it comes to an answer, a value or a
failure, and leaves the state as it is. That holds of looking for a file, of reading one, and
of work, and it holds of actions in sequence when it holds of each. So what a run has made
before it writes is its outcome in the state it began in, and only the last step may change
the state.
-/

namespace AllowList.FileSystem

variable {σ : Type}

section reads

variable {α β : Type} {state : σ}

/-- In a state, actions come to an answer and leave the state as it is. -/
def Reads (state : σ) (actions : ExceptT Failure (StateT σ Logged) α)
    (answer : Except Failure α) : Prop :=
  (actions.run.run state).value = (answer, state)

theorem Reads.pure (value : α) : Reads state (pure value) (.ok value) := rfl

theorem Reads.throw (failure : Failure) :
    Reads state (throw failure : ExceptT Failure (StateT σ Logged) α) (.error failure) := rfl

/-- Actions behind others begin in the state that those leave. -/
theorem value_sequence (actions : ExceptT Failure (StateT σ Logged) α)
    (next : α → ExceptT Failure (StateT σ Logged) β) :
    ((actions >>= next).run.run state).value =
      (((ExceptT.bindCont next (actions.run.run state).value.1).run
        (actions.run.run state).value.2)).value := rfl

/-- Actions behind others go on from their value in the same state, and are not done if there
is none. -/
theorem Reads.bind {actions : ExceptT Failure (StateT σ Logged) α}
    {next : α → ExceptT Failure (StateT σ Logged) β} {answer : Except Failure α}
    {last : α → Except Failure β} (first : Reads state actions answer)
    (second : ∀ value, Reads state (next value) (last value)) :
    Reads state (actions >>= next) (answer >>= last) := by
  rw [Reads, value_sequence, first]
  cases answer with
  | error failure => rfl
  | ok value => exact second value

/-- Behind a value that is known, only what is done with it counts. -/
theorem Reads.behind {actions : ExceptT Failure (StateT σ Logged) α}
    {next : α → ExceptT Failure (StateT σ Logged) β} {value : α} {last : Except Failure β}
    (first : Reads state actions (.ok value)) (second : Reads state (next value) last) :
    Reads state (actions >>= next) last := by
  rw [Reads, value_sequence, first]
  exact second

/-- Actions on the items of a list come to what each comes to, up to the first failure. -/
theorem Reads.mapM {step : α → ExceptT Failure (StateT σ Logged) β}
    {answer : α → Except Failure β} (each : ∀ item, Reads state (step item) (answer item))
    (items : List α) : Reads state (items.mapM step) (items.mapM answer) := by
  induction items with
  | nil => exact .pure []
  | cons item rest ih =>
    rw [List.mapM_cons, List.mapM_cons]
    exact (each item).bind fun value => ih.bind fun values => .pure (value :: values)

/-- Actions on an item that may be missing come to what they come to on the item. -/
theorem Reads.mapM_option {step : α → ExceptT Failure (StateT σ Logged) β}
    {answer : α → Except Failure β} (each : ∀ item, Reads state (step item) (answer item))
    (item : Option α) : Reads state (item.mapM step) (item.mapM answer) := by
  cases item with
  | none => exact .pure none
  | some item => exact (each item).bind fun value => .pure (some value)

end reads

variable {files : FileSystem σ} {system : Option SystemPath} {state : σ}

@[simp] theorem around_read (path : String) :
    (files.around system state).read path = files.read state path := rfl

/-! ## Single actions -/

theorem reads_has (path : String) :
    Reads state ((files.effects system).has path) (.ok (files.has state path)) := rfl

theorem reads_read (path : String) :
    Reads state ((files.effects system).read path) (.ok (files.read state path)) := rfl

/-- Telling records changes no state. -/
theorem value_forM_record (records : List Log.Record) :
    ((records.forM (files.effects system).record).run state).value = ((), state) := by
  induction records with
  | nil => rfl
  | cons record rest ih => exact ih

/-- Work comes to what it comes to in any state. -/
theorem reads_perform {α : Type} {work : Work α} {answer : Except Failure α}
    (comes : work.result = answer) :
    Reads state ((files.effects system).perform work) answer := by
  have sequence : (((files.effects system).perform work).run.run state).value =
      (work.result, ((work.run.records.forM (files.effects system).record).run state).value.2) :=
    rfl
  rw [Reads, sequence, value_forM_record, comes]

/-- Telling a record comes to nothing. -/
theorem reads_tell (level : Log.Level) (message : String) (fields : List (String × String)) :
    Reads state ((files.effects system).perform (Work.tell level message fields)) (.ok ()) :=
  reads_perform rfl

/-! ## Reading what a command is given -/

theorem reads_input (path shown : String) :
    Reads state ((files.effects system).input path shown)
      ((files.around system state).textAt path shown) := by
  refine (reads_read path).behind (reads_perform ?_)
  simp only [Work.result_bind, Work.result_ofExcept, Work.result_tell, Work.result_pure,
    pure_bind, bind_pure, Surroundings.textAt, around_read]

/-- A settings file that must be there is read if it is. -/
theorem reads_settingsAt (path shown : String) :
    Reads state ((files.effects system).settingsAt path shown)
      (if files.has state path then do
        let text ← (files.around system state).textAt path shown
        (Settings.read text).mapError .badConfig
      else .error (.badConfig (.missing shown))) := by
  refine (reads_has path).behind ?_
  by_cases present : files.has state path = true
  · rw [if_pos present, if_pos present]
    refine (reads_input path shown).bind fun text => reads_perform ?_
    simp only [Work.result_bind, Work.result_ofExcept, Work.result_tell, Work.result_pure,
      pure_bind, bind_pure]
  · rw [if_neg present, if_neg present]
    exact .throw _

theorem reads_defaultSettings :
    Reads state (files.effects system).defaultSettings (.ok {}) :=
  reads_perform rfl

/-- Without a settings file under the working directory the system's counts, if it is there. -/
theorem reads_systemSettings (absent : ¬files.has state Surroundings.localPath = true) :
    Reads state (files.effects system).systemSettings
      ((files.around system state).configured none) := by
  have counts : (files.around system state).settingsFile? none =
      system.filter fun own => files.has state own.path := if_neg absent
  rw [Surroundings.configured, counts]
  cases system with
  | none => exact (reads_tell _ _ _).behind reads_defaultSettings
  | some own =>
    refine (reads_has own.path).behind ?_
    rw [Option.filter_some]
    by_cases present : files.has state own.path = true
    · rw [if_pos present, if_pos present]
      exact (reads_tell _ _ _).behind (reads_settingsAt own.path own.shown)
    · rw [if_neg present, if_neg present]
      exact (reads_tell _ _ _).behind reads_defaultSettings

theorem reads_settings (config : Option String) :
    Reads state ((files.effects system).settings config)
      ((files.around system state).configured config) := by
  cases config with
  | some path => exact (reads_tell _ _ _).behind (reads_settingsAt path path)
  | none =>
    refine (reads_has Surroundings.localPath).behind ?_
    by_cases usual : files.has state Surroundings.localPath = true
    · have counts : (files.around system state).settingsFile? none =
          some { path := Surroundings.localPath } := if_pos usual
      rw [if_pos usual, Surroundings.configured, counts]
      exact (reads_tell _ _ _).behind
        (reads_settingsAt Surroundings.localPath Surroundings.localPath)
    · rw [if_neg usual]
      exact reads_systemSettings usual

theorem reads_base (path : Option String) :
    Reads state ((files.effects system).base path) ((files.around system state).baseAt path) := by
  cases path with
  | none => exact .pure []
  | some path =>
    refine (reads_input path path).bind fun text => reads_perform ?_
    rw [Work.result_ofExcept]
    cases readBase text <;> rfl

theorem reads_nameList (path : String) :
    Reads state ((files.effects system).nameList path)
      ((files.around system state).listAt path) :=
  (reads_input path path).bind fun text => reads_perform (NameList.result_loaded none text)

/-! ## Making the artifact -/

theorem reads_compiled (settings : Settings) (request : CompileRequest) :
    Reads state ((files.effects system).compiled settings request)
      (((files.around system state).policyText settings request).map (⟨request.out, ·⟩)) := by
  -- The outcome takes the normal form where the policy is written, the work where it is read.
  have steps : ((files.around system state).policyText settings request).map
        (fun text => Artifact.mk request.out text) =
      (do
        let source ← (files.around system state).textAt request.input
        let policy ← (Policy.compiled (settings.switched request) source).result
        let base ← (files.around system state).baseAt request.base
        let removals ← request.removals.mapM (files.around system state).listAt
        let text ← (policy.rendered (settings.switched request).options base removals).result
        pure ⟨request.out, text⟩) := by
    simp only [Surroundings.policyText, Settings.switched, Policy.result_compiled,
      Policy.result_rendered, Work.map_eq_bind, bind_assoc, pure_bind]
  rw [steps]
  refine (reads_tell _ _ _).behind ?_
  refine (reads_input request.input request.input).bind fun source => ?_
  refine (reads_perform rfl).bind fun policy => ?_
  refine (reads_base request.base).bind fun base => ?_
  refine (Reads.mapM_option reads_nameList request.removals).bind fun removals => ?_
  exact (reads_perform rfl).bind fun text => .pure _

theorem reads_defaults (request : DefaultsRequest) :
    Reads state ((files.effects system).defaults request)
      (((files.around system state).defaultsText request).map (⟨request.out, ·⟩)) := by
  have written (base : Json.Members) (elements attributes : NameList) :
      (DefaultConfig.rendered base elements attributes).value =
        (DefaultConfig.toJson base elements attributes).canonical := by
    unfold DefaultConfig.rendered
    split <;> rfl
  simp only [Surroundings.defaultsText, Work.map_eq_bind, bind_assoc]
  refine (reads_tell _ _ _).behind ?_
  refine (reads_base request.base).bind fun base => ?_
  refine (reads_nameList request.elements).bind fun elements => ?_
  refine (reads_nameList request.attributes).bind fun attributes => ?_
  rw [← written]
  exact (reads_perform rfl).behind (.pure _)

theorem reads_joined (settings : Settings) (request : JoinRequest) :
    Reads state ((files.effects system).joined settings request)
      (((files.around system state).joinText settings request).map (⟨request.out, ·⟩)) := by
  have width : settings.joinWidth request =
      (request.width.map (max 1)).getD settings.width := by
    unfold Settings.joinWidth
    cases request.width with
    | none => rfl
    | some width => exact Nat.max_comm width 1
  simp only [Surroundings.joinText, Work.map_eq_bind, bind_assoc, ← width]
  refine (reads_tell _ _ _).behind ?_
  refine (Reads.mapM reads_nameList request.lists).bind fun lists => ?_
  exact (reads_perform rfl).behind (.pure _)

/-- What a run makes is the outcome of what it can read, at its command's path. -/
theorem reads_artifact (invocation : Invocation) :
    Reads state ((files.effects system).artifact invocation)
      (((files.around system state).outcome invocation).map (⟨invocation.command.out, ·⟩)) := by
  simp only [Surroundings.outcome, Work.map_eq_bind, bind_assoc]
  refine (reads_settings invocation.config).bind fun settings => ?_
  rw [← Work.map_eq_bind]
  cases invocation.command with
  | compile request => exact reads_compiled settings request
  | defaults request => exact reads_defaults request
  | join request => exact reads_joined settings request

/-! ## Writing the artifact -/

/-- What a write leaves is left when an artifact is delivered. -/
theorem value_deliver (command : Command) (artifact : Artifact) :
    (((files.effects system).deliver command artifact).run.run state).value =
      match files.write state artifact.path artifact.text with
      | (true, after) => (.ok (), after)
      | (false, after) => (.error (.unwritable artifact.path), after) := by
  have writes : ((ExceptT.run (liftM ((files.effects system).write artifact.path artifact.text) :
        ExceptT Failure (StateT σ Logged) Bool)).run state).value =
      (.ok (files.write state artifact.path artifact.text).1,
        (files.write state artifact.path artifact.text).2) := rfl
  rw [Effects.deliver, value_sequence, writes]
  obtain ⟨wrote, after⟩ := files.write state artifact.path artifact.text
  cases wrote with
  | false => rfl
  | true => exact reads_perform rfl

/-- A run that comes to no outcome leaves the state as it is, and else writes the outcome and
leaves what the write leaves. -/
theorem value_run (invocation : Invocation) :
    (files.run system invocation state).value =
      match (files.around system state).outcome invocation with
      | .error failure => (.error failure, state)
      | .ok text =>
        match files.write state invocation.command.out text with
        | (true, after) => (.ok (), after)
        | (false, after) => (.error (.unwritable invocation.command.out), after) := by
  rw [run, Effects.run, value_sequence, reads_artifact invocation]
  cases (files.around system state).outcome invocation with
  | error failure => rfl
  | ok text => exact value_deliver invocation.command ⟨invocation.command.out, text⟩

variable {invocation : Invocation} {after : σ}

/-- A run fails with its outcome's failure, or because its outcome cannot be written. -/
theorem value_run_eq_error_iff {failure : Failure} :
    (files.run system invocation state).value = (.error failure, after) ↔
      ((files.around system state).outcome invocation = .error failure ∧ after = state) ∨
        ∃ text, (files.around system state).outcome invocation = .ok text ∧
          files.write state invocation.command.out text = (false, after) ∧
          failure = .unwritable invocation.command.out := by
  rw [value_run]
  cases (files.around system state).outcome invocation with
  | error other => simp [eq_comm]
  | ok text =>
    simp only [reduceCtorEq, false_and, false_or, Except.ok.injEq, exists_eq_left']
    obtain ⟨wrote, next⟩ := files.write state invocation.command.out text
    cases wrote with
    | false => simp [eq_comm, and_comm]
    | true => simp

/-- A run that succeeds writes its outcome. -/
theorem value_run_eq_ok_iff :
    (files.run system invocation state).value = (.ok (), after) ↔
      ∃ text, (files.around system state).outcome invocation = .ok text ∧
        files.write state invocation.command.out text = (true, after) := by
  rw [value_run]
  cases (files.around system state).outcome invocation with
  | error other => simp
  | ok text =>
    simp only [Except.ok.injEq, exists_eq_left']
    obtain ⟨wrote, next⟩ := files.write state invocation.command.out text
    cases wrote with
    | false => simp
    | true => simp

end AllowList.FileSystem
