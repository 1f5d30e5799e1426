import AllowList.Proofs.Fallible
import AllowList.Proofs.NameList.Loaded
import AllowList.Proofs.Run.Reads
import AllowList.Proofs.Source.Issues

/-!
# What is reported of a failure

No failure is silent. What is about a list comes with the text that was being read and with at
least one error, and each error is reported by itself, in order, and points into that text.

A command reads its lists one behind the other, `Command.lists`. When a run fails because a list
is refused, that is the first of them that is not taken, and no list behind it was looked at.
-/

namespace AllowList

/-- A report tells a diagnostic in full, and comes with a text. -/
structure Report.Tells (report : Report) (diagnostic : Diagnostic) : Prop where
  message : report.message = diagnostic.message
  code : report.code = diagnostic.code.map Code.text
  severity : report.severity = some diagnostic.severity
  labels : report.labels = diagnostic.labels
  help : report.help = diagnostic.help
  hasSource : report.hasSource = true

/-- A label lies within a text, and its length is the distance between its ends. -/
structure Label.Within (label : Label) (text : String) : Prop where
  ordered : label.span.start ≤ label.span.stop
  inside : label.span.start + label.span.length ≤ text.utf8ByteSize

/-- What is said of further errors behind the first one. -/
def furtherErrors (count : Nat) : String :=
  if count = 0 then "" else " (+" ++ toString count ++ " more)"

/-- A text is refused for reasons, and they are reported: there is an error among them, there is a
report for each error, in order, and none for a warning, each label lies within the text, and the
failure as a whole is told by its first error and the number of the others. -/
structure Refusal (diagnostics : List Diagnostic) (text : String) : Prop where
  erroneous : ∃ diagnostic ∈ diagnostics, diagnostic.severity = .error
  reports : List.Forall₂ Report.Tells (Failure.refused diagnostics text).reports
    (diagnostics.filter (·.severity = .error))
  within : ∀ report ∈ (Failure.refused diagnostics text).reports, ∀ label ∈ report.labels,
    label.Within text
  message : ∀ first more, diagnostics.filter (·.severity = .error) = first :: more →
    (Failure.refused diagnostics text).message = first.display ++ furtherErrors more.length

/-- A list that a command reads, by its path. -/
inductive Listed where
  /-- A source list. -/
  | source (path : String)
  /-- A name list. -/
  | names (path : String)

/-- The path of a list. -/
def Listed.path : Listed → String
  | source path | names path => path

/-- What the text of a list comes to, but for what is read of it. -/
def Listed.taken (settings : Settings) (text : String) : Listed → Except Failure Unit
  | source _ => (Policy.compiled settings text).result.map fun _ => ()
  | names _ => (NameList.loaded none text).result.map fun _ => ()

/-- The lists that a command reads, in their order. -/
def Command.lists : Command → List Listed
  | compile request => .source request.input :: request.removals.toList.map .names
  | defaults request => [.names request.elements, .names request.attributes]
  | join request => request.lists.map .names

/-- The settings under which a command reads its lists. -/
def Command.settled (settings : Settings) : Command → Settings
  | compile request => settings.switched request
  | defaults _ | join _ => settings

/-- The text of the first list that is not taken. The lists in front of it are read and taken, and
its own text, which is read from its path, comes to the failure. -/
def FirstRefused (around : Surroundings) (settings : Settings) (lists : List Listed)
    (text : String) (failure : Failure) : Prop :=
  ∃ front list back, lists = front ++ list :: back ∧
    (∀ earlier ∈ front, ∃ own, around.read earlier.path = .ok own ∧
      earlier.taken settings own = .ok ()) ∧
    around.read list.path = .ok text ∧ list.taken settings text = .error failure

section refusal

variable {diagnostics : List Diagnostic} {text : String}

/-- The errors are what weighs as an error. -/
theorem errors_eq_filter : Diagnostic.errors diagnostics =
    diagnostics.filter (·.severity = .error) := rfl

/-- A failure is told by its first error and the number of the others. -/
theorem summary_of_errors {first : Diagnostic} {more : List Diagnostic}
    (errors : diagnostics.filter (·.severity = .error) = first :: more) :
    Diagnostic.summary diagnostics = first.display ++ furtherErrors more.length := by
  rw [Diagnostic.summary, errors_eq_filter, errors]
  cases more with
  | nil => simp [furtherErrors]
  | cons second others => simp [furtherErrors, String.append_assoc]

/-- A label that cuts out a part lies within the text. -/
theorem Label.within_of_cuts {label : Label} {part : List Char}
    (cuts : label.span.Cuts text part) : label.Within text := by
  refine ⟨cuts.ordered, ?_⟩
  rw [Span.length, Nat.add_sub_cancel' cuts.ordered]
  exact cuts.inside

/-- A text with an error and with issues whose labels cut parts out of it is refused as it should
be. -/
theorem refusal_of_issues {issues : List Issue}
    (erroneous : ∃ issue ∈ issues, issue.isError = true)
    (cuts : ∀ issue ∈ issues, ∀ label ∈ issue.diagnostic.labels,
      ∃ part, label.span.Cuts text part) :
    Refusal (issues.map Issue.diagnostic) text := by
  have reports : (Failure.refused (issues.map Issue.diagnostic) text).reports =
      ((issues.map Issue.diagnostic).filter (·.severity = .error)).map Failure.reportOf := rfl
  refine ⟨?_, ?_, ?_, fun first more => summary_of_errors⟩
  · obtain ⟨issue, told, error⟩ := erroneous
    exact ⟨_, List.mem_map_of_mem told, Source.severity_eq_error_iff.mpr error⟩
  · rw [reports, List.forall₂_map_left_iff, List.forall₂_same]
    exact fun diagnostic _ => ⟨rfl, rfl, rfl, rfl, rfl, rfl⟩
  · rw [reports]
    intro report present label labelled
    obtain ⟨diagnostic, kept, rfl⟩ := List.mem_map.mp present
    obtain ⟨issue, told, rfl⟩ := List.mem_map.mp (List.mem_filter.mp kept).1
    obtain ⟨part, own⟩ := cuts issue told label labelled
    exact Label.within_of_cuts own

/-- What is refused is reported. -/
theorem Refusal.reports_ne_nil (refusal : Refusal diagnostics text) :
    (Failure.refused diagnostics text).reports ≠ [] := by
  obtain ⟨diagnostic, told, error⟩ := refusal.erroneous
  have kept : diagnostic ∈ diagnostics.filter (·.severity = .error) :=
    List.mem_filter.mpr ⟨told, decide_eq_true error⟩
  intro none
  have paired := refusal.reports
  rw [none, List.forall₂_nil_left_iff] at paired
  rw [paired] at kept
  cases kept

end refusal

/-- A source list that is not compiled is refused. -/
theorem refusal_of_compiled {settings : Settings} {text : String} {failure : Failure}
    (fails : (Policy.compiled settings text).result = .error failure) :
    ∃ diagnostics, failure = .refused diagnostics text ∧ Refusal diagnostics text := by
  rw [Policy.result_compiled, map_eq_error_iff, mapError_eq_error_iff] at fails
  obtain ⟨issues, read, rfl⟩ := fails
  obtain ⟨rfl, erroneous⟩ := (Source.value_read_eq_error_iff settings.flags text issues).mp read
  refine ⟨_, rfl, refusal_of_issues erroneous fun issue told label present => ?_⟩
  obtain ⟨row, placedRow, _, labelled⟩ := Source.exists_row_of_issue told
  obtain ⟨front, back, stands, start⟩ := Text.exists_rowAt placedRow
  obtain ⟨part, _, _, cuts, _⟩ := Source.cuts_of_labelled stands start (labelled label present)
  exact ⟨part, cuts⟩

/-- A name list that is not loaded is refused. -/
theorem refusal_of_loaded {space : Option Namespace} {text : String} {failure : Failure}
    (fails : (NameList.loaded space text).result = .error failure) :
    ∃ diagnostics, failure = .refused diagnostics text ∧ Refusal diagnostics text := by
  rw [NameList.result_loaded, mapError_eq_error_iff] at fails
  obtain ⟨issue, read, rfl⟩ := fails
  obtain ⟨value, line, newlines, cause, marks⟩ := NameList.marks_of_ofText read
  have erroneous : ∃ own ∈ [issue], own.isError = true :=
    ⟨issue, List.mem_singleton_self issue, by rw [Issue.isError, cause]; rfl⟩
  refine ⟨_, rfl, refusal_of_issues erroneous fun own told label present => ?_⟩
  cases List.mem_singleton.mp told
  rw [Issue.diagnostic, cause] at present
  cases List.mem_singleton.mp present
  exact ⟨line, marks.cuts⟩

/-- A list that is not taken is refused with its own text. -/
theorem refusal_of_taken {settings : Settings} {list : Listed} {text : String} {failure : Failure}
    (fails : list.taken settings text = .error failure) :
    ∃ diagnostics, failure = .refused diagnostics text ∧ Refusal diagnostics text := by
  cases list with
  | source path => exact refusal_of_compiled (map_eq_error_iff.mp fails)
  | names path => exact refusal_of_loaded (map_eq_error_iff.mp fails)

namespace FirstRefused

variable {around : Surroundings} {settings : Settings} {list : Listed} {lists : List Listed}
  {text : String} {failure : Failure}

/-- The list in front may be the first. -/
theorem here (read : around.read list.path = .ok text)
    (refused : list.taken settings text = .error failure) :
    FirstRefused around settings (list :: lists) text failure :=
  ⟨[], list, lists, rfl, fun _ none => absurd none List.not_mem_nil, read, refused⟩

/-- Behind a list that is taken, the first is the first of the others. -/
theorem behind
    (takes : ∃ own, around.read list.path = .ok own ∧ list.taken settings own = .ok ())
    (others : FirstRefused around settings lists text failure) :
    FirstRefused around settings (list :: lists) text failure := by
  obtain ⟨front, first, back, rfl, earlier, read, refused⟩ := others
  exact ⟨list :: front, first, back, rfl, List.forall_mem_cons.mpr ⟨takes, earlier⟩, read, refused⟩

end FirstRefused

namespace Surroundings

variable {around : Surroundings} {diagnostics : List Diagnostic} {text : String}

/-- Reading a file refuses no list. -/
theorem textAt_ne_refused {path shown : String} :
    around.textAt path shown ≠ .error (.refused diagnostics text) := by
  intro fails
  obtain ⟨_, _, other⟩ := mapError_eq_error_iff.mp fails
  cases other

/-- Nor does reading the settings. -/
theorem configured_ne_refused {config : Option String} :
    around.configured config ≠ .error (.refused diagnostics text) := by
  intro fails
  unfold configured at fails
  split at fails
  · cases fails
  · split at fails
    · rcases bind_eq_error_iff.mp fails with fails | ⟨_, _, fails⟩
      · exact textAt_ne_refused fails
      · obtain ⟨_, _, other⟩ := mapError_eq_error_iff.mp fails
        cases other
    · cases fails

/-- Nor does reading a base. -/
theorem baseAt_ne_refused {path : Option String} :
    around.baseAt path ≠ .error (.refused diagnostics text) := by
  intro fails
  cases path with
  | none => cases fails
  | some path =>
    rcases bind_eq_error_iff.mp fails with fails | ⟨own, _, fails⟩
    · exact textAt_ne_refused fails
    · unfold readBase at fails
      split at fails <;> cases fails

/-- The text at a path is what is read there. -/
theorem textAt_eq_ok_iff {path shown : String} :
    around.textAt path shown = .ok text ↔ around.read path = .ok text := by
  rw [textAt]
  cases around.read path with
  | error fault =>
    constructor
    all_goals
      intro same
      cases same
  | ok own =>
    constructor
    all_goals
      intro same
      cases same
      rfl

/-- A name list at a path is loaded from the text there. -/
theorem listAt_eq (path : String) : around.listAt path =
    around.textAt path >>= fun text => (NameList.loaded none text).result := by
  simp only [listAt, NameList.result_loaded, Option.getD_none]

/-- A name list that is there is taken. -/
theorem taken_of_listAt (settings : Settings) {path : String}
    (takes : ∃ list, around.listAt path = .ok list) :
    ∃ own, around.read path = .ok own ∧ (Listed.names path).taken settings own = .ok () := by
  obtain ⟨list, takes⟩ := takes
  rw [listAt_eq] at takes
  obtain ⟨own, read, loads⟩ := bind_eq_ok_iff.mp takes
  exact ⟨own, textAt_eq_ok_iff.mp read, by rw [Listed.taken, loads]; rfl⟩

/-- A name list that is refused is refused for the text at its path. -/
theorem refused_of_listAt (settings : Settings) {path : String}
    (fails : around.listAt path = .error (.refused diagnostics text)) :
    around.read path = .ok text ∧
      (Listed.names path).taken settings text = .error (.refused diagnostics text) := by
  rw [listAt_eq] at fails
  rcases bind_eq_error_iff.mp fails with fails | ⟨own, read, fails⟩
  · exact absurd fails textAt_ne_refused
  · obtain ⟨_, same, _⟩ := refusal_of_loaded fails
    cases same
    exact ⟨textAt_eq_ok_iff.mp read, map_eq_error_iff.mpr fails⟩

/-- Of several name lists the first that is refused is the first that is not taken. -/
theorem firstRefused_of_mapM (settings : Settings) {paths : List String}
    (fails : paths.mapM around.listAt = .error (.refused diagnostics text)) :
    FirstRefused around settings (paths.map .names) text (.refused diagnostics text) := by
  obtain ⟨front, path, back, rfl, earlier, fails⟩ := mapM_eq_error_iff.mp fails
  obtain ⟨read, refused⟩ := refused_of_listAt settings fails
  refine ⟨front.map .names, .names path, back.map .names, ?_, ?_, read, refused⟩
  · rw [List.map_append, List.map_cons]
  · rw [List.forall_mem_map]
    exact fun own inFront => taken_of_listAt settings (earlier own inFront)

/-- Compiling refuses the source list, or else the list of removals. -/
theorem firstRefused_of_policyText {settings : Settings} {request : CompileRequest}
    (fails : around.policyText settings request = .error (.refused diagnostics text)) :
    FirstRefused around (settings.switched request) (Command.compile request).lists text
      (.refused diagnostics text) := by
  rcases bind_eq_error_iff.mp fails with fails | ⟨source, read, fails⟩
  · exact absurd fails textAt_ne_refused
  rcases bind_eq_error_iff.mp fails with fails | ⟨policy, parsed, fails⟩
  · have refused : (Listed.source request.input).taken (settings.switched request) source =
        .error (.refused diagnostics text) := by
      rw [Listed.taken, Policy.result_compiled, map_eq_error_iff, map_eq_error_iff]
      exact fails
    obtain ⟨_, same, _⟩ := refusal_of_taken refused
    cases same
    exact .here (textAt_eq_ok_iff.mp read) refused
  rcases bind_eq_error_iff.mp fails with fails | ⟨base, _, fails⟩
  · exact absurd fails baseAt_ne_refused
  rcases bind_eq_error_iff.mp fails with fails | ⟨removals, _, fails⟩
  · have takes : (Listed.source request.input).taken (settings.switched request) source =
        .ok () := by
      rw [Listed.taken, Policy.result_compiled]
      exact map_eq_ok_iff.mpr ⟨_, map_eq_ok_iff.mpr ⟨policy, parsed, rfl⟩, rfl⟩
    have refused : request.removals.toList.mapM around.listAt =
        .error (.refused diagnostics text) := by
      cases removed : request.removals with
      | none =>
        rw [removed] at fails
        cases fails
      | some path =>
        rw [removed, Option.mapM_some] at fails
        rw [Option.toList_some, List.mapM_cons]
        exact bind_eq_error_iff.mpr (.inl (map_eq_error_iff.mp fails))
    exact .behind ⟨source, textAt_eq_ok_iff.mp read, takes⟩ (firstRefused_of_mapM _ refused)
  rcases bind_eq_error_iff.mp fails with fails | ⟨value, _, fails⟩
  · obtain ⟨_, _, other⟩ := mapError_eq_error_iff.mp fails
    cases other
  · cases fails

/-- A default configuration refuses the list of elements, or else the list of attributes. -/
theorem firstRefused_of_defaultsText {settings : Settings} {request : DefaultsRequest}
    (fails : around.defaultsText request = .error (.refused diagnostics text)) :
    FirstRefused around settings (Command.defaults request).lists text
      (.refused diagnostics text) := by
  rcases bind_eq_error_iff.mp fails with fails | ⟨base, _, fails⟩
  · exact absurd fails baseAt_ne_refused
  rcases bind_eq_error_iff.mp fails with fails | ⟨elements, takes, fails⟩
  · obtain ⟨read, refused⟩ := refused_of_listAt settings fails
    exact .here read refused
  rcases bind_eq_error_iff.mp fails with fails | ⟨attributes, _, fails⟩
  · obtain ⟨read, refused⟩ := refused_of_listAt settings fails
    exact .behind (taken_of_listAt settings ⟨elements, takes⟩) (.here read refused)
  · cases fails

/-- Joining refuses the first of its lists that is not taken. -/
theorem firstRefused_of_joinText {settings : Settings} {request : JoinRequest}
    (fails : around.joinText settings request = .error (.refused diagnostics text)) :
    FirstRefused around settings (Command.join request).lists text
      (.refused diagnostics text) := by
  rcases bind_eq_error_iff.mp fails with fails | ⟨lists, _, fails⟩
  · exact firstRefused_of_mapM settings fails
  · cases fails

/-- An outcome that refuses a list refuses the first of the command's lists that is not taken. -/
theorem firstRefused_of_outcome {invocation : Invocation}
    (fails : around.outcome invocation = .error (.refused diagnostics text)) :
    ∃ settings, around.configured invocation.config = .ok settings ∧
      FirstRefused around (invocation.command.settled settings) invocation.command.lists text
        (.refused diagnostics text) := by
  rcases bind_eq_error_iff.mp fails with fails | ⟨settings, configured, fails⟩
  · exact absurd fails configured_ne_refused
  refine ⟨settings, configured, ?_⟩
  cases command : invocation.command with
  | compile request =>
    rw [command] at fails
    exact firstRefused_of_policyText fails
  | defaults request =>
    rw [command] at fails
    exact firstRefused_of_defaultsText fails
  | join request =>
    rw [command] at fails
    exact firstRefused_of_joinText fails

end Surroundings

/-- No failure is silent, and every report points into the text that it is about.

A source list that is not compiled and a name list that is not loaded are refused with their own
texts, and reported as `Refusal` says: at least one error, a report for each error in order and
none for a warning, labels within the text, and a message with the first error and the number of
the others.

A run that fails has something to report, whatever files there are and however they are read and
written. If that is about a list, it is reported in the same way, with the text of the first of the
command's lists that is not taken. -/
theorem failures_reported {σ : Type} (files : FileSystem σ) (state : σ)
    (system : Option SystemPath) (invocation : Invocation) (settings : Settings)
    (space : Option Namespace) :
    (∀ text failure, (Policy.compiled settings text).result = .error failure →
      ∃ diagnostics, failure = .refused diagnostics text ∧ Refusal diagnostics text) ∧
    (∀ text failure, (NameList.loaded space text).result = .error failure →
      ∃ diagnostics, failure = .refused diagnostics text ∧ Refusal diagnostics text) ∧
    ∀ failure after, (files.run system invocation state).value = (.error failure, after) →
      failure.reports ≠ [] ∧
      ∀ diagnostics text, failure = .refused diagnostics text → Refusal diagnostics text ∧
        ∃ settings, (files.around system state).configured invocation.config = .ok settings ∧
          FirstRefused (files.around system state) (invocation.command.settled settings)
            invocation.command.lists text failure := by
  refine ⟨fun _ _ => refusal_of_compiled, fun _ _ => refusal_of_loaded,
    fun failure after fails => ?_⟩
  have refused : ∀ diagnostics text, failure = .refused diagnostics text →
      ∃ settings, (files.around system state).configured invocation.config = .ok settings ∧
        FirstRefused (files.around system state) (invocation.command.settled settings)
          invocation.command.lists text failure := by
    rintro diagnostics text rfl
    rcases FileSystem.value_run_eq_error_iff.mp fails with ⟨outcome, _⟩ | ⟨_, _, _, other⟩
    · exact Surroundings.firstRefused_of_outcome outcome
    · cases other
  have reported : ∀ diagnostics text, failure = .refused diagnostics text →
      Refusal diagnostics text := by
    intro diagnostics text same
    obtain ⟨_, _, _, _, _, _, _, _, taken⟩ := refused diagnostics text same
    obtain ⟨_, again, refusal⟩ := refusal_of_taken taken
    rw [same] at again
    cases again
    exact refusal
  refine ⟨?_, fun diagnostics text same =>
    ⟨reported diagnostics text same, refused diagnostics text same⟩⟩
  cases failure with
  | refused diagnostics text => exact (reported diagnostics text rfl).reports_ne_nil
  | unreadable | unwritable | badBase | badConfig | unknownSpace | badText | badShape =>
    exact List.cons_ne_nil _ _

/-- A list with warnings in front of its errors and between them. -/
def strayNames : String :=
  "- a\ny é\n- b\nx ü"

/-- A source list that is taken, and a name list in another directory whose header names no
namespace. -/
def strayRemovals : Files :=
  { nodes := [(["work", "p.txt"], .file "p".toUTF8), (["lists"], .directory),
      (["lists", "gone.txt"], .file "# namespace:x".toUTF8)]
    working := ["work"] }

/-- The one is compiled with the other as its list of removals. -/
def removing : Invocation :=
  { command := .compile
      { input := "p.txt", out := "/work/out.json", removals := some "/lists/gone.txt" } }

theorem failures_reported_stray :
    (∃ diagnostics, (Policy.compiled {} strayNames).result =
        .error (.refused diagnostics strayNames) ∧
      diagnostics.map Diagnostic.severity = [.warning, .error, .warning, .error] ∧
      (Failure.refused diagnostics strayNames).reports.length = 2 ∧
      (Failure.refused diagnostics strayNames).message =
        "error[E101]: line 2: unknown namespace prefix `y` (+1 more)") ∧
    (∃ diagnostics, (NameList.loaded none "# namespace:x").result =
      .error (.refused diagnostics "# namespace:x")) ∧
    ∃ failure settings, (Files.fileSystem.run none removing strayRemovals).value =
        (.error failure, strayRemovals) ∧
      FirstRefused (Files.fileSystem.around none strayRemovals)
        (removing.command.settled settings) [.source "p.txt", .names "/lists/gone.txt"]
        "# namespace:x" failure := by
  obtain ⟨compiled, loaded, run⟩ :=
    failures_reported Files.fileSystem strayRemovals none removing {} none
  have unread : (Policy.compiled {} strayNames).result =
      .error (Failure.ofIssues strayNames (Source.Draft.ofText {} strayNames).issues) := rfl
  have unloaded : (NameList.loaded none "# namespace:x").result = .error (Failure.ofIssues
      "# namespace:x" [⟨1, ⟨0, 13⟩, .unknownSpace "x"⟩]) := rfl
  have outcome : (Files.fileSystem.around none strayRemovals).outcome removing =
      .error (Failure.ofIssues "# namespace:x" [⟨1, ⟨0, 13⟩, .unknownSpace "x"⟩]) := by
    decide +kernel
  refine ⟨?_, ?_, ?_⟩
  · obtain ⟨diagnostics, same, refusal⟩ := compiled strayNames _ unread
    cases same
    refine ⟨_, unread, by decide, ?_, ?_⟩
    · rw [refusal.reports.length_eq]
      decide
    · rw [refusal.message _ [_] rfl]
      rfl
  · obtain ⟨diagnostics, same, _⟩ := loaded "# namespace:x" _ unloaded
    exact ⟨diagnostics, same ▸ unloaded⟩
  · have fails := FileSystem.value_run_eq_error_iff.mpr (.inl ⟨outcome, rfl⟩)
    obtain ⟨_, settings, _, first⟩ := (run _ _ fails).2 _ _ rfl
    exact ⟨_, settings, fails, first⟩

end AllowList
