import AllowList.NameList.Given

/-!
# Editing sessions

A session holds what is needed to work on one policy step by step: the settings,
the policy, the base and the removal list it is written with, the name lists
gathered so far, and the text last written. A step answers what it has to show
and changes its own part of the session; a step that fails changes nothing.
-/

namespace AllowList

/-- The state of a session. -/
structure Session where
  settings : Settings := {}
  policy : Policy := {}
  /-- The base policies and configurations are written over. -/
  base : Option Json.Members := none
  /-- The removal list policies are written with. -/
  removals : Option NameList := none
  /-- The name lists gathered so far. -/
  lists : List NameList := []
  /-- The policy's text as last written. -/
  emitted : Option String := none

namespace Session

/-- A step of a session. -/
inductive Step where
  /-- Replaces the settings. -/
  | configure (settings : Settings)
  /-- Starts over with an empty policy. -/
  | start (flags : Flags)
  /-- Replaces the policy. -/
  | set (policy : Policy)
  /-- Replaces the policy by a source list's, in normal form. -/
  | compile (source : String)
  /-- Adds a source list's entries behind the policy's. -/
  | append (source : String)
  /-- Adds a rule. -/
  | pushElement (rule : ElementRule)
  /-- Adds a global attribute. -/
  | pushGlobal (name : QName)
  /-- Adds a removal. -/
  | pushRemoved (name : QName)
  /-- Adds an attribute to the rule at an index. -/
  | pushAllowedOn (index : Nat) (name : QName)
  /-- Adds a removal to the rule at an index. -/
  | pushRemovedOn (index : Nat) (name : QName)
  /-- Brings the policy into normal form. -/
  | normalize
  /-- Replaces the base; without a text there is none. -/
  | setBase (text : Option String)
  /-- Replaces the removal list; without a list there is none. -/
  | setRemovals (list : Option NameList.Given)
  /-- Writes the policy. -/
  | emit
  /-- Replaces the policy by the one that the text last written holds. -/
  | reload
  /-- Gathers a name list. -/
  | gather (list : NameList.Given)
  /-- Forgets the name lists. -/
  | clearLists
  /-- Joins the name lists. -/
  | join
  /-- Writes a default configuration from the first two name lists. -/
  | defaults
  deriving DecidableEq

/-- What a step shows. -/
inductive Outcome where
  /-- Nothing. -/
  | done
  /-- The settings. -/
  | settings (settings : Settings)
  /-- The policy. -/
  | policy (policy : Policy)
  /-- The policy in normal form, and whether it was something else before. -/
  | normalized (changed : Bool) (policy : Policy)
  /-- How many keys the base has. -/
  | base (keys : Option Nat)
  /-- The removal list. -/
  | removals (list : Option NameList)
  /-- A text that was written. -/
  | text (text : String)
  /-- The policy read back, and whether it is the one there was before. -/
  | reread (same : Bool) (policy : Policy)
  /-- A name list. -/
  | list (list : NameList)
  /-- The joined names and their text. -/
  | joined (names : List String) (text : String)
  deriving DecidableEq

/-- Why a step fails. -/
inductive Fault where
  /-- The work to be done failed. -/
  | failed (failure : Failure)
  /-- The policy has no rule at the index. -/
  | noSuchElement
  /-- No policy was written yet. -/
  | nothingEmitted
  deriving DecidableEq, Repr

/-- What a step does to a session if it does not fail. -/
abbrev Effect := ExceptT Fault Logged (Session × Outcome)

/-- The effect of work that may fail, from what its value does. -/
def work {α : Type} (work : Work α) (finish : α → Session × Outcome) : Effect :=
  ExceptT.mk ⟨work.run.records,
    match work.run.value with
    | .ok value => .ok (finish value)
    | .error failure => .error (.failed failure)⟩

/-- The session with another policy, which is shown. -/
def withPolicy (session : Session) (policy : Policy) : Session × Outcome :=
  ({ session with policy := policy }, .policy policy)

/-- Changes the rule at an index. -/
def changeRule (session : Session) (index : Nat) (change : ElementRule → ElementRule) : Effect :=
  match session.policy.changeRule? index change with
  | some policy => pure (session.withPolicy policy)
  | none => throw .noSuchElement

/-- Does a step. -/
def step (session : Session) : Step → Effect
  | .configure settings => pure ({ session with settings := settings }, .settings settings)
  | .start flags => pure (session.withPolicy { flags := flags })
  | .set policy => pure (session.withPolicy policy)
  | .compile source => work (Policy.compiled session.settings source) session.withPolicy
  | .append source => work (Policy.drafted session.settings.flags source) fun draft =>
      session.withPolicy (session.policy.append draft)
  | .pushElement rule =>
      let policy := session.policy
      pure (session.withPolicy { policy with elements := policy.elements ++ [rule] })
  | .pushGlobal name =>
      let policy := session.policy
      pure (session.withPolicy { policy with globals := policy.globals ++ [name] })
  | .pushRemoved name =>
      let policy := session.policy
      pure (session.withPolicy { policy with removed := policy.removed ++ [name] })
  | .pushAllowedOn index name =>
      session.changeRule index (·.allow name)
  | .pushRemovedOn index name =>
      session.changeRule index (·.remove name)
  | .normalize =>
      work (Work.ofLogged (session.policy.normalized session.settings.options)) fun normal =>
        ({ session with policy := normal }, .normalized (normal != session.policy) normal)
  | .setBase none => pure ({ session with base := none }, .base none)
  | .setBase (some text) => work (Work.ofExcept id (readBase text)) fun members =>
      ({ session with base := some members }, .base (some members.length))
  | .setRemovals none => pure ({ session with removals := none }, .removals none)
  | .setRemovals (some list) => work list.load fun list =>
      ({ session with removals := some list }, .removals (some list))
  | .emit =>
      work (session.policy.rendered session.settings.options (session.base.getD [])
        session.removals) fun text => ({ session with emitted := some text }, .text text)
  | .reload =>
      match session.emitted with
      | none => throw .nothingEmitted
      | some text => work (Policy.reread text) fun policy =>
          ({ session with policy := policy }, .reread (policy == session.policy) policy)
  | .gather list => work list.load fun list =>
      ({ session with lists := session.lists ++ [list] }, .list list)
  | .clearLists => pure ({ session with lists := [] }, .done)
  | .join =>
      work (Work.ofLogged (NameList.writeJoined session.settings.width session.lists)) fun text =>
        (session, .joined (NameList.joined session.lists) text)
  | .defaults =>
      let list index := session.lists[index]?.getD {}
      work (Work.ofLogged (DefaultConfig.rendered (session.base.getD []) (list 0) (list 1)))
        fun text => (session, .text text)

/-- The session after a step: a step that fails leaves it as it was. -/
def after (session : Session) (step : Step) : Session :=
  match (session.step step).run.value with
  | .ok (next, _) => next
  | .error _ => session

/-- The session after steps in sequence. -/
def run (session : Session) (steps : List Step) : Session :=
  steps.foldl after session

/-- What each of the steps shows or why it fails, with what it tells. -/
def answers (session : Session) : List Step → List (Logged (Except Fault Outcome))
  | [] => []
  | step :: steps =>
    let result := (session.step step).run
    ⟨result.records, result.value.map (·.2)⟩ :: (session.after step).answers steps

end Session

end AllowList
