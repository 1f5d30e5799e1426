import AllowList.Compiler

/-!
# What work comes to

Work tells records while it goes on. What it comes to does not depend on them: it is a
value or a failure, and pieces of work in sequence come to what their results come to in
sequence. So `Work.result` is taken piece by piece, and what a list compiles to or a policy
renders as can be said without a word about the log.
-/

namespace AllowList

/-- Records are told one behind the other, however a computation is put together. -/
instance : LawfulMonad Logged := by
  refine .mk' Logged ?_ ?_ ?_
  · rintro α ⟨records, value⟩
    simp [Functor.map]
  · intro α β value next
    simp [bind, pure]
  · intro α β γ first second third
    simp [bind]

namespace Work

variable {α β ε : Type}

/-- What work comes to, whatever it tells. -/
def result (work : Work α) : Except Failure α :=
  work.run.value

@[simp] theorem result_pure (value : α) : (pure value : Work α).result = pure value := rfl

/-- Work behind other work goes on from its value, and is not done if there is none. -/
@[simp] theorem result_bind (work : Work α) (next : α → Work β) :
    (work >>= next).result = work.result >>= fun value => (next value).result := by
  obtain ⟨records, value⟩ := work
  cases value with
  | error failure => rfl
  | ok value => rfl

@[simp] theorem result_tell (level : Log.Level) (message : String)
    (fields : List (String × String)) : (tell level message fields).result = pure () := rfl

@[simp] theorem result_ofFaulty (failure : ε → Failure) (logged : Logged (Except ε α)) :
    (ofFaulty failure logged).result = logged.value.mapError failure := rfl

@[simp] theorem result_ofExcept (failure : ε → Failure) (outcome : Except ε α) :
    (ofExcept failure outcome).result = outcome.mapError failure := rfl

/-- A value is changed as work would go on from it. -/
theorem map_eq_bind (change : α → β) (outcome : Except ε α) :
    outcome.map change = outcome >>= fun value => pure (change value) := by
  cases outcome <;> rfl

end Work

namespace Policy

/-- A source list compiles to the normal form of what is read of it. -/
theorem result_compiled (settings : Settings) (text : String) :
    (compiled settings text).result =
      ((Source.read settings.flags text).value.mapError (Failure.ofIssues text)).map
        fun policy => policy.normalize settings.options := by
  simp only [compiled, drafted, Work.result_bind, Work.result_tell, Work.result_ofFaulty]
  cases (Source.read settings.flags text).value with
  | error issues => rfl
  | ok policy => rfl

/-- A policy is encoded as its JSON. -/
theorem result_encoded (options : Options) (base : Json.Members) (removals : Option NameList)
    (policy : Policy) :
    (policy.encoded options base removals).result =
      (policy.toJson options base removals).mapError .badBase := by
  simp only [encoded, toJson, Work.result_bind, Work.result_ofExcept]
  cases policy.toMembers options base removals with
  | error fault => rfl
  | ok members => rfl

/-- A policy renders as the canonical text of its JSON. -/
theorem result_rendered (options : Options) (base : Json.Members) (removals : Option NameList)
    (policy : Policy) :
    (policy.rendered options base removals).result =
      ((policy.toJson options base removals).mapError .badBase).map Json.canonical := by
  simp only [rendered, Work.result_bind, result_encoded]
  cases policy.toJson options base removals with
  | error fault => rfl
  | ok value => rfl

end Policy

/-- A name list is loaded as what is read of it. -/
theorem NameList.result_loaded (space : Option Namespace) (text : String) :
    (NameList.loaded space text).result =
      (NameList.ofText (space.getD .html) text).mapError fun issue =>
        Failure.ofIssues text [issue] := by
  simp only [NameList.loaded, Work.result_ofFaulty, NameList.read]
  cases NameList.ofText (space.getD .html) text <;> rfl

end AllowList
