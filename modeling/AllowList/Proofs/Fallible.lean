/-!
# Steps that may fail

Steps in sequence succeed when each does, and otherwise fail as the first of them that fails.
That is said once for two steps and once for a step on each item of a list, so that what a
reader or a run comes to can be taken apart without going through its cases again.
-/

namespace AllowList

variable {α β ε : Type}

/-- A step behind another succeeds from the value that the first one gives. -/
theorem bind_eq_ok_iff {first : Except ε α} {next : α → Except ε β} {value : β} :
    first >>= next = .ok value ↔ ∃ given, first = .ok given ∧ next given = .ok value := by
  cases first <;> simp [bind, Except.bind]

/-- Two steps fail as the first of them, or as the second from the value of the first. -/
theorem bind_eq_error_iff {first : Except ε α} {next : α → Except ε β} {fault : ε} :
    first >>= next = .error fault ↔
      first = .error fault ∨ ∃ given, first = .ok given ∧ next given = .error fault := by
  cases first <;> simp [bind, Except.bind]

/-- A value with which something was done afterwards was there. -/
theorem map_eq_ok_iff {change : α → β} {outcome : Except ε α} {value : β} :
    outcome.map change = .ok value ↔ ∃ given, outcome = .ok given ∧ change given = value := by
  cases outcome <;> simp [Except.map]

/-- What is done with a value afterwards does not fail. -/
theorem map_eq_error_iff {change : α → β} {outcome : Except ε α} {fault : ε} :
    outcome.map change = .error fault ↔ outcome = .error fault := by
  cases outcome <;> simp [Except.map]

/-- Faults told in other words are faults that were there. -/
theorem mapError_eq_error_iff {ε' : Type} {retell : ε → ε'} {outcome : Except ε α} {fault : ε'} :
    outcome.mapError retell = .error fault ↔ ∃ own, outcome = .error own ∧ retell own = fault := by
  cases outcome with
  | error own =>
    constructor
    · intro same
      exact ⟨own, rfl, Except.error.inj same⟩
    · rintro ⟨_, ⟨⟩, rfl⟩
      rfl
  | ok value =>
    constructor
    · intro same
      cases same
    · rintro ⟨_, ⟨⟩, _⟩

/-- A step on each item of a list succeeds when it does on every item. -/
theorem exists_mapM_eq_ok_iff {step : α → Except ε β} {items : List α} :
    (∃ values, items.mapM step = .ok values) ↔ ∀ item ∈ items, ∃ value, step item = .ok value := by
  induction items with
  | nil => simp [pure, Except.pure]
  | cons item rest ih =>
    rw [List.mapM_cons, List.forall_mem_cons, ← ih]
    simp only [bind_eq_ok_iff]
    constructor
    · rintro ⟨_, value, first, values, others, _⟩
      exact ⟨⟨value, first⟩, values, others⟩
    · rintro ⟨⟨value, first⟩, values, others⟩
      exact ⟨_, value, first, values, others, rfl⟩

/-- A step on each item of a list fails on the first item on which it does. -/
theorem mapM_eq_error_iff {step : α → Except ε β} {items : List α} {fault : ε} :
    items.mapM step = .error fault ↔
      ∃ front item back, items = front ++ item :: back ∧
        (∀ earlier ∈ front, ∃ value, step earlier = .ok value) ∧ step item = .error fault := by
  induction items with
  | nil => simp [pure, Except.pure]
  | cons first rest ih =>
    rw [List.mapM_cons]
    simp only [bind_eq_error_iff, ih]
    constructor
    · rintro (own | ⟨value, done, ⟨front, item, back, rfl, earlier, fails⟩ | ⟨_, _, fails⟩⟩)
      · exact ⟨[], first, rest, rfl, by simp, own⟩
      · exact ⟨first :: front, item, back, rfl,
          List.forall_mem_cons.mpr ⟨⟨value, done⟩, earlier⟩, fails⟩
      · cases fails
    · rintro ⟨front, item, back, split, earlier, fails⟩
      cases front with
      | nil =>
        cases split
        exact Or.inl fails
      | cons head front =>
        cases split
        obtain ⟨⟨value, done⟩, others⟩ := List.forall_mem_cons.mp earlier
        exact Or.inr ⟨value, done, Or.inl ⟨front, item, back, rfl, others, fails⟩⟩

end AllowList
