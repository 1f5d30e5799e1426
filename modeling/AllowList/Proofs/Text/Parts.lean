import AllowList.Text.Rows

/-!
# Parts of a text

Rows, runs and trimmed text are cut out of a text by scanning it. Here each is
told by what it is instead: rows are what stands between newlines, a run is the
longest front of which every character passes, and trimmed text is what is left
between two runs of blanks and has no blank at either end. Such parts are unique,
so a scan finds the part it is meant to find.
-/

namespace AllowList.Text

/-- What stands between marks is what the list library splits off. -/
theorem pieces_eq_splitOn (mark : Char) (cs : List Char) : pieces mark cs = cs.splitOn mark := by
  induction cs with
  | nil => rfl
  | cons c rest ih =>
    rw [List.splitOn_cons_eq_if_modifyHead, ← ih, pieces]
    cases split : pieces mark rest with
    | nil => exact absurd split (pieces_ne_nil mark rest)
    | cons piece more =>
      by_cases ends : c = mark
      · simp [ends]
      · simp [ends]

/-- The rows of a text are what its newlines separate. -/
theorem rows_eq_splitOn (cs : List Char) : rows cs = cs.splitOn '\n' :=
  pieces_eq_splitOn '\n' cs

/-- Placing rows changes none of them. -/
theorem map_chars_placeRows (number start : Nat) (rows : List (List Char)) :
    (placeRows number start rows).map Row.chars = rows := by
  induction rows generalizing number start with
  | nil => rfl
  | cons chars more ih => rw [placeRows, List.map_cons, ih]

/-- Rows are numbered one after another. -/
theorem map_number_placeRows (number start : Nat) (rows : List (List Char)) :
    (placeRows number start rows).map Row.number = List.range' number rows.length := by
  induction rows generalizing number start with
  | nil => rfl
  | cons chars more ih => rw [placeRows, List.map_cons, ih, List.length_cons, List.range'_succ]

/-- The rows that are placed are what the newlines separate. -/
theorem map_chars_placed (text : String) :
    (placed text.toList).map Row.chars = text.toList.splitOn '\n' := by
  rw [placed, map_chars_placeRows, rows_eq_splitOn]

/-- The number of a row is one more than that of the rows in front of it. -/
theorem number_of_placed {text : List Char} {front back : List Row} {row : Row}
    (split : placed text = front ++ row :: back) : row.number = front.length + 1 := by
  have numbers := map_number_placeRows 1 0 (rows text)
  rw [← placed, split, List.map_append, List.map_cons] at numbers
  obtain ⟨count, _, inFront, behind⟩ := List.range'_eq_append_iff.mp numbers.symm
  obtain ⟨here, _⟩ := List.range'_eq_cons_iff.mp behind.symm
  have lengths := congrArg List.length inFront
  rw [List.length_map, List.length_range'] at lengths
  rw [← here, lengths, Nat.mul_one, Nat.add_comm]

section Runs

variable {p : Char → Bool} {front rest : List Char}

/-- Nothing that begins here passes: the text is empty or its first character does
not. -/
def Stops (p : Char → Bool) (cs : List Char) : Prop :=
  ∀ c ∈ cs.head?, p c = false

/-- A run that stops is what is taken from the front. -/
theorem takeWhile_append_of_stops (passes : ∀ c ∈ front, p c = true) (stops : Stops p rest) :
    (front ++ rest).takeWhile p = front := by
  rw [List.takeWhile_append_of_pos passes]
  cases rest with
  | nil => simp
  | cons c more => simp [stops c rfl]

/-- Behind a run that stops everything stays. -/
theorem dropWhile_append_of_stops (passes : ∀ c ∈ front, p c = true) (stops : Stops p rest) :
    (front ++ rest).dropWhile p = rest := by
  rw [List.dropWhile_append_of_pos passes]
  cases rest with
  | nil => rfl
  | cons c more => simp [stops c rfl]

/-- What is left behind a run does not pass on. -/
theorem stops_dropWhile (p : Char → Bool) (cs : List Char) : Stops p (cs.dropWhile p) := by
  intro c first
  have fails := List.head?_dropWhile_not p cs
  rw [Option.mem_def.mp first] at fails
  exact fails

/-- What is taken passes. -/
theorem passes_takeWhile (p : Char → Bool) (cs : List Char) :
    ∀ c ∈ cs.takeWhile p, p c = true :=
  List.all_eq_true.mp List.all_takeWhile

end Runs

/-- Trimmed text: what stands between two runs of blanks and has no blank at either
end. -/
def IsTrimmed (written content : List Char) : Prop :=
  ∃ front back, written = front ++ content ++ back ∧
    (∀ c ∈ front, isBlank c = true) ∧ (∀ c ∈ back, isBlank c = true) ∧
    (∀ c ∈ content.head?, isBlank c = false) ∧ ∀ c ∈ content.getLast?, isBlank c = false

/-- Nothing is left of blanks. -/
theorem trimBack_of_blank {cs : List Char} (blank : ∀ c ∈ cs, isBlank c = true) :
    trimBack cs = [] := by
  induction cs with
  | nil => rfl
  | cons c rest ih =>
    rw [trimBack, ih fun other present => blank other (List.mem_cons_of_mem c present)]
    simp [blank c List.mem_cons_self]

/-- A text that does not end with a blank is what is left when blanks follow it. -/
theorem trimBack_append {content back : List Char} (blank : ∀ c ∈ back, isBlank c = true)
    (ends : ∀ c ∈ content.getLast?, isBlank c = false) : trimBack (content ++ back) = content := by
  induction content with
  | nil => exact trimBack_of_blank blank
  | cons c rest ih =>
    rw [List.cons_append, trimBack]
    cases rest with
    | nil =>
      rw [List.nil_append, trimBack_of_blank blank]
      simp [ends c rfl]
    | cons next more =>
      rw [ih ends]

/-- What is cut from the end are blanks, and no blank is left there. -/
theorem exists_trimBack (cs : List Char) :
    ∃ back, cs = trimBack cs ++ back ∧ (∀ c ∈ back, isBlank c = true) ∧
      ∀ c ∈ (trimBack cs).getLast?, isBlank c = false := by
  induction cs with
  | nil => exact ⟨[], rfl, by simp, by simp [trimBack]⟩
  | cons c rest ih =>
    obtain ⟨back, split, blank, ends⟩ := ih
    rw [trimBack]
    cases kept : trimBack rest with
    | nil =>
      rw [kept, List.nil_append] at split
      subst split
      cases own : isBlank c with
      | true => exact ⟨c :: rest, rfl, by simpa [own] using blank, by simp⟩
      | false => exact ⟨rest, rfl, blank, by simp [own]⟩
    | cons next more =>
      rw [kept] at split ends
      refine ⟨back, ?_, blank, by simpa using ends⟩
      rw [split]
      rfl

/-- Trimmed text stands behind the blanks in front of it, and blanks follow it. -/
theorem exists_eq_trim (written : List Char) :
    ∃ back, written = leading written ++ trim written ++ back ∧ (∀ c ∈ back, isBlank c = true) ∧
      ∀ c ∈ (trim written).getLast?, isBlank c = false := by
  obtain ⟨back, split, blank, ends⟩ := exists_trimBack (trimFront written)
  refine ⟨back, ?_, blank, ends⟩
  rw [trim, List.append_assoc, ← split, leading, trimFront, List.takeWhile_append_dropWhile]

/-- Trimming finds the trimmed text, and there is only one. -/
theorem isTrimmed_iff {written content : List Char} :
    IsTrimmed written content ↔ trim written = content := by
  constructor
  · rintro ⟨front, back, rfl, frontBlank, backBlank, starts, ends⟩
    rw [trim, trimFront, List.append_assoc]
    cases content with
    | nil =>
      refine trimBack_of_blank fun c left => ?_
      have inside : c ∈ front ++ back := (List.dropWhile_suffix isBlank).subset left
      exact (List.mem_append.mp inside).elim (frontBlank c) (backBlank c)
    | cons c rest =>
      have stops : Stops isBlank (c :: rest ++ back) := starts
      rw [dropWhile_append_of_stops frontBlank stops]
      exact trimBack_append backBlank ends
  · rintro rfl
    obtain ⟨back, split, blank, ends⟩ := exists_eq_trim written
    refine ⟨leading written, back, split, passes_takeWhile isBlank written, blank, ?_, ends⟩
    intro c first
    have opens : (trimFront written).head? = some c := by
      obtain ⟨_, front, _⟩ := exists_trimBack (trimFront written)
      rw [front, List.head?_append, ← trim, Option.mem_def.mp first]
      rfl
    exact stops_dropWhile isBlank written c opens

end AllowList.Text
