import AllowList.Proofs.Text.Parts
import AllowList.Text.Wrap

/-!
# Wrapped text

Whatever the words are, wrapping keeps two things. No row of the text is wider than a line
may be, since a piece of a word that is cut fills its line exactly and what is left of the
word fits a line. And without its blanks and newlines the text is the words, one behind the
other: they are only cut, and cut parts stay in order.

Words may be empty here, and they may hold blanks and newlines of their own. A newline in a
word breaks a line once more, which makes no row wider.
-/

namespace AllowList.Text

section Chopped

variable {width : Nat} {word : List Char}

/-- A word that fits a line is left as it is. -/
theorem chop_of_fits (fits : word.length ≤ width) : chop width word = ([], word) := by
  rw [chop, if_pos (Or.inr fits)]

/-- The pieces of a word and what is left of it are the word. -/
theorem flatten_chop (width : Nat) (word : List Char) :
    (chop width word).1.flatten ++ (chop width word).2 = word := by
  induction word using chop.induct width with
  | case1 word whole =>
    rw [chop, if_pos whole]
    rfl
  | case2 word cut pieces left split ih =>
    rw [chop, if_neg cut]
    rw [List.flatten_cons, List.append_assoc, ih, List.take_append_drop]

/-- Every piece of a word fills a line. -/
theorem length_of_mem_chop {piece : List Char} (present : piece ∈ (chop width word).1) :
    piece.length = width := by
  induction word using chop.induct width with
  | case1 word whole =>
    rw [chop, if_pos whole] at present
    cases present
  | case2 word cut pieces left split ih =>
    rw [chop, if_neg cut] at present
    rcases List.mem_cons.mp present with rfl | later
    · rw [List.length_take]
      omega
    · exact ih later

/-- What is left of a word fits a line. -/
theorem length_left_le (room : 0 < width) : (chop width word).2.length ≤ width := by
  induction word using chop.induct width with
  | case1 word whole =>
    rw [chop, if_pos whole]
    have short : word.length ≤ width := by omega
    exact short
  | case2 word cut pieces left split ih =>
    rw [chop, if_neg cut]
    exact ih

/-- Something is left of every word that is not empty. -/
theorem left_ne_nil (solid : word ≠ []) : (chop width word).2 ≠ [] := by
  induction word using chop.induct width with
  | case1 word whole =>
    rw [chop, if_pos whole]
    exact solid
  | case2 word cut pieces left split ih =>
    rw [chop, if_neg cut]
    apply ih
    intro none
    have short := List.drop_eq_nil_iff.mp none
    omega

end Chopped

section Steps

variable {width : Nat} {current word : List Char}

/-- A word that fits behind what stands on the line goes there. -/
theorem linesFrom_of_fits (begun : current ≠ [])
    (fits : current.length + 1 + word.length ≤ width) (words : List (List Char)) :
    linesFrom width current (word :: words) = linesFrom width (current ++ ' ' :: word) words := by
  rw [linesFrom, if_pos]
  simp [begun, fits]

/-- A word that does not fit there ends the line. -/
theorem linesFrom_of_full (begun : current ≠ [])
    (full : width < current.length + 1 + word.length) (words : List (List Char)) :
    linesFrom width current (word :: words) = current :: linesFrom width [] (word :: words) := by
  have tight : ¬current.length + 1 + word.length ≤ width := by omega
  rw [linesFrom, linesFrom]
  simp [begun, tight]

/-- On a line where nothing stands a word is cut into its pieces, and what is left of it
begins a line. -/
theorem linesFrom_nil_cons (width : Nat) (word : List Char) (words : List (List Char)) :
    linesFrom width [] (word :: words) =
      (chop width word).1 ++ linesFrom width (chop width word).2 words := by
  rw [linesFrom]
  simp

end Steps

/-- No line is wider than it may be. -/
theorem length_le_of_mem_linesFrom {width : Nat} (room : 0 < width) {current : List Char}
    (fits : current.length ≤ width) {words : List (List Char)} {line : List Char}
    (present : line ∈ linesFrom width current words) : line.length ≤ width := by
  induction words generalizing current with
  | nil =>
    rw [linesFrom, List.mem_singleton] at present
    rw [present]
    exact fits
  | cons word words ih =>
    have onNewLine (present : line ∈ linesFrom width [] (word :: words)) :
        line.length ≤ width := by
      rw [linesFrom_nil_cons] at present
      rcases List.mem_append.mp present with piece | later
      · exact Nat.le_of_eq (length_of_mem_chop piece)
      · exact ih (length_left_le room) later
    by_cases begun : current = []
    · rw [begun] at present
      exact onNewLine present
    · by_cases together : current.length + 1 + word.length ≤ width
      · rw [linesFrom_of_fits begun together] at present
        refine ih ?_ present
        rw [List.length_append, List.length_cons]
        omega
      · rw [linesFrom_of_full begun (Nat.lt_of_not_le together)] at present
        rcases List.mem_cons.mp present with rfl | later
        · exact fits
        · exact onNewLine later

/-- But for blanks, the lines hold what was to be laid out. -/
theorem filter_linesFrom {p : Char → Bool} (blank : p ' ' = false) (width : Nat)
    (current : List Char) (words : List (List Char)) :
    (linesFrom width current words).flatten.filter p = (current ++ words.flatten).filter p := by
  induction words generalizing current with
  | nil => simp [linesFrom]
  | cons word words ih =>
    have onNewLine : (linesFrom width [] (word :: words)).flatten.filter p =
        (word ++ words.flatten).filter p := by
      rw [linesFrom_nil_cons, List.flatten_append, List.filter_append, ih, ← List.filter_append,
        ← List.append_assoc, flatten_chop]
    by_cases begun : current = []
    · rw [begun, onNewLine]
      rfl
    · by_cases together : current.length + 1 + word.length ≤ width
      · rw [linesFrom_of_fits begun together, ih]
        simp [blank]
      · rw [linesFrom_of_full begun (Nat.lt_of_not_le together), List.flatten_cons,
          List.filter_append, onNewLine, ← List.filter_append, List.flatten_cons]

/-- But for blanks and newlines, wrapped text is the words. -/
theorem filter_wrap {p : Char → Bool} (blank : p ' ' = false) (newline : p '\n' = false)
    (width : Nat) (words : List (List Char)) :
    (wrap width words).filter p = words.flatten.filter p := by
  have ended (lines : List (List Char)) :
      (lines.flatMap (· ++ ['\n'])).filter p = lines.flatten.filter p := by
    induction lines with
    | nil => rfl
    | cons line more ih =>
      rw [List.flatMap_cons, List.filter_append, ih, List.filter_append, List.flatten_cons,
        List.filter_append]
      simp [newline]
  have kept := filter_linesFrom blank (max width 1) [] words
  rw [List.nil_append] at kept
  unfold wrap linesText
  split
  case isTrue none =>
    rw [none] at kept
    exact kept
  case isFalse => rw [ended, kept]

/-- No row is longer than its text. -/
theorem length_le_of_mem_rows {row text : List Char} (present : row ∈ rows text) :
    row.length ≤ text.length := by
  unfold rows at present
  induction text generalizing row with
  | nil =>
    rw [pieces, List.mem_singleton] at present
    exact Nat.le_of_eq (congrArg List.length present)
  | cons c rest ih =>
    rw [List.length_cons]
    rw [pieces] at present
    split at present
    case h_1 split => exact absurd split (pieces_ne_nil '\n' rest)
    case h_2 first more split =>
      rw [split] at ih
      have firstShort := ih List.mem_cons_self
      split at present
      case isTrue =>
        rcases List.mem_cons.mp present with rfl | old
        · exact Nat.zero_le _
        · exact Nat.le_succ_of_le (ih old)
      case isFalse =>
        rcases List.mem_cons.mp present with rfl | old
        · exact Nat.succ_le_succ firstShort
        · exact Nat.le_succ_of_le (ih (List.mem_cons_of_mem first old))

/-- Lines with a newline behind each have the rows of every line, and nothing stands behind
the last newline. -/
theorem rows_flatMap_newline (lines : List (List Char)) :
    rows (lines.flatMap (· ++ ['\n'])) = lines.flatMap rows ++ [[]] := by
  induction lines with
  | nil => rfl
  | cons line more ih =>
    rw [List.flatMap_cons, List.flatMap_cons, List.append_assoc, List.singleton_append,
      rows_eq_splitOn, List.splitOn_append_cons_self, ← rows_eq_splitOn, ← rows_eq_splitOn, ih,
      List.append_assoc]

section Single

variable {lines : List (List Char)} (single : ∀ line ∈ lines, '\n' ∉ line)
include single

/-- Lines that hold no newline are the rows of their text. -/
theorem rows_of_single : rows (lines.flatMap (· ++ ['\n'])) = lines ++ [[]] := by
  rw [rows_flatMap_newline]
  congr 1
  induction lines with
  | nil => rfl
  | cons line more ih =>
    obtain ⟨own, others⟩ := List.forall_mem_cons.mp single
    rw [List.flatMap_cons, rows_eq_splitOn, List.splitOn_eq_singleton own, ih others,
      List.singleton_append]

/-- Lines that hold no newline are as many as the newlines of their text. -/
theorem count_newline_of_single : (lines.flatMap (· ++ ['\n'])).count '\n' = lines.length := by
  induction lines with
  | nil => rfl
  | cons line more ih =>
    obtain ⟨own, others⟩ := List.forall_mem_cons.mp single
    rw [List.flatMap_cons, List.count_append, List.count_append, ih others,
      List.count_eq_zero_of_not_mem own, List.length_cons, Nat.add_comm]
    rfl

/-- Their text ends with one newline and no more, if none of them is empty. -/
theorem exists_last_of_single (some : lines ≠ []) (solid : ∀ line ∈ lines, line ≠ []) :
    ∃ front last, lines.flatMap (· ++ ['\n']) = front ++ [last, '\n'] ∧ last ≠ '\n' := by
  obtain ⟨above, line, rfl⟩ := (List.eq_nil_or_concat lines).resolve_left some
  have present : line ∈ above.concat line := by simp
  obtain ⟨front, last, rfl⟩ := (List.eq_nil_or_concat line).resolve_left (solid line present)
  refine ⟨above.flatMap (· ++ ['\n']) ++ front, last, by simp, ?_⟩
  rintro rfl
  exact single _ present (by simp)

end Single

/-- No row of wrapped text is wider than a line may be. -/
theorem length_le_of_mem_rows_wrap {width : Nat} {words : List (List Char)} {row : List Char}
    (present : row ∈ rows (wrap width words)) : row.length ≤ max width 1 := by
  have room : 0 < max width 1 := by omega
  unfold wrap linesText at present
  split at present
  case isTrue =>
    have short := length_le_of_mem_rows present
    exact Nat.le_trans short (Nat.zero_le _)
  case isFalse =>
    rw [rows_flatMap_newline] at present
    rcases List.mem_append.mp present with inside | last
    · obtain ⟨line, laid, own⟩ := List.mem_flatMap.mp inside
      exact Nat.le_trans (length_le_of_mem_rows own)
        (length_le_of_mem_linesFrom room (Nat.zero_le _) laid)
    · rw [List.mem_singleton.mp last]
      exact Nat.zero_le _

end AllowList.Text
