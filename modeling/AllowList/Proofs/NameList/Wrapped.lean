import AllowList.NameList.Join
import AllowList.Proofs.Text.Greedy
import Mathlib.Order.Bounds.Defs

/-!
# Joined lists on lines

The words of joined lists are their names, tagged, with a comma behind each but the last. So a
word is empty, or holds a blank or a newline, only if a name does, and the commas part the
names again if none stands in a name.

Three statements follow for the text of joined lists. Whatever the names are, no row is wider
than it may be, and no name is lost, changed or moved (`joinedText_bounded_lossless`). Names
without blanks and newlines are placed greedily (`joinedText_greedy`). And if every word fits a
line, the text has as few lines as the words can be laid out in (`joinedText_fewest_lines`).
-/

namespace AllowList.NameList

open Text (spaced)

/-- A joined name is a name of some list behind the tag of its namespace. -/
theorem mem_joined {lists : List NameList} {tagged : String} :
    tagged ∈ joined lists ↔
      ∃ list ∈ lists, ∃ name ∈ list.names, list.space.tag ++ name = tagged := by
  unfold joined NameList.tagged
  rw [(List.mergeSort_perm _ _).mem_iff, List.mem_flatMap]
  simp only [List.mem_map]

/-- A word is a joined name, perhaps with a comma behind it. -/
theorem exists_of_mem_listWords {names : List String} {word : List Char}
    (present : word ∈ listWords names) :
    ∃ name ∈ names, word = name.toList ∨ word = name.toList ++ [','] := by
  induction names using listWords.induct with
  | case1 => cases present
  | case2 last =>
    rw [listWords, List.mem_singleton] at present
    exact ⟨last, List.mem_singleton_self last, Or.inl present⟩
  | case3 name names several ih =>
    rw [listWords] at present
    rcases List.mem_cons.mp present with rfl | later
    · exact ⟨name, List.mem_cons_self, Or.inr rfl⟩
    · obtain ⟨other, inside, written⟩ := ih later
      exact ⟨other, List.mem_cons_of_mem name inside, written⟩
    · exact several

/-- There is a word for every name. -/
theorem listWords_ne_nil {names : List String} (some : names ≠ []) : listWords names ≠ [] := by
  match names with
  | [last] => exact List.cons_ne_nil _ _
  | name :: next :: more => exact List.cons_ne_nil _ _

/-- One behind the other, the words are the names with commas between them. -/
theorem flatten_listWords (names : List String) :
    (listWords names).flatten = [','].intercalate (names.map String.toList) := by
  induction names using listWords.induct with
  | case1 => rfl
  | case2 last => simp [listWords]
  | case3 name names several ih =>
    rw [listWords]
    · obtain ⟨next, more, rfl⟩ := List.exists_cons_of_ne_nil several
      rw [List.flatten_cons, ih, List.map_cons, List.map_cons, List.map_cons,
        List.intercalate_cons_cons]
    · exact several

section Characters

variable {c : Char} {lists : List NameList}

/-- No tag holds a comma, a blank or a newline. -/
theorem not_mem_tag (mark : c = ',' ∨ c = ' ' ∨ c = '\n') (space : Namespace) :
    c ∉ space.tag.toList := by
  rcases mark with rfl | rfl | rfl <;> cases space <;> decide

/-- A mark that no name holds is in no joined name. -/
theorem not_mem_of_mem_joined (mark : c = ',' ∨ c = ' ' ∨ c = '\n')
    (absent : ∀ list ∈ lists, ∀ name ∈ list.names, c ∉ name.toList) :
    ∀ tagged ∈ joined lists, c ∉ tagged.toList := by
  intro tagged joins
  obtain ⟨list, own, name, inside, rfl⟩ := mem_joined.mp joins
  rw [String.toList_append, List.mem_append]
  rintro (inTag | inName)
  · exact not_mem_tag mark list.space inTag
  · exact absent list own name inside inName

/-- A blank or a newline that no name holds is in no word. -/
theorem not_mem_of_mem_listWords (mark : c = ' ' ∨ c = '\n')
    (absent : ∀ list ∈ lists, ∀ name ∈ list.names, c ∉ name.toList) :
    ∀ word ∈ listWords (joined lists), c ∉ word := by
  intro word present
  have plain : c ≠ ',' := by
    rcases mark with rfl | rfl <;> decide
  obtain ⟨tagged, joins, written⟩ := exists_of_mem_listWords present
  have clear := not_mem_of_mem_joined (Or.inr mark) absent tagged joins
  rcases written with rfl | rfl
  · exact clear
  · rw [List.mem_append, List.mem_singleton]
    rintro (inside | same)
    · exact clear inside
    · exact plain same

/-- A word is empty only if a name is. -/
theorem ne_nil_of_mem_listWords (named : ∀ list ∈ lists, ∀ name ∈ list.names, name ≠ "") :
    ∀ word ∈ listWords (joined lists), word ≠ [] := by
  intro word present none
  obtain ⟨tagged, joins, written⟩ := exists_of_mem_listWords present
  obtain ⟨list, own, name, inside, rfl⟩ := mem_joined.mp joins
  rw [none, String.toList_append] at written
  rcases written with empty | ended
  · have noName := (List.append_eq_nil_iff.mp empty.symm).2
    exact named list own name inside (String.toList_eq_nil_iff.mp noName)
  · exact List.append_ne_nil_of_right_ne_nil _ (List.cons_ne_nil _ _) ended.symm

/-- If some list has a name, there is a joined name. -/
theorem joined_ne_nil (some : ∃ list ∈ lists, list.names ≠ []) :
    joined lists ≠ [] := by
  obtain ⟨list, own, names⟩ := some
  obtain ⟨name, inside⟩ := List.exists_mem_of_ne_nil list.names names
  exact List.ne_nil_of_mem (mem_joined.mpr ⟨list, own, name, inside, rfl⟩)

end Characters

/-- The text of joined lists is width-bounded and lossless.

Whatever the names and the width, no row is wider than the width, or than one character where
that is zero. If there is a name, and no name holds a comma, a blank or a newline, then the
text without its blanks and newlines parts at its commas into the joined names. -/
theorem joinedText_bounded_lossless (width : Nat) (lists : List NameList) :
    (∀ row ∈ Text.rows (joinedText width lists).toList, row.length ≤ max width 1) ∧
    ((∃ list ∈ lists, list.names ≠ []) →
      (∀ list ∈ lists, ∀ name ∈ list.names, ∀ c ∈ name.toList, c ≠ ',' ∧ c ≠ ' ' ∧ c ≠ '\n') →
      ((joinedText width lists).toList.filter fun c => c ≠ ' ' ∧ c ≠ '\n').splitOn ',' =
        (joined lists).map String.toList) := by
  rw [joinedText, String.toList_ofList]
  constructor
  · intro row
    exact Text.length_le_of_mem_rows_wrap
  intro some plain
  have absent {c : Char} (mark : c = ',' ∨ c = ' ' ∨ c = '\n') :
      ∀ list ∈ lists, ∀ name ∈ list.names, c ∉ name.toList := by
    intro list own name inside present
    obtain ⟨noComma, noBlank, noNewline⟩ := plain list own name inside c present
    rcases mark with comma | blank | newline
    · exact noComma comma
    · exact noBlank blank
    · exact noNewline newline
  -- neither a blank nor a newline is in a word, so nothing of the words is deleted
  have kept : ((listWords (joined lists)).flatten.filter fun c => c ≠ ' ' ∧ c ≠ '\n') =
      (listWords (joined lists)).flatten := by
    apply List.filter_eq_self.mpr
    intro c present
    obtain ⟨word, own, inside⟩ := List.mem_flatten.mp present
    have solid {mark : Char} (kind : mark = ' ' ∨ mark = '\n') : c ≠ mark := by
      rintro rfl
      exact not_mem_of_mem_listWords kind (absent (Or.inr kind)) word own inside
    simp [solid (Or.inl rfl), solid (Or.inr rfl)]
  have uncommaed : ∀ name ∈ (joined lists).map String.toList, ',' ∉ name := by
    intro name present
    obtain ⟨tagged, joins, rfl⟩ := List.mem_map.mp present
    exact not_mem_of_mem_joined (Or.inl rfl) (absent (Or.inl rfl)) tagged joins
  have someName : (joined lists).map String.toList ≠ [] := by
    simpa using joined_ne_nil some
  rw [Text.filter_wrap (by decide) (by decide), kept, flatten_listWords,
    List.splitOn_intercalate ',' uncommaed someName]

/-- Lists with names of several lengths, one of them wider than most lines. -/
def shapes : List NameList :=
  [⟨.svg, ["rect", "linearGradient"]⟩, ⟨.html, ["é", "table"]⟩]

theorem joinedText_bounded_lossless_shapes :
    (∃ list ∈ shapes, list.names ≠ []) ∧
    (∀ list ∈ shapes, ∀ name ∈ list.names, ∀ c ∈ name.toList, c ≠ ',' ∧ c ≠ ' ' ∧ c ≠ '\n') ∧
    ((joinedText 9 shapes).toList.filter fun c => c ≠ ' ' ∧ c ≠ '\n').splitOn ',' =
      (joined shapes).map String.toList := by
  have some : ∃ list ∈ shapes, list.names ≠ [] := ⟨_, List.mem_cons_self, by decide⟩
  have plain : ∀ list ∈ shapes, ∀ name ∈ list.names, ∀ c ∈ name.toList,
      c ≠ ',' ∧ c ≠ ' ' ∧ c ≠ '\n' := by
    have all : (shapes.all fun list => list.names.all fun name => name.toList.all fun c =>
        c ≠ ',' ∧ c ≠ ' ' ∧ c ≠ '\n') = true := by decide
    simpa only [List.all_eq_true, decide_eq_true_eq] using all
  exact ⟨some, plain, (joinedText_bounded_lossless 9 shapes).2 some plain⟩

/-- Names without blanks and newlines are wrapped greedily.

The rows of the text are lines on which the words are placed greedily, and behind the last
newline stands nothing. No line is empty or has a blank at an end, and if there is a name the
text ends with one newline. -/
theorem joinedText_greedy (width : Nat) {lists : List NameList}
    (named : ∀ list ∈ lists, ∀ name ∈ list.names,
      name ≠ "" ∧ ' ' ∉ name.toList ∧ '\n' ∉ name.toList) :
    ∃ lines, Text.Greedy (max width 1) (listWords (joined lists)) lines ∧
      Text.rows (joinedText width lists).toList = lines.map spaced ++ [[]] ∧
      (∀ line ∈ lines, spaced line ≠ [] ∧ (spaced line).head? ≠ some ' ' ∧
        (spaced line).getLast? ≠ some ' ') ∧
      ((∃ list ∈ lists, list.names ≠ []) →
        ∃ front last, (joinedText width lists).toList = front ++ [last, '\n'] ∧ last ≠ '\n') := by
  have room : 0 < max width 1 := by omega
  have solid := ne_nil_of_mem_listWords fun list own name inside =>
    (named list own name inside).1
  have unblank := not_mem_of_mem_listWords (Or.inl rfl) fun list own name inside =>
    (named list own name inside).2.1
  have unbroken := not_mem_of_mem_listWords (Or.inr rfl) fun list own name inside =>
    (named list own name inside).2.2
  obtain ⟨lines, written, filled⟩ := Text.exists_filled_wrap width solid
  have greedy := filled.greedy room solid
  have single := filled.unbroken unbroken
  have someLine : ∀ line ∈ lines, spaced line ≠ [] := fun line laid =>
    Text.spaced_ne_nil (greedy.solid line laid).1 (greedy.solid line laid).2
  rw [joinedText, String.toList_ofList, written]
  refine ⟨lines, greedy, Text.rows_of_single single, ?_, ?_⟩
  · intro line laid
    obtain ⟨begun, pieces⟩ := greedy.solid line laid
    exact ⟨someLine line laid, Text.spaced_ends begun pieces (filled.not_mem unblank laid)⟩
  · intro some
    apply Text.exists_last_of_single single
    · intro none
      have words := greedy.complete
      rw [List.map_eq_nil_iff.mp none] at words
      obtain ⟨word, present⟩ := List.exists_mem_of_ne_nil _ (listWords_ne_nil (joined_ne_nil some))
      exact solid word present (List.flatten_eq_nil_iff.mp words.symm word present)
    · intro shown present
      obtain ⟨line, laid, rfl⟩ := List.mem_map.mp present
      exact someLine line laid

theorem joinedText_greedy_shapes :
    (∀ list ∈ shapes, ∀ name ∈ list.names,
      name ≠ "" ∧ ' ' ∉ name.toList ∧ '\n' ∉ name.toList) ∧
    ∃ lines, Text.Greedy 9 (listWords (joined shapes)) lines ∧
      Text.rows (joinedText 9 shapes).toList = lines.map spaced ++ [[]] := by
  have named : ∀ list ∈ shapes, ∀ name ∈ list.names,
      name ≠ "" ∧ ' ' ∉ name.toList ∧ '\n' ∉ name.toList := by decide
  obtain ⟨lines, greedy, rows, _⟩ := joinedText_greedy 9 named
  exact ⟨named, lines, greedy, rows⟩

/-- Names without newlines take as few lines as they can.

If every word fits a line, the newlines of the text, one for each line, are as many as the
lines of some layout of the words, and no layout has fewer lines. -/
theorem joinedText_fewest_lines {width : Nat} (positive : 1 ≤ width) {lists : List NameList}
    (named : ∀ list ∈ lists, ∀ name ∈ list.names, name ≠ "" ∧ '\n' ∉ name.toList)
    (fits : ∀ word ∈ listWords (joined lists), word.length ≤ width) :
    IsLeast {count | ∃ lines, Text.IsLayout width (listWords (joined lists)) lines ∧
      lines.length = count} ((joinedText width lists).toList.count '\n') := by
  have solid := ne_nil_of_mem_listWords fun list own name inside =>
    (named list own name inside).1
  have unbroken := not_mem_of_mem_listWords (Or.inr rfl) fun list own name inside =>
    (named list own name inside).2
  obtain ⟨lines, written, filled⟩ := Text.exists_filled_wrap width solid
  have single := filled.unbroken unbroken
  rw [Nat.max_eq_left positive, Text.flatMap_cut_of_fits fits] at filled
  rw [joinedText, String.toList_ofList, written, Text.count_newline_of_single single,
    List.length_map]
  refine ⟨⟨lines, filled.toIsLayout, rfl⟩, ?_⟩
  rintro _ ⟨others, layout, rfl⟩
  refine filled.length_le_of_fits layout.fits [] ?_
  rw [List.nil_append, filled.flatten, layout.flatten]

theorem joinedText_fewest_lines_shapes :
    (∀ list ∈ shapes, ∀ name ∈ list.names, name ≠ "" ∧ '\n' ∉ name.toList) ∧
    (∀ word ∈ listWords (joined shapes), word.length ≤ 19) ∧
    IsLeast {count | ∃ lines, Text.IsLayout 19 (listWords (joined shapes)) lines ∧
      lines.length = count} ((joinedText 19 shapes).toList.count '\n') := by
  have named : ∀ list ∈ shapes, ∀ name ∈ list.names, name ≠ "" ∧ '\n' ∉ name.toList := by decide
  have short : ∀ list ∈ shapes, ∀ name ∈ list.names,
      (list.space.tag ++ name).toList.length ≤ 18 := by decide
  have fits : ∀ word ∈ listWords (joined shapes), word.length ≤ 19 := by
    intro word present
    obtain ⟨tagged, joins, written⟩ := exists_of_mem_listWords present
    obtain ⟨list, own, name, inside, rfl⟩ := mem_joined.mp joins
    have bound := short list own name inside
    rcases written with rfl | rfl
    · omega
    · rw [List.length_append, List.length_singleton]
      omega
  exact ⟨named, fits, joinedText_fewest_lines (by decide) named fits⟩

end AllowList.NameList
