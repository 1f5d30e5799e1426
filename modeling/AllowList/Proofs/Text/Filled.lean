import AllowList.Proofs.Text.Wrapped

/-!
# Filled lines

A layout says which words stand together on a line. Its lines are filled when no line has
room for the first word of the next. A word that is wider than a line is cut first, into
pieces that fill a line each and what is left, and each of these counts as a word. Wrapping
finds filled lines: `exists_filled_wrap`.

That lines are filled settles where every word stands, and no other layout of the same words
has fewer lines: whatever another layout has placed after some of its lines, filled lines have
placed after as many, so they are never behind (`Filled.length_le_of_fits`).
-/

namespace AllowList.Text

/-- Words on one line, a blank between every two. -/
def spaced (words : List (List Char)) : List Char :=
  [' '].intercalate words

@[simp] theorem spaced_nil : spaced [] = [] := rfl

@[simp] theorem spaced_singleton (word : List Char) : spaced [word] = word :=
  List.intercalate_singleton

/-- Another word stands behind a blank, if there is a word in front of it. -/
theorem spaced_append {line : List (List Char)} (begun : line ≠ []) (word : List Char)
    (more : List (List Char)) :
    spaced (line ++ word :: more) = spaced line ++ ' ' :: spaced (word :: more) := by
  induction line with
  | nil => exact absurd rfl begun
  | cons first rest ih =>
    cases rest with
    | nil =>
      rw [spaced_singleton, spaced, List.cons_append, List.nil_append,
        List.intercalate_cons_cons, List.append_assoc]
      rfl
    | cons second rest =>
      have inner := ih (List.cons_ne_nil second rest)
      unfold spaced at inner ⊢
      rw [List.cons_append, List.cons_append, List.intercalate_cons_cons, ← List.cons_append,
        inner, List.intercalate_cons_cons]
      simp only [List.append_assoc]

/-- Words in lines: all of them, in order, on no line wider than it may be. -/
structure IsLayout (width : Nat) (words : List (List Char))
    (lines : List (List (List Char))) : Prop where
  flatten : lines.flatten = words
  nonempty : ∀ line ∈ lines, line ≠ []
  fits : ∀ line ∈ lines, (spaced line).length ≤ width

/-- Words in lines of which none has room for the first word below it. -/
structure Filled (width : Nat) (words : List (List Char))
    (lines : List (List (List Char))) : Prop extends IsLayout width words lines where
  full : ∀ above line below, lines = above ++ line :: below →
    ∀ word ∈ below.flatten.head?, width < (spaced line).length + 1 + word.length

/-- A word as it is laid out: the pieces that fill a line each, and what is left. -/
def cut (width : Nat) (word : List Char) : List (List Char) :=
  (chop width word).1 ++ [(chop width word).2]

section Build

variable {width : Nat} {line words : List (List Char)} {lines : List (List (List Char))}

theorem filled_nil (width : Nat) : Filled width [] [] where
  flatten := rfl
  nonempty := nofun
  fits := nofun
  full := by
    intro above line below split
    exact absurd split.symm (List.append_ne_nil_of_right_ne_nil above (List.cons_ne_nil _ _))

/-- In front of filled lines may stand a line that has no room for their first word. -/
theorem Filled.cons (filled : Filled width words lines) (begun : line ≠ [])
    (fits : (spaced line).length ≤ width)
    (full : ∀ word ∈ words.head?, width < (spaced line).length + 1 + word.length) :
    Filled width (line ++ words) (line :: lines) where
  flatten := by rw [List.flatten_cons, filled.flatten]
  nonempty := List.forall_mem_cons.mpr ⟨begun, filled.nonempty⟩
  fits := List.forall_mem_cons.mpr ⟨fits, filled.fits⟩
  full := by
    intro above last below split
    cases above with
    | nil =>
      cases split
      rw [filled.flatten]
      exact full
    | cons first above =>
      cases split
      exact filled.full above last below rfl

/-- Behind the first of filled lines the others are filled. -/
theorem Filled.tail (filled : Filled width words (line :: lines)) :
    Filled width lines.flatten lines where
  flatten := rfl
  nonempty := (List.forall_mem_cons.mp filled.nonempty).2
  fits := (List.forall_mem_cons.mp filled.fits).2
  full := by
    intro above last below split
    refine filled.full (line :: above) last below ?_
    rw [split, List.cons_append]

/-- Pieces that fill a line each stand in front of filled lines, each on a line of its own. -/
theorem Filled.pieces {pieces : List (List Char)}
    (wide : ∀ piece ∈ pieces, piece.length = width) (filled : Filled width words lines) :
    Filled width (pieces ++ words) (pieces.map ([·]) ++ lines) := by
  induction pieces with
  | nil => exact filled
  | cons piece more ih =>
    obtain ⟨own, others⟩ := List.forall_mem_cons.mp wide
    have exactly : (spaced [piece]).length = width := by rw [spaced_singleton, own]
    refine (ih others).cons (List.cons_ne_nil piece []) (Nat.le_of_eq exactly) ?_
    intro word _
    omega

end Build

section Cut

variable {width : Nat} {word piece : List Char}

/-- Nothing of a word is lost when it is cut. -/
theorem flatten_cut (width : Nat) (word : List Char) : (cut width word).flatten = word := by
  rw [cut, List.flatten_append, List.flatten_singleton, flatten_chop]

theorem flatten_flatMap_cut (width : Nat) (words : List (List Char)) :
    (words.flatMap (cut width)).flatten = words.flatten := by
  induction words with
  | nil => rfl
  | cons word words ih =>
    rw [List.flatMap_cons, List.flatten_append, flatten_cut, ih, List.flatten_cons]

theorem cut_ne_nil (width : Nat) (word : List Char) : cut width word ≠ [] :=
  List.append_ne_nil_of_right_ne_nil _ (List.cons_ne_nil _ _)

/-- A word that fits a line is not cut. -/
theorem cut_of_fits (fits : word.length ≤ width) : cut width word = [word] := by
  rw [cut, chop_of_fits fits]
  rfl

theorem flatMap_cut_of_fits {words : List (List Char)}
    (fits : ∀ word ∈ words, word.length ≤ width) : words.flatMap (cut width) = words := by
  induction words with
  | nil => rfl
  | cons word words ih =>
    obtain ⟨own, others⟩ := List.forall_mem_cons.mp fits
    rw [List.flatMap_cons, cut_of_fits own, ih others, List.singleton_append]

/-- A word is not cut into nothing. -/
theorem ne_nil_of_mem_cut (room : 0 < width) (solid : word ≠ [])
    (present : piece ∈ cut width word) : piece ≠ [] := by
  rcases List.mem_append.mp present with inside | last
  · rintro rfl
    have wide := length_of_mem_chop inside
    exact Nat.ne_of_lt room wide
  · rw [List.mem_singleton.mp last]
    exact left_ne_nil solid

/-- A word begins with a piece that fills a line, or it is all of one piece. -/
theorem length_of_mem_head?_cut {behind : List (List Char)}
    (first : piece ∈ (cut width word ++ behind).head?) : piece.length = width ∨ piece = word := by
  unfold cut at first
  cases pieces : (chop width word).1 with
  | nil =>
    have whole := flatten_chop width word
    rw [pieces] at first whole
    cases first
    exact Or.inr whole
  | cons piece more =>
    rw [pieces] at first
    cases first
    have present : piece ∈ (chop width word).1 := by
      rw [pieces]
      exact List.mem_cons_self
    exact Or.inl (length_of_mem_chop present)

end Cut

section Wrap

variable {width : Nat} {word : List Char} {line words : List (List Char)}

/-- Wrapping goes on behind the words of a line as lines say, and these are filled. -/
def Lays (width : Nat) (line words : List (List Char)) (lines : List (List (List Char))) : Prop :=
  linesFrom width (spaced line) words = lines.map spaced ∧
    Filled width (line ++ words.flatMap (cut width)) lines

/-- A word is laid out from a new line on if the words behind it are, whatever line they go on
from. -/
theorem exists_lays_newLine (room : 0 < width) (solid : word ≠ [])
    (behind : ∀ {line}, spaced line ≠ [] → (spaced line).length ≤ width →
      ∃ lines, Lays width line words lines) :
    ∃ lines, Lays width [] (word :: words) lines := by
  have left := spaced_singleton (chop width word).2
  have begun : spaced [(chop width word).2] ≠ [] := by
    rw [left]
    exact left_ne_nil solid
  have fits : (spaced [(chop width word).2]).length ≤ width := by
    rw [left]
    exact length_left_le room
  obtain ⟨lines, laid, filled⟩ := behind begun fits
  refine ⟨(chop width word).1.map ([·]) ++ lines, ?_, ?_⟩
  · have alone : ((chop width word).1.map ([·])).map spaced = (chop width word).1 := by
      simp [Function.comp_def]
    rw [spaced_nil, linesFrom_nil_cons, List.map_append, alone, ← laid, left]
  · rw [List.nil_append, List.flatMap_cons, cut, List.append_assoc]
    exact filled.pieces fun _ => length_of_mem_chop

/-- Words are laid out behind what stands on a line. The induction is on the words still to
come: a word that fits joins those on the line, and any other ends the line. -/
theorem exists_lays (room : 0 < width) (solid : ∀ word ∈ words, word ≠ [])
    (begun : spaced line ≠ []) (fits : (spaced line).length ≤ width) :
    ∃ lines, Lays width line words lines := by
  induction words generalizing line with
  | nil =>
    refine ⟨[line], rfl, (filled_nil width).cons ?_ fits nofun⟩
    rintro rfl
    exact begun rfl
  | cons word words ih =>
    obtain ⟨own, others⟩ := List.forall_mem_cons.mp solid
    have started : line ≠ [] := by
      rintro rfl
      exact begun rfl
    by_cases together : (spaced line).length + 1 + word.length ≤ width
    · have whole : cut width word = [word] := cut_of_fits (by omega)
      have joined : spaced (line ++ [word]) = spaced line ++ ' ' :: word := by
        rw [spaced_append started, spaced_singleton]
      have joinedBegun : spaced (line ++ [word]) ≠ [] := by
        rw [joined]
        exact List.append_ne_nil_of_left_ne_nil begun _
      have joinedFits : (spaced (line ++ [word])).length ≤ width := by
        rw [joined, List.length_append, List.length_cons]
        omega
      obtain ⟨lines, laid, filled⟩ := ih others joinedBegun joinedFits
      refine ⟨lines, ?_, ?_⟩
      · rw [linesFrom_of_fits begun together, ← joined, laid]
      · rw [List.flatMap_cons, whole, ← List.append_assoc]
        exact filled
    · obtain ⟨lines, laid, filled⟩ := exists_lays_newLine room own (ih others)
      refine ⟨line :: lines, ?_, filled.cons started fits ?_⟩
      · rw [linesFrom_of_full begun (Nat.lt_of_not_le together), List.map_cons, ← laid,
          spaced_nil]
      · intro piece first
        rcases length_of_mem_head?_cut first with wide | rfl
        · omega
        · omega

/-- A line of words that are not empty is not empty. -/
theorem spaced_ne_nil (begun : line ≠ []) (solid : ∀ word ∈ line, word ≠ []) :
    spaced line ≠ [] := by
  cases line with
  | nil => exact absurd rfl begun
  | cons word more =>
    have own := solid word List.mem_cons_self
    cases more with
    | nil => rwa [spaced_singleton]
    | cons next more =>
      rw [spaced, List.intercalate_cons_cons, List.append_assoc]
      exact List.append_ne_nil_of_left_ne_nil own _

/-- What stands on the lines of a layout is one of its words. -/
theorem IsLayout.mem {lines : List (List (List Char))} (layout : IsLayout width words lines)
    (laid : line ∈ lines) (present : word ∈ line) : word ∈ words := by
  rw [← layout.flatten]
  exact List.mem_flatten.mpr ⟨line, laid, present⟩

/-- No line of words that are not empty is empty. -/
theorem IsLayout.spaced_ne_nil {lines : List (List (List Char))}
    (layout : IsLayout width words lines) (solid : ∀ word ∈ words, word ≠ [])
    (laid : line ∈ lines) : spaced line ≠ [] :=
  Text.spaced_ne_nil (layout.nonempty line laid) fun word present =>
    solid word (layout.mem laid present)

/-- Words that are not empty are not cut into empty ones. -/
theorem ne_nil_of_mem_flatMap_cut (room : 0 < width) (solid : ∀ word ∈ words, word ≠ []) :
    ∀ piece ∈ words.flatMap (cut width), piece ≠ [] := by
  intro piece present
  obtain ⟨word, own, inside⟩ := List.mem_flatMap.mp present
  exact ne_nil_of_mem_cut room (solid word own) inside

/-- Wrapped text shows filled lines of the words, each cut if it is wider than a line. -/
theorem exists_filled_wrap (width : Nat) (solid : ∀ word ∈ words, word ≠ []) :
    ∃ lines, wrap width words = (lines.map spaced).flatMap (· ++ ['\n']) ∧
      Filled (max width 1) (words.flatMap (cut (max width 1))) lines := by
  have room : 0 < max width 1 := by omega
  cases words with
  | nil => exact ⟨[], rfl, filled_nil _⟩
  | cons word words =>
    obtain ⟨own, others⟩ := List.forall_mem_cons.mp solid
    obtain ⟨lines, laid, filled⟩ := exists_lays_newLine room own (exists_lays room others)
    have written : linesFrom (max width 1) [] (word :: words) = lines.map spaced := laid
    have someLine : lines.map spaced ≠ [[]] := by
      intro blank
      obtain ⟨line, present, none⟩ := List.mem_map.mp (blank ▸ List.mem_singleton_self [])
      exact filled.spaced_ne_nil (ne_nil_of_mem_flatMap_cut room solid) present none
    refine ⟨lines, ?_, filled⟩
    rw [wrap, written, linesText, if_neg someLine]

end Wrap

section Characters

variable {width : Nat} {line words : List (List Char)} {lines : List (List (List Char))}

/-- A line holds its words and blanks, nothing else. -/
theorem not_mem_spaced {c : Char} (visible : c ≠ ' ') (absent : ∀ word ∈ line, c ∉ word) :
    c ∉ spaced line := by
  induction line with
  | nil => exact List.not_mem_nil
  | cons word more ih =>
    obtain ⟨own, others⟩ := List.forall_mem_cons.mp absent
    cases more with
    | nil => rwa [spaced_singleton]
    | cons next more =>
      have split := spaced_append (List.cons_ne_nil word []) next more
      rw [List.singleton_append, spaced_singleton] at split
      rw [split, List.mem_append, List.mem_cons]
      rintro (inside | same | later)
      · exact own inside
      · exact visible same
      · exact ih others later

/-- A line of words without blanks has no blank at either end. -/
theorem spaced_ends (begun : line ≠ []) (solid : ∀ word ∈ line, word ≠ [])
    (unblank : ∀ word ∈ line, ' ' ∉ word) :
    (spaced line).head? ≠ some ' ' ∧ (spaced line).getLast? ≠ some ' ' := by
  constructor
  · obtain ⟨word, more, rfl⟩ := List.exists_cons_of_ne_nil begun
    have starts : ∃ rest, spaced (word :: more) = word ++ rest := by
      cases more with
      | nil => exact ⟨[], by simp⟩
      | cons next more =>
        have split := spaced_append (List.cons_ne_nil word []) next more
        rw [List.singleton_append, spaced_singleton] at split
        exact ⟨_, split⟩
    obtain ⟨rest, starts⟩ := starts
    obtain ⟨c, cs, rfl⟩ := List.exists_cons_of_ne_nil (solid word List.mem_cons_self)
    rw [starts]
    rintro ⟨⟩
    exact unblank _ List.mem_cons_self List.mem_cons_self
  · obtain ⟨front, word, rfl⟩ := (List.eq_nil_or_concat line).resolve_left begun
    rw [List.concat_eq_append] at solid unblank ⊢
    have present : word ∈ front ++ [word] := List.mem_append_right front List.mem_cons_self
    have ends : ∃ before, spaced (front ++ [word]) = before ++ word := by
      cases front with
      | nil => exact ⟨[], by simp⟩
      | cons first front =>
        refine ⟨spaced (first :: front) ++ [' '], ?_⟩
        rw [spaced_append (List.cons_ne_nil first front), spaced_singleton, List.append_assoc,
          List.singleton_append]
    obtain ⟨before, ends⟩ := ends
    obtain ⟨cs, c, rfl⟩ := (List.eq_nil_or_concat word).resolve_left (solid word present)
    rw [ends, List.concat_eq_append, ← List.append_assoc, List.getLast?_concat]
    rintro ⟨⟩
    exact unblank _ present (by simp)

/-- What a word does not hold its pieces do not hold. -/
theorem not_mem_of_mem_cut {c : Char} {word piece : List Char} (absent : c ∉ word)
    (present : piece ∈ cut width word) : c ∉ piece := by
  intro inside
  refine absent ?_
  rw [← flatten_cut width word]
  exact List.mem_flatten.mpr ⟨piece, present, inside⟩

/-- What no word holds is on no line of the cut words. -/
theorem IsLayout.not_mem {c : Char} (layout : IsLayout width (words.flatMap (cut width)) lines)
    (absent : ∀ word ∈ words, c ∉ word) (laid : line ∈ lines) : ∀ piece ∈ line, c ∉ piece := by
  intro piece present
  obtain ⟨word, own, inside⟩ := List.mem_flatMap.mp (layout.mem laid present)
  exact not_mem_of_mem_cut (absent word own) inside

/-- Lines of words without newlines have no newline. -/
theorem IsLayout.unbroken (layout : IsLayout width (words.flatMap (cut width)) lines)
    (absent : ∀ word ∈ words, '\n' ∉ word) : ∀ shown ∈ lines.map spaced, '\n' ∉ shown := by
  intro shown present
  obtain ⟨line, laid, rfl⟩ := List.mem_map.mp present
  exact not_mem_spaced (by decide) (layout.not_mem absent laid)

end Characters

section Fewest

variable {width : Nat} {line words : List (List Char)} {lines : List (List (List Char))}

/-- A line is as long as its words with a blank behind each but the last. -/
theorem length_spaced (words : List (List Char)) :
    (spaced words).length = words.flatten.length + words.length - 1 := by
  induction words with
  | nil => rfl
  | cons word more ih =>
    cases more with
    | nil => simp
    | cons next more =>
      rw [spaced, List.intercalate_cons_cons]
      rw [spaced] at ih
      rw [List.length_append, List.length_append, ih]
      simp only [List.flatten_cons, List.length_append, List.length_cons, List.length_nil]
      omega

/-- A line with room for a stretch of words has room for the words in front of its last one,
that one and a blank. -/
theorem length_spaced_infix (front : List (List Char)) {line : List (List Char)}
    (begun : line ≠ []) (word : List Char) (back : List (List Char)) :
    (spaced line).length + 1 + word.length ≤
      (spaced (front ++ (line ++ word :: back))).length := by
  obtain ⟨first, rest, rfl⟩ := List.exists_cons_of_ne_nil begun
  simp only [length_spaced, List.flatten_append, List.flatten_cons, List.length_append,
    List.length_cons]
  omega

/-- Lines that a width has room for are no fewer than filled lines, even if they hold more
words in front. Line by line, they end no further on than the filled lines do: on a line that
ended further on would stand all words of a filled line and the word it has no room for. -/
theorem Filled.length_le_of_fits (filled : Filled width words lines)
    {others : List (List (List Char))} (fits : ∀ line ∈ others, (spaced line).length ≤ width)
    (ahead : List (List Char)) (flat : others.flatten = ahead ++ lines.flatten) :
    lines.length ≤ others.length := by
  induction others generalizing lines words ahead with
  | nil =>
    cases lines with
    | nil => exact Nat.le_refl 0
    | cons line lines =>
      have none := (List.append_eq_nil_iff.mp flat.symm).2
      rw [List.flatten_cons] at none
      exact absurd (List.append_eq_nil_iff.mp none).1 (filled.nonempty line List.mem_cons_self)
  | cons other others ih =>
    obtain ⟨own, later⟩ := List.forall_mem_cons.mp fits
    cases lines with
    | nil => exact Nat.zero_le _
    | cons line lines =>
      rw [List.flatten_cons, List.flatten_cons, ← List.append_assoc] at flat
      refine Nat.succ_le_succ ?_
      rcases List.append_eq_append_iff.mp flat with ⟨rest, _, left⟩ | ⟨more, longer, behind⟩
      · exact ih filled.tail later rest left
      · cases more with
        | nil => exact ih filled.tail later [] behind.symm
        | cons word more =>
          have begun := filled.nonempty line List.mem_cons_self
          have full := filled.full [] line lines rfl word (by rw [behind]; rfl)
          have room := length_spaced_infix ahead begun word more
          rw [← List.append_assoc, ← longer] at room
          omega

end Fewest

end AllowList.Text
