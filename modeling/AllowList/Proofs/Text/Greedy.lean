import AllowList.Proofs.Text.Filled

/-!
# Where wrapped words stand

Filled lines leave no choice where a word goes. One that fits a line stands whole on a line.
One that is wider is in pieces: each that fills a line stands there alone, and what is left
begins the line below them. And of two words in a row the second stands on the line where the
first one ends exactly if it fits there. `Filled.greedy` says so for every place in the words.

A place is told by what stands in front of it: the characters on the lines above and to the
left, which are those of the words in front.
-/

namespace AllowList.Text

/-- A word stands whole on a line, behind the words in front. -/
def StandsWhole (front : List (List Char)) (word : List Char)
    (lines : List (List (List Char))) : Prop :=
  ∃ above left right below, lines = above ++ (left ++ word :: right) :: below ∧
    (above.flatten ++ left).flatten = front.flatten

/-- A word stands in pieces, behind the words in front: from the beginning of a line on, each
piece but the last fills a line of its own, and the last begins the line below. -/
def StandsCut (width : Nat) (front : List (List Char)) (word : List Char)
    (lines : List (List (List Char))) : Prop :=
  ∃ (above : List (List (List Char))) (full : List (List Char)) (last : List Char)
    (right : List (List Char)) (below : List (List (List Char))),
    lines = above ++ full.map ([·]) ++ (last :: right) :: below ∧
    above.flatten.flatten = front.flatten ∧ full.flatten ++ last = word ∧
    (∀ piece ∈ full, piece.length = width) ∧ 1 ≤ last.length ∧ last.length ≤ width

/-- Behind the words that have been placed up to some place, the next word stands on the line
that they end on if that has room for it, and else it begins the line below. -/
def GoesOn (width : Nat) (placed : List (List Char)) (next : List Char)
    (back : List (List Char)) (lines : List (List (List Char))) : Prop :=
  ∃ above line right below, lines = above ++ (line ++ right) :: below ∧ line ≠ [] ∧
    (above.flatten ++ line).flatten = placed.flatten ∧
    ((spaced line).length + 1 + next.length ≤ width → ∃ more, right = next :: more) ∧
    (width < (spaced line).length + 1 + next.length →
      right = [] ∧ below.flatten.flatten = (next :: back).flatten)

/-- Words placed on lines as they come, each as early as it can be and cut only if no line is
wide enough for it. -/
structure Greedy (width : Nat) (words : List (List Char))
    (lines : List (List (List Char))) : Prop where
  /-- Something stands on every line, and nothing that stands there is empty. -/
  solid : ∀ line ∈ lines, line ≠ [] ∧ ∀ piece ∈ line, piece ≠ []
  /-- What stands on the lines is the words, one behind the other. -/
  complete : lines.flatten.flatten = words.flatten
  whole : ∀ front word back, words = front ++ word :: back → word.length ≤ width →
    StandsWhole front word lines
  apart : ∀ front word back, words = front ++ word :: back → width < word.length →
    StandsCut width front word lines
  neighbours : ∀ front word next back, words = front ++ word :: next :: back →
    GoesOn width (front ++ [word]) next back lines

/-- Where a front of listed items ends, some list ends or is parted in two. -/
theorem exists_end_of_flatten {α : Type} {lists : List (List α)} {front back : List α}
    (split : lists.flatten = front ++ back) (begun : front ≠ []) :
    ∃ above list right below, lists = above ++ (list ++ right) :: below ∧ list ≠ [] ∧
      above.flatten ++ list = front ∧ right ++ below.flatten = back := by
  induction lists generalizing front with
  | nil => exact absurd (List.append_eq_nil_iff.mp split.symm).1 begun
  | cons first rest ih =>
    rw [List.flatten_cons] at split
    rcases List.append_eq_append_iff.mp split with ⟨more, rfl, later⟩ | ⟨right, rfl, behind⟩
    · cases more with
      | nil =>
        rw [List.append_nil] at begun ⊢
        exact ⟨[], first, [], rest, by rw [List.append_nil]; rfl, begun, rfl, later⟩
      | cons item more =>
        obtain ⟨above, list, right, below, rfl, someItem, fronts, backs⟩ :=
          ih later (List.cons_ne_nil item more)
        refine ⟨first :: above, list, right, below, rfl, someItem, ?_, backs⟩
        rw [List.flatten_cons, List.append_assoc, fronts]
    · exact ⟨[], front, right, rest, rfl, begun, rfl, behind.symm⟩

/-- An item that is listed stands in some list. -/
theorem exists_list_of_flatten {α : Type} {lists : List (List α)} {front back : List α} {item : α}
    (split : lists.flatten = front ++ item :: back) :
    ∃ above left right below, lists = above ++ (left ++ item :: right) :: below ∧
      above.flatten ++ left = front ∧ right ++ below.flatten = back := by
  rw [← List.singleton_append, ← List.append_assoc] at split
  obtain ⟨above, list, right, below, rfl, someItem, fronts, backs⟩ :=
    exists_end_of_flatten split (List.append_ne_nil_of_right_ne_nil front (List.cons_ne_nil _ _))
  obtain ⟨left, last, rfl⟩ := (List.eq_nil_or_concat list).resolve_left someItem
  rw [List.concat_eq_append, ← List.append_assoc] at fronts
  obtain ⟨sameFront, sameLast⟩ := List.append_inj' fronts rfl
  cases sameLast
  refine ⟨above, left, right, below, ?_, sameFront, backs⟩
  rw [List.concat_eq_append, List.append_assoc, List.singleton_append]

section Place

variable {width : Nat} {line words : List (List Char)} {lines : List (List (List Char))}

/-- The first word of a layout stands first on its first line. -/
theorem IsLayout.exists_head {word : List Char} (layout : IsLayout width (word :: words) lines) :
    ∃ right below, lines = (word :: right) :: below := by
  obtain ⟨flat, nonempty, _⟩ := layout
  match lines with
  | [] => cases flat
  | [] :: below => exact absurd rfl (nonempty [] List.mem_cons_self)
  | (first :: right) :: below =>
    rw [List.flatten_cons, List.cons_append] at flat
    exact ⟨right, below, by rw [(List.cons.inj flat).1]⟩

/-- What stands below a line is laid out, too. -/
theorem IsLayout.below (above : List (List (List Char))) {below : List (List (List Char))}
    (layout : IsLayout width words (above ++ line :: below)) :
    IsLayout width below.flatten below := by
  have later {other : List (List Char)} (present : other ∈ below) :
      other ∈ above ++ line :: below :=
    List.mem_append_right above (List.mem_cons_of_mem line present)
  exact ⟨rfl, fun other present => layout.nonempty other (later present),
    fun other present => layout.fits other (later present)⟩

/-- What fills a line stands there alone. -/
theorem IsLayout.alone {left right : List (List Char)} {piece : List Char}
    (layout : IsLayout width words lines) (laid : left ++ piece :: right ∈ lines)
    (wide : piece.length = width) : left = [] ∧ right = [] := by
  have fits := layout.fits _ laid
  constructor
  · cases left with
    | nil => rfl
    | cons first left =>
      have room := length_spaced_infix [] (List.cons_ne_nil first left) piece right
      rw [List.nil_append] at room
      omega
  · cases right with
    | nil => rfl
    | cons next right =>
      have room := length_spaced_infix left (List.cons_ne_nil piece []) next right
      rw [List.singleton_append, spaced_singleton] at room
      omega

/-- Pieces that fill a line each stand on the first lines if they come first. -/
theorem IsLayout.exists_alone {full : List (List Char)}
    (wide : ∀ piece ∈ full, piece.length = width) (layout : IsLayout width (full ++ words) lines) :
    ∃ below, lines = full.map ([·]) ++ below ∧ IsLayout width words below := by
  induction full generalizing lines with
  | nil => exact ⟨lines, rfl, layout⟩
  | cons piece more ih =>
    obtain ⟨own, others⟩ := List.forall_mem_cons.mp wide
    obtain ⟨right, below, rfl⟩ := layout.exists_head
    have first : [] ++ piece :: right ∈ (piece :: right) :: below := List.mem_cons_self
    obtain ⟨_, rfl⟩ := layout.alone first own
    have rest := layout.below []
    have flat := layout.flatten
    rw [List.flatten_cons, List.singleton_append, List.cons_append] at flat
    rw [(List.cons.inj flat).2] at rest
    obtain ⟨under, rfl, laid⟩ := ih others rest
    exact ⟨under, rfl, laid⟩

/-- A piece of a word that is cut is no longer than the word. -/
theorem length_le_of_mem_cut {word piece : List Char} (present : piece ∈ cut width word) :
    piece.length ≤ word.length := by
  have inside := (List.sublist_flatten_of_mem present).length_le
  rwa [flatten_cut] at inside

variable (filled : Filled width (words.flatMap (cut width)) lines)
include filled

/-- A word that fits a line stands whole on one. -/
theorem Filled.whole {front back : List (List Char)} {word : List Char}
    (split : words = front ++ word :: back) (fits : word.length ≤ width) :
    StandsWhole front word lines := by
  have flat := filled.flatten
  rw [split, List.flatMap_append, List.flatMap_cons, cut_of_fits fits] at flat
  obtain ⟨above, left, right, below, same, fronts, _⟩ := exists_list_of_flatten flat
  exact ⟨above, left, right, below, same, by rw [fronts, flatten_flatMap_cut]⟩

/-- A wider word is in pieces that fill lines of their own, and what is left of it begins the
line below. -/
theorem Filled.cut_apart (room : 0 < width) {front back : List (List Char)} {word : List Char}
    (split : words = front ++ word :: back) (wide : width < word.length) :
    StandsCut width front word lines := by
  have whole := flatten_chop width word
  have full : ∀ piece ∈ (chop width word).1, piece.length = width := fun _ => length_of_mem_chop
  have someWord : word ≠ [] := by
    rintro rfl
    exact Nat.not_lt_zero _ wide
  have some : 0 < (chop width word).2.length := List.length_pos_iff.mpr (left_ne_nil someWord)
  have short : (chop width word).2.length ≤ width := length_left_le room
  have flat := filled.flatten
  rw [split, List.flatMap_append, List.flatMap_cons, cut] at flat
  generalize (chop width word).1 = pieces at whole full flat
  generalize (chop width word).2 = last at whole some short flat
  cases pieces with
  | nil =>
    rw [List.flatten_nil, List.nil_append] at whole
    rw [← whole] at wide
    exact absurd short (Nat.not_le_of_lt wide)
  | cons piece pieces =>
    obtain ⟨own, others⟩ := List.forall_mem_cons.mp full
    simp only [List.cons_append, List.append_assoc] at flat
    obtain ⟨above, left, right, under, same, fronts, backs⟩ := exists_list_of_flatten flat
    have layout := filled.toIsLayout
    rw [same] at layout
    obtain ⟨rfl, rfl⟩ := layout.alone (List.mem_append_right above List.mem_cons_self) own
    have rest := layout.below above
    rw [List.nil_append] at backs
    rw [backs] at rest
    obtain ⟨ending, rfl, laid⟩ := rest.exists_alone others
    obtain ⟨right, below, rfl⟩ := laid.exists_head
    refine ⟨above, piece :: pieces, last, right, below, ?_, ?_, whole, full, some, short⟩
    · rw [same, List.append_assoc]
      rfl
    · rw [List.append_nil] at fronts
      rw [fronts, flatten_flatMap_cut]

/-- Of two words in a row the second stands on the line where the first one ends if it fits
there, and else it begins the line below. -/
theorem Filled.neighbours {front back : List (List Char)} {word next : List Char}
    (split : words = front ++ word :: next :: back) :
    GoesOn width (front ++ [word]) next back lines := by
  have flat := filled.flatten
  have parted : front ++ word :: next :: back = (front ++ [word]) ++ (next :: back) := by simp
  have begun : (front ++ [word]).flatMap (cut width) ≠ [] := by
    rw [List.flatMap_append, List.flatMap_singleton]
    exact List.append_ne_nil_of_right_ne_nil _ (cut_ne_nil width word)
  rw [split, parted, List.flatMap_append] at flat
  obtain ⟨above, line, right, below, rfl, someWord, fronts, backs⟩ :=
    exists_end_of_flatten flat begun
  refine ⟨above, line, right, below, rfl, someWord, ?_, ?_⟩
  · rw [fronts, flatten_flatMap_cut]
  · cases right with
    | nil =>
      -- the line ends with the first word: the second begins below, since it does not fit
      rw [List.nil_append] at backs
      have first : ∃ piece more, cut width next = piece :: more :=
        List.exists_cons_of_ne_nil (cut_ne_nil width next)
      obtain ⟨piece, more, pieces⟩ := first
      have inside : piece ∈ cut width next := by
        rw [pieces]
        exact List.mem_cons_self
      have short := length_le_of_mem_cut inside
      have full := filled.full above (line ++ []) below rfl piece (by
        rw [backs, List.flatMap_cons, pieces]
        rfl)
      rw [List.append_nil] at full
      constructor
      · intro fits
        omega
      · intro _
        exact ⟨rfl, by rw [backs, flatten_flatMap_cut]⟩
    | cons piece more =>
      -- something of the second word stands on the line, which has no room for a piece that
      -- fills a line, so it is all of the word
      have fits := filled.fits (line ++ piece :: more)
        (List.mem_append_right above List.mem_cons_self)
      have room := length_spaced_infix [] someWord piece more
      rw [List.nil_append] at room
      rw [List.flatMap_cons] at backs
      have first : piece ∈ (cut width next ++ back.flatMap (cut width)).head? := by
        rw [← backs]
        rfl
      rcases length_of_mem_head?_cut first with wide | rfl
      · omega
      · constructor
        · exact fun _ => ⟨more, rfl⟩
        · intro tight
          omega

/-- Filled lines place words greedily. -/
theorem Filled.greedy (room : 0 < width) (solid : ∀ word ∈ words, word ≠ []) :
    Greedy width words lines where
  solid line laid := by
    constructor
    · exact filled.nonempty line laid
    · intro piece present
      exact ne_nil_of_mem_flatMap_cut room solid piece (filled.mem laid present)
  complete := by rw [filled.flatten, flatten_flatMap_cut]
  whole _ _ _ := filled.whole
  apart _ _ _ := filled.cut_apart room
  neighbours _ _ _ _ := filled.neighbours

end Place

/-- The word that is wider than a line is cut, and what is left of it has a line of its own
since the next word does not fit behind it. -/
example : wrap 9 ["linearGradient,".toList, "table,".toList, "é".toList] =
    "linearGra\ndient,\ntable, é\n".toList := by
  decide +kernel

end AllowList.Text
