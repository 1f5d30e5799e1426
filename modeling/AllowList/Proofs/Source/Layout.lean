import AllowList.Proofs.Source.Grammar
import Mathlib.Data.List.Forall2
import Mathlib.Data.List.Infix

/-!
# The layout of a source list

A list says what the contents of its rows say, and an empty content says nothing. The rest is
layout: white space around a content, comments, and rows without content. `Relaid` changes the
layout of rows and nothing else: rows can be relaid into others exactly when they have the same
contents in the same order, empty ones apart (`relaid_iff`).
-/

namespace AllowList.Source

open Text

/-- The contents of rows, in their order, without the empty ones. -/
def HasContents (rows contents : List (List Char)) : Prop :=
  ∃ all, List.Forall₂ IsContent rows all ∧ contents = all.filter (· ≠ [])

/-- Rows in another layout. -/
inductive Relaid : List (List Char) → List (List Char) → Prop where
  /-- White space is put in front of a row. -/
  | indented {c : Char} (blank : isBlank c = true) (row : List Char) : Relaid [row] [c :: row]
  /-- White space is put behind a row, such as the carriage return of another line ending. -/
  | trailed {c : Char} (blank : isBlank c = true) (row : List Char) : Relaid [row] [row ++ [c]]
  /-- A comment is put behind a row, but not right behind a slash: there the mark would begin
  with that slash. -/
  | commented {row : List Char} (apart : row.getLast? ≠ some '/') (comment : List Char) :
    Relaid [row] [row ++ slashes ++ comment]
  /-- An empty row is put in. -/
  | added : Relaid [] [[]]
  | within {rows others : List (List Char)} (relaid : Relaid rows others)
    (front back : List (List Char)) : Relaid (front ++ rows ++ back) (front ++ others ++ back)
  | symm {rows others : List (List Char)} (relaid : Relaid rows others) : Relaid others rows
  | trans {rows middle others : List (List Char)} (first : Relaid rows middle)
    (second : Relaid middle others) : Relaid rows others

/-- White space is no part of a comment mark. -/
theorem ne_slash_of_isBlank {c : Char} (blank : isBlank c = true) : c ≠ '/' := by
  rintro rfl
  exact absurd blank (by decide)

/-- A comment mark that ends with a row's last character begins with the one in front of it. -/
theorem slashes_infix_concat {row : List Char} {c : Char} :
    slashes <:+: row ++ [c] ↔ (row.getLast? = some '/' ∧ c = '/') ∨ slashes <:+: row := by
  rw [List.infix_concat_iff]
  refine or_congr_left ?_
  constructor
  · rintro ⟨front, same⟩
    have parts : front ++ ['/'] ++ ['/'] = row ++ [c] := by simpa [slashes] using same
    obtain ⟨rfl, last⟩ := List.append_inj' parts rfl
    exact ⟨by simp, (List.cons.inj last).1.symm⟩
  · rintro ⟨last, rfl⟩
    obtain ⟨front, rfl⟩ := List.getLast?_eq_some_iff.mp last
    exact ⟨front, by simp [slashes]⟩

section content

variable {row part content : List Char} {c : Char}

/-- White space in front of a row stands in front of its comment. -/
theorem BeforeComment.indented (before : BeforeComment row part) (blank : isBlank c = true) :
    BeforeComment (c :: row) (c :: part) := by
  have apart := ne_slash_of_isBlank blank
  cases before with
  | whole unmarked => exact .whole (by simp [slashes_infix_cons, apart, unmarked])
  | cut _ rest first => exact .cut (c :: part) rest (by simp [slashes_infix_cons, apart, first])

/-- White space behind a row is in its comment or stands in front of none. -/
theorem BeforeComment.trailed (before : BeforeComment row part) (blank : isBlank c = true) :
    BeforeComment (row ++ [c]) part ∨ BeforeComment (row ++ [c]) (part ++ [c]) := by
  have apart := ne_slash_of_isBlank blank
  cases before with
  | whole unmarked => exact .inr (.whole (by simp [slashes_infix_concat, apart, unmarked]))
  | cut _ rest first =>
    rw [List.append_assoc]
    exact .inl (.cut part (rest ++ [c]) first)

/-- What is put behind a row as a comment is one, or is in the comment that is there. -/
theorem BeforeComment.commented (before : BeforeComment row part)
    (apart : row.getLast? ≠ some '/') (comment : List Char) :
    BeforeComment (row ++ slashes ++ comment) part := by
  cases before with
  | whole unmarked => exact .cut row comment (by simp [slashes_infix_concat, apart, unmarked])
  | cut _ rest first =>
    have behind : part ++ slashes ++ rest ++ slashes ++ comment =
        part ++ slashes ++ (rest ++ slashes ++ comment) := by simp only [List.append_assoc]
    rw [behind]
    exact .cut part _ first

/-- White space in front of a text is trimmed off. -/
theorem isTrimmed_cons (trimmed : IsTrimmed part content) (blank : isBlank c = true) :
    IsTrimmed (c :: part) content := by
  obtain ⟨front, back, rfl, frontBlank, rest⟩ := trimmed
  exact ⟨c :: front, back, rfl, List.forall_mem_cons.mpr ⟨blank, frontBlank⟩, rest⟩

/-- White space behind a text is trimmed off. -/
theorem isTrimmed_concat (trimmed : IsTrimmed part content) (blank : isBlank c = true) :
    IsTrimmed (part ++ [c]) content := by
  obtain ⟨front, back, rfl, frontBlank, backBlank, ends⟩ := trimmed
  refine ⟨front, back ++ [c], by simp only [List.append_assoc], frontBlank, ?_, ends⟩
  rw [List.forall_mem_append, List.forall_mem_singleton]
  exact ⟨backBlank, blank⟩

theorem IsContent.indented (isContent : IsContent row content) (blank : isBlank c = true) :
    IsContent (c :: row) content := by
  obtain ⟨part, before, trimmed⟩ := isContent
  exact ⟨c :: part, before.indented blank, isTrimmed_cons trimmed blank⟩

theorem IsContent.trailed (isContent : IsContent row content) (blank : isBlank c = true) :
    IsContent (row ++ [c]) content := by
  obtain ⟨part, before, trimmed⟩ := isContent
  rcases before.trailed blank with same | longer
  · exact ⟨part, same, trimmed⟩
  · exact ⟨part ++ [c], longer, isTrimmed_concat trimmed blank⟩

theorem IsContent.commented (isContent : IsContent row content)
    (apart : row.getLast? ≠ some '/') (comment : List Char) :
    IsContent (row ++ slashes ++ comment) content := by
  obtain ⟨part, before, trimmed⟩ := isContent
  exact ⟨part, before.commented apart comment, trimmed⟩

end content

/-- Rows have one list of contents. -/
theorem hasContents_iff {rows contents : List (List Char)} :
    HasContents rows contents ↔
      (rows.map fun row => trim (uncommented row)).filter (· ≠ []) = contents := by
  have whole (all : List (List Char)) : List.Forall₂ IsContent rows all ↔
      rows.map (fun row => trim (uncommented row)) = all := by
    rw [← List.forall₂_eq_eq_eq, List.forall₂_map_left_iff]
    constructor
    · exact fun each => each.imp fun _ _ => isContent_iff_trim.mp
    · exact fun each => each.imp fun _ _ => isContent_iff_trim.mpr
  simp only [HasContents, whole, exists_eq_left']
  exact eq_comm

namespace Relaid

variable {rows others : List (List Char)}

/-- Rows in another layout have the same contents. -/
theorem hasContents (relaid : Relaid rows others) {contents : List (List Char)} :
    HasContents rows contents ↔ HasContents others contents := by
  have content (row : List Char) : IsContent row (trim (uncommented row)) :=
    isContent_iff_trim.mpr rfl
  simp only [hasContents_iff]
  refine Eq.congr_left ?_
  induction relaid with
  | indented blank row =>
    rw [List.map_singleton, List.map_singleton,
      isContent_iff_trim.mp ((content row).indented blank)]
  | trailed blank row =>
    rw [List.map_singleton, List.map_singleton,
      isContent_iff_trim.mp ((content row).trailed blank)]
  | @commented row apart comment =>
    rw [List.map_singleton, List.map_singleton,
      isContent_iff_trim.mp ((content row).commented apart comment)]
  | added => rfl
  | within _ front back ih => simp only [List.map_append, List.filter_append, ih]
  | symm _ ih => exact ih.symm
  | trans _ _ first second => exact first.trans second

/-- Rows are in their own layout. -/
theorem refl (rows : List (List Char)) : Relaid rows rows := by
  have again := (added.trans added.symm).within rows []
  rwa [List.append_nil, List.append_nil] at again

/-- Rows behind a row are relaid on their own. -/
theorem cons {row content : List Char} (first : Relaid [row] [content])
    (rest : Relaid rows others) : Relaid (row :: rows) (content :: others) := by
  have inFront := first.within [] rows
  have behind := rest.within [content] []
  simp only [List.nil_append, List.singleton_append, List.append_nil] at inFront behind
  exact inFront.trans behind

/-- All white space in front of a row may go. -/
theorem unindented {front : List Char} (blank : ∀ c ∈ front, isBlank c = true)
    (row : List Char) : Relaid [front ++ row] [row] := by
  induction front with
  | nil => exact refl [row]
  | cons c rest ih =>
    obtain ⟨own, later⟩ := List.forall_mem_cons.mp blank
    exact (indented own (rest ++ row)).symm.trans (ih later)

/-- All white space behind a row may go. -/
theorem untrailed {back : List Char} (blank : ∀ c ∈ back, isBlank c = true)
    (row : List Char) : Relaid [row ++ back] [row] := by
  induction back generalizing row with
  | nil =>
    rw [List.append_nil]
    exact refl [row]
  | cons c rest ih =>
    obtain ⟨own, later⟩ := List.forall_mem_cons.mp blank
    have behind := ih later (row ++ [c])
    rw [List.append_assoc] at behind
    exact behind.trans (trailed own row).symm

/-- The comment of a row may go. -/
theorem of_beforeComment {row part : List Char} (before : BeforeComment row part) :
    Relaid [row] [part] := by
  cases before with
  | whole _ => exact refl [row]
  | cut _ rest first =>
    have apart : part.getLast? ≠ some '/' := by
      simp only [slashes_infix_concat, and_true, not_or] at first
      exact first.1
    exact (commented apart rest).symm

/-- A row may be laid out as its content alone. -/
theorem of_isContent {row content : List Char} (isContent : IsContent row content) :
    Relaid [row] [content] := by
  obtain ⟨part, before, front, back, rfl, frontBlank, backBlank, _⟩ := isContent
  refine (of_beforeComment before).trans ((untrailed backBlank _).trans ?_)
  exact unindented frontBlank content

/-- Rows may be laid out as their contents alone. -/
theorem of_hasContents {contents : List (List Char)} (hasContents : HasContents rows contents) :
    Relaid rows contents := by
  obtain ⟨all, each, rfl⟩ := hasContents
  induction each with
  | nil => exact refl []
  | @cons row own rows all isContent _ ih =>
    by_cases empty : own = []
    · subst empty
      have gone := (of_isContent isContent).cons ih
      have dropped := added.symm.within [] (all.filter (· ≠ []))
      simp only [List.nil_append, List.singleton_append] at dropped
      rw [List.filter_cons_of_neg (by simp)]
      exact gone.trans dropped
    · rw [List.filter_cons_of_pos (by simpa using empty)]
      exact (of_isContent isContent).cons ih

end Relaid

/-- Rows can be relaid into others when they have the same contents. -/
theorem relaid_iff {rows others : List (List Char)} :
    Relaid rows others ↔ ∃ contents, HasContents rows contents ∧ HasContents others contents := by
  constructor
  · intro relaid
    have own : HasContents rows _ := hasContents_iff.mpr rfl
    exact ⟨_, own, relaid.hasContents.mp own⟩
  · rintro ⟨contents, own, others⟩
    exact (Relaid.of_hasContents own).trans (Relaid.of_hasContents others).symm

end AllowList.Source
