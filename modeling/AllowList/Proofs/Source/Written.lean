import AllowList.Proofs.Source.Listable

/-!
# Entries as they are written

An entry is written on one line: a section mark as `[Global]`, a name behind its lead, which
is a mark and a keyword as far as it needs them. A lead has no comment mark, no newline and
no blank in front, so whatever name can be given may stand behind it. Such a line is read as
the entry it was written for.
-/

namespace AllowList

open Text Source

/-- What stands in front of a name to say its namespace. -/
def QName.lead (qname : QName) : List Char :=
  (qname.space.bind Namespace.keyword?).elim [] fun word => word.toList ++ [' ']

/-- A name as it is written behind a mark or on its own. -/
def QName.written (qname : QName) : List Char :=
  qname.lead ++ qname.name.toList

namespace Source

/-- The line of an entry. -/
def Entry.written : Entry → List Char
  | .globalSection => "[Global]".toList
  | .element name => name.written
  | .allow name => Marker.allow.char :: ' ' :: name.written
  | .remove name => Marker.remove.char :: ' ' :: name.written

/-! ## What stands on a line -/

/-- A line that is the content of its row as it stands. -/
structure FillsRow (chars : List Char) : Prop where
  unmarked : ¬slashes <:+: chars
  trimmed : trim chars = chars
  oneRow : '\n' ∉ chars

/-- What may stand in front of a name on a line. -/
structure IsLead (lead : List Char) : Prop where
  slashless : '/' ∉ lead
  oneRow : '\n' ∉ lead
  opens : ∀ c ∈ lead.head?, isBlank c = false

theorem isLead_lead (qname : QName) : IsLead qname.lead := by
  obtain ⟨space, name⟩ := qname
  cases space with
  | none => constructor <;> simp [QName.lead]
  | some space =>
    cases space <;> constructor <;> simp [QName.lead, Namespace.keyword?] <;> decide

/-- A mark and a blank may stand in front of a lead. -/
theorem IsLead.mark {lead : List Char} (isLead : IsLead lead) (marker : Marker) :
    IsLead (marker.char :: ' ' :: lead) := by
  obtain ⟨slashless, oneRow, _⟩ := isLead
  cases marker <;> constructor <;> simp [Marker.char, slashless, oneRow] <;> decide

/-- Behind a text without slashes a comment mark stands in what follows. -/
theorem slashes_infix_append {front back : List Char} (slashless : '/' ∉ front) :
    slashes <:+: front ++ back ↔ slashes <:+: back := by
  induction front with
  | nil => rfl
  | cons c rest ih =>
    rw [List.mem_cons, not_or] at slashless
    rw [List.cons_append, slashes_infix_cons, ih slashless.2]
    constructor
    · rintro (⟨same, _⟩ | later)
      · exact absurd same.symm slashless.1
      · exact later
    · exact Or.inr

/-- A name behind a lead fills its row. -/
theorem IsLead.fillsRow {lead : List Char} (isLead : IsLead lead) {name : String}
    (isName : IsEntryName name) : FillsRow (lead ++ name.toList) := by
  obtain ⟨⟨nonempty, clear⟩, unmarked⟩ := isName
  constructor
  · rwa [slashes_infix_append isLead.slashless]
  · apply isTrimmed_iff.mp
    refine ⟨[], [], by simp, by simp, by simp, ?_, ?_⟩
    · intro c first
      rw [List.head?_append, Option.mem_def, Option.or_eq_some_iff] at first
      rcases first with leads | ⟨_, names⟩
      · exact isLead.opens c leads
      · exact clear c (List.mem_of_head? names)
    · intro c last
      rw [List.getLast?_append_of_ne_nil _ nonempty] at last
      exact clear c (List.mem_of_getLast? last)
  · intro newline
    rcases List.mem_append.mp newline with leads | names
    · exact isLead.oneRow leads
    · have blank : isBlank '\n' = true := by decide
      rw [clear '\n' names] at blank
      cases blank

/-- The line of a listable entry fills its row. -/
theorem Entry.Listable.fillsRow {entry : Entry} (listable : entry.Listable) :
    FillsRow entry.written := by
  cases entry with
  | globalSection =>
    refine ⟨?_, by decide, by decide⟩
    have slashless : '/' ∉ Entry.globalSection.written := by decide
    intro marked
    exact slashless (marked.subset List.mem_cons_self)
  | element name => exact (isLead_lead name).fillsRow listable.1.name
  | allow name => exact ((isLead_lead name).mark .allow).fillsRow listable.name
  | remove name => exact ((isLead_lead name).mark .remove).fillsRow listable.name

/-! ## A written entry is asked for -/

/-- A namespace of a role is the one without a keyword, or it has a keyword of the role. -/
theorem Role.keyword_of_mem_spaces {role : Role} {space : Option Namespace}
    (known : space ∈ role.spaces) :
    space = role.unqualified ∧ space.bind Namespace.keyword? = none ∨
      ∃ word own, space = some own ∧ own.keyword? = some word ∧ (word, own) ∈ role.keywords := by
  cases role <;> simp only [Role.spaces, List.mem_cons, List.not_mem_nil, or_false] at known
  · rcases known with rfl | rfl | rfl
    · exact .inl ⟨rfl, rfl⟩
    · exact .inr ⟨_, _, rfl, rfl, by decide⟩
    · exact .inr ⟨_, _, rfl, rfl, by decide⟩
  · rcases known with rfl | rfl | rfl | rfl
    · exact .inl ⟨rfl, rfl⟩
    · exact .inr ⟨_, _, rfl, rfl, by decide⟩
    · exact .inr ⟨_, _, rfl, rfl, by decide⟩
    · exact .inr ⟨_, _, rfl, rfl, by decide⟩

/-- A keyword is a word. -/
theorem isWord_of_keyword? {space : Namespace} {word : String}
    (keyword : space.keyword? = some word) : IsWord word.toList := by
  have nonempty : word.toList ≠ [] := by
    cases space <;> cases keyword <;> exact List.cons_ne_nil _ _
  have clear : word.toList.all (!isBlank ·) = true := by
    cases space <;> cases keyword <;> rfl
  refine ⟨nonempty, ?_⟩
  simpa using clear

/-- A name that can be given in a role is given by what it is written as. -/
theorem names_written {role : Role} {name : QName} (lists : role.Lists name) :
    role.Names name.written name := by
  obtain ⟨space, text⟩ := name
  obtain ⟨known, ⟨single, _⟩⟩ := lists
  rcases Role.keyword_of_mem_spaces known with ⟨rfl, bare⟩ | ⟨word, own, rfl, keyword, listed⟩
  · have names : role.Names text.toList ⟨role.unqualified, String.ofList text.toList⟩ :=
      .alone single
    have written : QName.written ⟨role.unqualified, text⟩ = text.toList := by
      simp [QName.written, QName.lead, bare]
    rwa [String.ofList_toList, ← written] at names
  · have gap : IsGapRun [' '] := by constructor <;> simp [isGap]
    have double : TwoWords (word.toList ++ [' '] ++ text.toList) word.toList text.toList :=
      ⟨[' '], isWord_of_keyword? keyword, gap, single, rfl⟩
    have names : role.Names (word.toList ++ [' '] ++ text.toList)
        ⟨some own, String.ofList text.toList⟩ := by
      refine .qualified double ?_
      rwa [String.ofList_toList]
    have written : QName.written ⟨some own, text⟩ = word.toList ++ [' '] ++ text.toList := by
      simp [QName.written, QName.lead, keyword]
    rwa [String.ofList_toList, ← written] at names

/-- A name without blanks is marked only if it is the mark. -/
theorem eq_of_isMarked {name rest : List Char} {marker : Marker} (single : IsWord name)
    (marked : IsMarked name marker rest) : name = [marker.char] := by
  rcases marked with ⟨alone, _⟩ | ⟨gap, ⟨nonempty, gaps⟩, rfl⟩
  · exact alone
  · obtain ⟨c, present⟩ := List.exists_mem_of_ne_nil gap nonempty
    have clear : isBlank c = false := single.2 c (by simp [present])
    rw [isBlank_of_isGap (gaps c present)] at clear
    cases clear

/-- A keyword of elements looks neither like a section nor like a mark. -/
theorem head?_of_keyword {word : String} {space : Namespace} {first : Char}
    (keyword : (word, space) ∈ Role.element.keywords) (opens : word.toList.head? = some first) :
    first ≠ '[' ∧ ∀ marker : Marker, first ≠ marker.char := by
  simp only [Role.keywords, List.mem_cons, Prod.mk.injEq, List.not_mem_nil, or_false] at keyword
  rcases keyword with ⟨rfl, _⟩ | ⟨rfl, _⟩ <;> cases opens
  · exact ⟨by decide, fun marker => by cases marker <;> decide⟩
  · exact ⟨by decide, fun marker => by cases marker <;> decide⟩

/-- A listable element is written as neither a section nor a marked entry. -/
theorem unmarked_of_listable {name : QName} (listable : (Entry.element name).Listable) :
    name.written.head? ≠ some '[' ∧ ∀ marker rest, ¬IsMarked name.written marker rest := by
  obtain ⟨space, text⟩ := name
  obtain ⟨⟨known, ⟨single, _⟩⟩, plain⟩ := listable
  rcases Role.keyword_of_mem_spaces known with ⟨rfl, _⟩ | ⟨word, own, rfl, keyword, listed⟩
  · obtain ⟨unbracketed, notDash, notBang⟩ := plain rfl
    refine ⟨unbracketed, ?_⟩
    intro marker rest marked
    have alone : text.toList = [marker.char] := eq_of_isMarked single marked
    have same : text = String.ofList [marker.char] := by rw [← alone, String.ofList_toList]
    cases marker with
    | allow => exact notDash same
    | remove => exact notBang same
  · obtain ⟨first, opens⟩ : ∃ first, word.toList.head? = some first := by
      obtain ⟨nonempty, _⟩ := isWord_of_keyword? keyword
      exact Option.isSome_iff_exists.mp (List.isSome_head?.mpr nonempty)
    have head : (QName.written ⟨some own, text⟩).head? = some first := by
      simp [QName.written, QName.lead, keyword, opens]
    obtain ⟨noBracket, noMark⟩ := head?_of_keyword listed opens
    rw [head]
    constructor
    · intro same
      exact noBracket (Option.some.inj same)
    · intro marker rest marked
      have front := marked.head?
      rw [head] at front
      exact noMark marker (Option.some.inj front)

/-- A listable entry is asked for by its line. -/
theorem Entry.Listable.yields {entry : Entry} (listable : entry.Listable) :
    Yields entry.written entry := by
  have marked (marker : Marker) (body : List Char) :
      IsMarked (marker.char :: ' ' :: body) marker body := by
    have gap : IsGapRun [' '] := by constructor <;> simp [isGap]
    exact .inr ⟨[' '], gap, rfl⟩
  cases entry with
  | globalSection => exact .globalSection rfl (by decide)
  | element name =>
    obtain ⟨unbracketed, unmarked⟩ := unmarked_of_listable listable
    exact .element unbracketed unmarked (names_written listable.1)
  | allow name => exact .attr .allow (marked .allow _) (names_written listable)
  | remove name => exact .attr .remove (marked .remove _) (names_written listable)

/-- A row that a listable entry was written on is read as the entry. -/
theorem entry?_of_written {row : Row} {entry : Entry} (listable : entry.Listable)
    (written : row.chars = entry.written) : Line.entry? (Line.ofRow row) = some entry := by
  have fills := listable.fillsRow
  have content : (Line.ofRow row).content = entry.written := by
    rw [Line.ofRow, written, uncommented_of_unmarked fills.unmarked, fills.trimmed]
  refine Line.entry?_eq_some_iff.mpr (Line.read_of_yields ?_)
  rw [content]
  exact listable.yields

end Source

end AllowList
