import AllowList.Proofs.Source.Sections

/-!
# What a line can ask for

Not every name can be given by a source list. A name that is read has no white space and no
comment mark in it and belongs to a namespace that its role knows; and an element without a
keyword must not look like a mark or a section. Such entries are `Listable`.

Both directions are proved of single lines. What a line holds is listable. And a listable
entry is what a line holds that is written in the way chosen here: the name behind its
namespace's keyword, if there is one.
-/

namespace AllowList

open Text Source

/-- A name that a line can give: not empty, and without white space or a comment mark. -/
def Source.IsEntryName (name : String) : Prop :=
  IsWord name.toList ∧ ¬slashes <:+: name.toList

/-- A name that is an element's on its own: it opens no section and is no mark. -/
def Source.IsPlain (name : String) : Prop :=
  name.toList.head? ≠ some '[' ∧ name ≠ "-" ∧ name ≠ "!"

/-- The namespaces that a name can be given in a role. -/
def Role.spaces : Role → List (Option Namespace)
  | .element => [some .html, some .svg, some .mathml]
  | .attr => [none, some .xlink, some .xml, some .xmlns]

/-- A name that a line can give in a role. -/
structure Role.Lists (role : Role) (qname : QName) : Prop where
  space : qname.space ∈ role.spaces
  name : IsEntryName qname.name

/-- A keyword of a role stands for a namespace of the role. -/
theorem Role.mem_spaces_of_keyword {role : Role} {word : String} {space : Namespace}
    (keyword : (word, space) ∈ role.keywords) : some space ∈ role.spaces := by
  cases role <;> simp only [keywords, List.mem_cons, Prod.mk.injEq, List.not_mem_nil,
    or_false] at keyword
  · rcases keyword with ⟨_, rfl⟩ | ⟨_, rfl⟩ <;> decide
  · rcases keyword with ⟨_, rfl⟩ | ⟨_, rfl⟩ | ⟨_, rfl⟩ <;> decide

namespace Source

/-- An entry that a line can ask for. -/
def Entry.Listable : Entry → Prop
  | .globalSection => True
  | .element name => Role.element.Lists name ∧ (name.space = some .html → IsPlain name.name)
  | .allow name | .remove name => Role.attr.Lists name

theorem Marker.listable_entry {marker : Marker} {name : QName} :
    (marker.entry name).Listable ↔ Role.attr.Lists name := by
  cases marker <;> rfl

/-! ## What a line holds is listable -/

/-- A part of a text without comment marks has none. -/
theorem unmarked_of_part {part whole : List Char} (inside : part <:+: whole)
    (unmarked : ¬slashes <:+: whole) : ¬slashes <:+: part := by
  intro marked
  exact unmarked (marked.trans inside)

/-- What is kept of a row has no comment mark. -/
theorem unmarked_uncommented (row : List Char) : ¬slashes <:+: uncommented row := by
  have before := beforeComment_uncommented row
  generalize uncommented row = kept at before ⊢
  cases before with
  | whole unmarked => exact unmarked
  | cut part rest first => exact unmarked_of_part (List.prefix_append kept ['/']).isInfix first

/-- The content of a row's line has no comment mark. -/
theorem unmarked_content (row : Row) : ¬slashes <:+: (Line.ofRow row).content := by
  obtain ⟨front, back, split, _⟩ :=
    isTrimmed_iff.mpr (rfl : trim (uncommented row.chars) = (Line.ofRow row).content)
  exact unmarked_of_part ⟨front, back, split.symm⟩ (unmarked_uncommented row.chars)

/-- A name that a body without comment marks stands for can be given. -/
theorem lists_of_names {role : Role} {body : List Char} {name : QName}
    (names : role.Names body name) (unmarked : ¬slashes <:+: body) : role.Lists name := by
  cases names with
  | alone single =>
    constructor
    · cases role <;> simp [Role.spaces, Role.unqualified]
    · simpa only [IsEntryName, String.toList_ofList] using And.intro single unmarked
  | qualified double keyword =>
    obtain ⟨gap, _, _, second, rfl⟩ := double
    constructor
    · exact Role.mem_spaces_of_keyword keyword
    · have behind := unmarked_of_part (List.suffix_append _ _).isInfix unmarked
      simpa only [IsEntryName, String.toList_ofList] using And.intro second behind

/-- An element of HTML is named by all of its content, so its name is plain. -/
theorem isPlain_of_names {content : List Char} {name : QName}
    (unbracketed : content.head? ≠ some '[')
    (unmarked : ∀ marker rest, ¬IsMarked content marker rest)
    (names : Role.element.Names content name) (html : name.space = some .html) :
    IsPlain name.name := by
  cases names with
  | alone single =>
    have notMark (marker : Marker) (same : String.ofList content = String.ofList [marker.char]) :
        False := by
      have alone : content = [marker.char] := String.ofList_injective same
      exact unmarked marker [] (.inl ⟨alone, rfl⟩)
    refine ⟨?_, ?_, ?_⟩
    · rwa [String.toList_ofList]
    · exact notMark .allow
    · exact notMark .remove
  | qualified double keyword =>
    cases html
    simp [Role.keywords] at keyword

/-- What a content without comment marks asks for is listable. -/
theorem listable_of_yields {content : List Char} {entry : Entry} (yields : Yields content entry)
    (unmarked : ¬slashes <:+: content) : entry.Listable := by
  cases yields with
  | globalSection => trivial
  | attr marker marked names =>
    refine Marker.listable_entry.mpr (lists_of_names names (unmarked_of_part ?_ unmarked))
    rcases marked with ⟨_, rfl⟩ | ⟨gap, _, rfl⟩
    · exact List.nil_infix
    · exact (List.suffix_append (marker.char :: gap) _).isInfix
  | element unbracketed plain names =>
    exact ⟨lists_of_names names unmarked, isPlain_of_names unbracketed plain names⟩

/-- What the line of a row holds is listable. -/
theorem listable_of_entry? {row : Row} {entry : Entry}
    (held : Line.entry? (Line.ofRow row) = some entry) : entry.Listable := by
  have yields := (Line.readExactly (Line.endsClear_ofRow row)).yields entry
  exact listable_of_yields (yields.mp (Line.entry?_eq_some_iff.mp held)) (unmarked_content row)

end Source

end AllowList
