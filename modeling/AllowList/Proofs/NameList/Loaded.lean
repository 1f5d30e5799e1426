import AllowList.Proofs.NameList.Language
import AllowList.Proofs.Work
import Mathlib.Data.List.Forall2

/-!
# Name lists from text and back

What the language of name lists says of a text's lines is what loading the text comes to: a list
when every header is understood, and otherwise one error, which marks the first header that is
not. The names of a loaded list can stand on lines of their own, and any list of such names is
loaded again from the text it is written as, whatever namespace would be taken without a header.
-/

namespace AllowList.NameList

open Text

/-- The first header among lines that names no namespace, and what it says instead. -/
structure FirstUnnamed (lines front : List (List Char)) (line value : List Char) : Prop where
  split : ∃ back, lines = front ++ line :: back
  understood : ∀ earlier ∈ front, Understood earlier
  isHeader : IsHeader line value
  unnamed : ∀ space, ¬Names value space

/-- A span cuts a line out of a text where so many newlines stand in front of it. -/
structure Marks (span : Span) (text : String) (line : List Char) (newlines : Nat) : Prop where
  cuts : span.Cuts text line
  place : ∃ before after, text.toList = before ++ line ++ after ∧
    before.count '\n' = newlines ∧ span.start = byteLength before

/-- A name that can stand on a line of its own: it holds no newline, no blank is at either end,
and it would not be taken for an empty line or a comment. -/
structure FitsLine (name : String) : Prop where
  named : HasName name.toList
  single : '\n' ∉ name.toList
  starts : ∀ c ∈ name.toList.head?, isBlank c = false
  ends : ∀ c ∈ name.toList.getLast?, isBlank c = false

/-- The lines of a list when it is written: its namespace's URI in a header, then its names. -/
def writtenLines (list : NameList) : List String :=
  ("# namespace: " ++ list.space.uri) :: list.names

/-- A list as a text that can be loaded. -/
def written (list : NameList) : String :=
  "\n".intercalate list.writtenLines

/-- Where not all items have a property, some item is the first without it. -/
theorem exists_first {α : Type} {holds : α → Prop} {items : List α}
    (fails : ¬∀ item ∈ items, holds item) :
    ∃ front item back, items = front ++ item :: back ∧ (∀ earlier ∈ front, holds earlier) ∧
      ¬holds item := by
  classical
  simp only [not_forall] at fails
  obtain ⟨item, present, fails⟩ := fails
  have some : (items.find? fun item => ¬holds item).isSome :=
    List.find?_isSome.mpr ⟨item, present, decide_eq_true fails⟩
  obtain ⟨first, found⟩ := Option.isSome_iff_exists.mp some
  obtain ⟨fails, front, back, split, earlier⟩ := List.find?_eq_some_iff_append.mp found
  refine ⟨front, first, back, split, fun item inFront => ?_, of_decide_eq_true fails⟩
  simpa using earlier item inFront

section lines

variable {text : String} {lines : List (List Char)}

/-- The lines of rows are the rows trimmed. -/
theorem forall₂_isTrimmed_iff {rows : List (List Char)} :
    List.Forall₂ IsTrimmed rows lines ↔ rows.map trim = lines := by
  rw [← List.forall₂_eq_eq_eq, List.forall₂_map_left_iff]
  constructor
  · exact fun trimmed => trimmed.imp fun _ _ => isTrimmed_iff.mp
  · exact fun trimmed => trimmed.imp fun _ _ => isTrimmed_iff.mpr

/-- The lines of a text are those of the rows that are placed. -/
theorem eq_map_trim (isLines : List.Forall₂ IsTrimmed (text.toList.splitOn '\n') lines) :
    lines = (placed text.toList).map fun row => trim row.chars := by
  rw [← forall₂_isTrimmed_iff.mp isLines, ← map_chars_placed, List.map_map]
  rfl

/-- Understood lines are read as the namespace they tell and the names on them. -/
theorem exists_ofText (space : Namespace)
    (isLines : List.Forall₂ IsTrimmed (text.toList.splitOn '\n') lines)
    (understood : ∀ line ∈ lines, Understood line) :
    ∃ found, ofText space text = .ok ⟨found, namesOn lines⟩ ∧ TellsSpace space lines found := by
  have rows := eq_map_trim isLines
  subst rows
  exact exists_foldlM_step { space := space } (List.forall_mem_map.mp understood)

/-- The line of a row is marked where the row stands. -/
theorem marks_lineSpan {row : Row} (present : row ∈ placed text.toList) {newlines : Nat}
    (number : row.number = newlines + 1) :
    Marks (lineSpan row) text (trim row.chars) newlines := by
  obtain ⟨front, back, stands, start⟩ := exists_rowAt present
  obtain ⟨rest, written, _⟩ := exists_eq_trim row.chars
  have whole : text.toList =
      (front ++ leading row.chars) ++ trim row.chars ++ (rest ++ back) := by
    calc text.toList = front ++ row.chars ++ back := stands.whole
      _ = front ++ (leading row.chars ++ trim row.chars ++ rest) ++ back := by rw [← written]
      _ = _ := by simp only [List.append_assoc]
  have span : lineSpan row = ⟨byteLength (front ++ leading row.chars),
      byteLength (front ++ leading row.chars) + byteLength (trim row.chars)⟩ := by
    rw [lineSpan, start, byteLength_append]
  have single : '\n' ∉ leading row.chars := fun inside =>
    stands.single (List.takeWhile_subset _ inside)
  refine ⟨?_, front ++ leading row.chars, rest ++ back, whole, ?_, ?_⟩
  · rw [span]
    exact cuts_of_append whole
  · have lines := stands.number
    rw [List.count_append, List.count_eq_zero.mpr single]
    omega
  · rw [span]

/-- Lines that are not all understood are refused for the first header that names nothing. -/
theorem exists_refused (space : Namespace)
    (isLines : List.Forall₂ IsTrimmed (text.toList.splitOn '\n') lines)
    (unclear : ¬∀ line ∈ lines, Understood line) :
    ∃ front line value span, FirstUnnamed lines front line value ∧
      ofText space text =
        .error ⟨front.length + 1, span, .unknownSpace (String.ofList value)⟩ ∧
      Marks span text line front.length := by
  have rows := eq_map_trim isLines
  subst rows
  simp only [List.forall_mem_map] at unclear
  obtain ⟨front, row, back, split, understood, unclear⟩ := exists_first unclear
  simp only [Understood, not_forall, not_exists] at unclear
  obtain ⟨value, isHeader, unnamed⟩ := unclear
  have number := number_of_placed split
  have present : row ∈ placed text.toList := by simp [split]
  refine ⟨front.map fun earlier => trim earlier.chars, trim row.chars, value, lineSpan row,
    ⟨?_, ?_, isHeader, unnamed⟩, ?_, ?_⟩
  · exact ⟨back.map fun later => trim later.chars, by rw [split, List.map_append, List.map_cons]⟩
  · exact List.forall_mem_map.mpr understood
  · rw [ofText, split, foldlM_step_of_unnamed _ understood isHeader unnamed, number,
      List.length_map]
  · rw [List.length_map]
    exact marks_lineSpan present number

/-- A text that is not read is refused for a line that its issue marks. -/
theorem marks_of_ofText {space : Namespace} {issue : Issue}
    (refused : ofText space text = .error issue) :
    ∃ value line newlines, issue.cause = .unknownSpace value ∧
      Marks issue.content text line newlines := by
  have isLines := forall₂_isTrimmed_iff.mpr (Eq.refl ((text.toList.splitOn '\n').map trim))
  by_cases understood : ∀ line ∈ (text.toList.splitOn '\n').map trim, Understood line
  · obtain ⟨found, read, _⟩ := exists_ofText space isLines understood
    rw [read] at refused
    cases refused
  · obtain ⟨front, line, value, span, _, failed, marks⟩ :=
      exists_refused space isLines understood
    rw [failed] at refused
    cases refused
    exact ⟨_, line, front.length, rfl, marks⟩

/-- A name on a line of a text fits a line. -/
theorem fitsLine_of_mem_namesOn
    (isLines : List.Forall₂ IsTrimmed (text.toList.splitOn '\n') lines) {name : String}
    (present : name ∈ namesOn lines) : FitsLine name := by
  obtain ⟨line, kept, rfl⟩ := List.mem_map.mp present
  obtain ⟨listed, named⟩ := List.mem_filter.mp kept
  rw [eq_map_trim isLines] at listed
  obtain ⟨row, placedRow, trimmed⟩ := List.mem_map.mp listed
  obtain ⟨front, back, whole, _, _, starts, ends⟩ := isTrimmed_iff.mpr trimmed
  obtain ⟨_, _, stands, _⟩ := exists_rowAt placedRow
  have single : '\n' ∉ line := by
    intro inside
    apply stands.single
    rw [whole]
    simp [inside]
  constructor
  all_goals rw [String.toList_ofList]
  · exact of_decide_eq_true named
  · exact single
  · exact starts
  · exact ends

end lines

section written

variable {list : NameList}

/-- The header of a written list names the list's namespace. -/
theorem isHeader_written (space : Namespace) :
    IsHeader ("# namespace: " ++ space.uri).toList space.uri.toList := by
  refine ⟨' ' :: space.uri.toList, ?_, ?_⟩
  · rw [String.toList_append]
    rfl
  · rw [isTrimmed_iff]
    cases space <;> rfl

/-- A written line is a row of its own and has nothing to trim. -/
theorem isTrimmed_written (fits : ∀ name ∈ list.names, FitsLine name) :
    ∀ line ∈ list.writtenLines.map String.toList, '\n' ∉ line ∧ IsTrimmed line line := by
  rw [List.forall_mem_map, writtenLines]
  refine List.forall_mem_cons.mpr ⟨?_, fun name listed => ⟨(fits name listed).single, ?_⟩⟩
  · rw [isTrimmed_iff]
    cases list.space <;> decide
  · exact ⟨[], [], by simp, by simp, by simp, (fits name listed).starts, (fits name listed).ends⟩

/-- A written text, with a newline at its end or without, has the written lines and perhaps an
empty one behind them. -/
theorem exists_lines_written (fits : ∀ name ∈ list.names, FitsLine name) {close : String}
    (closes : close ∈ ["", "\n"]) :
    ∃ tail : List (List Char), (∀ line ∈ tail, line = []) ∧
      List.Forall₂ IsTrimmed ((list.written ++ close).toList.splitOn '\n')
        (list.writtenLines.map String.toList ++ tail) := by
  have lines := isTrimmed_written fits
  have rows : list.written.toList.splitOn '\n' = list.writtenLines.map String.toList := by
    rw [written, String.toList_intercalate]
    exact List.splitOn_intercalate '\n' (fun line present => (lines line present).1)
      (by simp [writtenLines])
  rw [String.toList_append]
  simp only [List.mem_cons, List.not_mem_nil, or_false] at closes
  rcases closes with rfl | rfl
  · refine ⟨[], by simp, ?_⟩
    rw [String.toList_empty, List.append_nil, List.append_nil, rows, List.forall₂_same]
    exact fun line present => (lines line present).2
  · refine ⟨[[]], by simp, ?_⟩
    have ends : "\n".toList = ['\n'] := rfl
    rw [ends, List.splitOn_append_cons_self, rows, List.splitOn_nil, List.forall₂_same]
    refine List.forall_mem_append.mpr ⟨fun line present => (lines line present).2, ?_⟩
    simp [isTrimmed_iff, trim, trimFront, trimBack]

section tail

variable {tail : List (List Char)} (empty : ∀ line ∈ tail, line = [])

include empty

/-- Among the written lines and empty ones only the first is a header. -/
theorem eq_uri_of_isHeader (fits : ∀ name ∈ list.names, FitsLine name) :
    ∀ line ∈ list.writtenLines.map String.toList ++ tail, ∀ value, IsHeader line value →
      value = list.space.uri.toList := by
  intro line present value isHeader
  rw [writtenLines, List.map_cons, List.cons_append] at present
  rcases List.mem_cons.mp present with rfl | later
  · exact isHeader.unique (isHeader_written list.space)
  rcases List.mem_append.mp later with named | last
  · obtain ⟨name, listed, rfl⟩ := List.mem_map.mp named
    exact absurd (fits name listed).named isHeader.not_hasName
  · obtain ⟨rest, whole, _⟩ := isHeader
    rw [empty line last] at whole
    cases whole

/-- The names on the written lines and empty ones are the list's. -/
theorem namesOn_written (fits : ∀ name ∈ list.names, FitsLine name) :
    namesOn (list.writtenLines.map String.toList ++ tail) = list.names := by
  have first : ¬HasName ("# namespace: " ++ list.space.uri).toList :=
    (isHeader_written list.space).not_hasName
  have listed : (list.names.map String.toList).filter (HasName ·) =
      list.names.map String.toList := by
    rw [List.filter_eq_self, List.forall_mem_map]
    exact fun name present => decide_eq_true (fits name present).named
  have last : tail.filter (HasName ·) = [] := by
    rw [List.filter_eq_nil_iff]
    intro line present
    simp [empty line present, HasName]
  have back : String.ofList ∘ String.toList = id := funext fun name => String.ofList_toList
  rw [namesOn, writtenLines, List.map_cons, List.cons_append,
    List.filter_cons_of_neg (by simpa using first), List.filter_append, listed, last,
    List.append_nil, List.map_map, back, List.map_id]

end tail

/-- A list of names that fit lines is read again from the text it is written as. -/
theorem ofText_written (fits : ∀ name ∈ list.names, FitsLine name) (given : Namespace)
    {close : String} (closes : close ∈ ["", "\n"]) :
    ofText given (list.written ++ close) = .ok list := by
  obtain ⟨tail, empty, isLines⟩ := exists_lines_written fits closes
  have headers := eq_uri_of_isHeader empty fits
  have understood : ∀ line ∈ list.writtenLines.map String.toList ++ tail, Understood line := by
    intro line present value isHeader
    rw [headers line present value isHeader]
    exact ⟨list.space, .uri list.space⟩
  obtain ⟨found, read, tells⟩ := exists_ofText given isLines understood
  rw [read, namesOn_written empty fits]
  cases tells with
  | given untold =>
    have present : ("# namespace: " ++ list.space.uri).toList ∈
        list.writtenLines.map String.toList ++ tail := by simp [writtenLines]
    exact absurd (isHeader_written list.space) (untold _ present _)
  | last front back line value _ split isHeader names _ =>
    have present : line ∈ list.writtenLines.map String.toList ++ tail := by simp [split]
    rw [headers line present value isHeader, names_iff, String.ofList_toList] at names
    have same : found = list.space := by
      have uri := names_iff.mp (Names.uri list.space)
      rw [String.ofList_toList, names] at uri
      exact Option.some.inj uri
    rw [same]

end written

/-- Loading reads exactly the language of name lists, and what is written in it.

Where every line that is a header names a namespace, a list is loaded: its namespace is that of
the last header, or else the given one, or else HTML, and its names are those on the lines, in
order and with their repeats. Otherwise there is one error and nothing else, which tells the number
of the first header that names none and marks its line, and the text comes with it.

Names that were loaded fit lines, and any list of names that do is loaded as it was written,
whatever namespace is given. -/
theorem loaded_exactly (space : Option Namespace) :
    (∀ (text : String) (lines : List (List Char)),
      List.Forall₂ IsTrimmed (text.toList.splitOn '\n') lines →
      ((∀ line ∈ lines, Understood line) →
        ∃ list, (loaded space text).result = .ok list ∧
          TellsSpace (space.getD .html) lines list.space ∧ list.names = namesOn lines) ∧
      ((¬∀ line ∈ lines, Understood line) →
        ∃ front line value diagnostic span, FirstUnnamed lines front line value ∧
          (loaded space text).result = .error (.refused [diagnostic] text) ∧
          diagnostic.severity = .error ∧ diagnostic.code.map Code.text = some "E102" ∧
          diagnostic.message = "line " ++ toString (front.length + 1) ++ ": " ++
            Namespace.unknownMessage (String.ofList value) ∧
          diagnostic.labels.map Label.span = [span] ∧ Marks span text line front.length) ∧
      ∀ list, (loaded space text).result = .ok list → ∀ name ∈ list.names, FitsLine name) ∧
    ∀ list : NameList, (∀ name ∈ list.names, FitsLine name) → ∀ close ∈ ["", "\n"],
      (loaded space (list.written ++ close)).result = .ok list := by
  constructor
  · intro text lines isLines
    rw [result_loaded]
    refine ⟨fun understood => ?_, fun unclear => ?_, fun list loads name listed => ?_⟩
    · obtain ⟨found, read, tells⟩ := exists_ofText (space.getD .html) isLines understood
      exact ⟨⟨found, namesOn lines⟩, by rw [read]; rfl, tells, rfl⟩
    · obtain ⟨front, line, value, span, first, refused, marks⟩ :=
        exists_refused (space.getD .html) isLines unclear
      rw [refused]
      exact ⟨front, line, value, _, span, first, rfl, rfl, rfl, rfl, rfl, marks⟩
    · have understood : ∀ line ∈ lines, Understood line := by
        by_contra unclear
        obtain ⟨_, _, _, _, _, refused, _⟩ := exists_refused (space.getD .html) isLines unclear
        rw [refused] at loads
        cases loads
      obtain ⟨found, read, _⟩ := exists_ofText (space.getD .html) isLines understood
      rw [read] at loads
      cases loads
      exact fitsLine_of_mem_namesOn isLines listed
  · intro list fits close closes
    rw [result_loaded, ofText_written fits (space.getD .html) closes]
    rfl

/-- A text with a header behind a name, a blank that is not of ASCII, and a name twice. -/
def lateHeader : String :=
  "a , b\n//x\n\u3000# namespace: math\né//\n\na , b"

/-- A text with a header that names no namespace, and one behind it. -/
def strayHeader : String :=
  "\u00A0# namespace:\n\t# namespace: é \n# namespace:x"

theorem loaded_exactly_lateHeader :
    (∃ list, (loaded (some .svg) lateHeader).result = .ok list ∧
      list.names = ["a , b", "é//", "a , b"] ∧ ∀ name ∈ list.names, FitsLine name) ∧
    (∃ diagnostic, (loaded (some .svg) strayHeader).result =
      .error (.refused [diagnostic] strayHeader)) ∧
    ∀ names ⊆ ["a , b", "é//"], (loaded (some .svg) (written ⟨.xlink, names⟩ ++ "\n")).result =
      .ok ⟨.xlink, names⟩ := by
  have wider : ["a , b", "é//"] ⊆ ["a , b", "é//", "a , b"] := by simp
  obtain ⟨reads, rereads⟩ := loaded_exactly (some .svg)
  obtain ⟨late, _, fits⟩ := reads lateHeader _ (forall₂_isTrimmed_iff.mpr rfl)
  obtain ⟨_, stray, _⟩ := reads strayHeader _ (forall₂_isTrimmed_iff.mpr rfl)
  obtain ⟨list, loads, _, names⟩ := late (by decide)
  have listed : list.names = ["a , b", "é//", "a , b"] := by
    rw [names]
    decide
  refine ⟨⟨list, loads, listed, fits list loads⟩, ?_, fun names among => ?_⟩
  · obtain ⟨_, _, _, diagnostic, _, _, refused, _⟩ := stray (by decide)
    exact ⟨diagnostic, refused⟩
  · refine rereads ⟨.xlink, names⟩ (fun name present => fits list loads name ?_) "\n" (by simp)
    rw [listed]
    exact wider (among present)

end AllowList.NameList
