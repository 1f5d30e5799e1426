import AllowList.Diagnostic
import AllowList.Proofs.Text.Parts
import Mathlib.Data.String.Basic

/-!
# Places in a text

A span says where a part of a text stands by byte offsets, and a row's place is its
number and the offset of its first byte. Both are told here without counting through the
text: a span cuts out what stands behind so many bytes, and a row has as many newlines in
front of it as there are rows before it. The rows that are placed stand where their
places say.
-/

namespace AllowList

open Text

/-- A span cuts a part out of a text: it lies inside the text, no character is cut in two
at either end, and between the ends the part stands. -/
structure Span.Cuts (span : Span) (text : String) (part : List Char) : Prop where
  ordered : span.start ≤ span.stop
  inside : span.stop ≤ text.utf8ByteSize
  startsClean : String.Pos.Raw.IsValid text ⟨span.start⟩
  stopsClean : String.Pos.Raw.IsValid text ⟨span.stop⟩
  slice : String.Pos.Raw.extract text ⟨span.start⟩ ⟨span.stop⟩ = String.ofList part

namespace Text

/-- The measure of characters is that of the library. -/
theorem byteLength_eq_utf8Len (cs : List Char) : byteLength cs = String.utf8Len cs := by
  induction cs with
  | nil => rfl
  | cons c rest ih => rw [byteLength_cons, String.utf8Len_cons, ih, Nat.add_comm]

/-- The bytes of a text are those of its characters. -/
theorem byteLength_toList (text : String) : byteLength text.toList = text.utf8ByteSize := by
  rw [byteLength_eq_utf8Len, String.utf8Len_toList]

/-- Behind a front of a text no character is cut in two. -/
theorem isValid_byteLength {text : String} {front back : List Char}
    (whole : text.toList = front ++ back) :
    String.Pos.Raw.IsValid text ⟨byteLength front⟩ := by
  refine String.Pos.Raw.isValid_iff_exists_append.mpr
    ⟨String.ofList front, String.ofList back, ?_, ?_⟩
  · rw [← String.ofList_append, ← whole, String.ofList_toList]
  · rw [String.rawEndPos_ofList, byteLength_eq_utf8Len]

/-- A part of a text is cut out by the bytes in front of it and its own. -/
theorem cuts_of_append {text : String} {front part back : List Char}
    (whole : text.toList = front ++ part ++ back) :
    Span.Cuts ⟨byteLength front, byteLength front + byteLength part⟩ text part := by
  have sizes := byteLength_toList text
  rw [whole, byteLength_append, byteLength_append] at sizes
  refine ⟨?_, ?_, ?_, ?_, ?_⟩
  · exact Nat.le_add_right _ _
  · show byteLength front + byteLength part ≤ text.utf8ByteSize
    omega
  · rw [List.append_assoc] at whole
    exact isValid_byteLength whole
  · rw [← byteLength_append]
    exact isValid_byteLength whole
  · have cut := String.extract_of_valid front part back
    rwa [← whole, String.ofList_toList, ← byteLength_eq_utf8Len, ← byteLength_eq_utf8Len] at cut

/-- A row of a text with a given number: newlines separate it from what stands around
it, it holds none, and as many stand in front of it as there are rows before it. -/
structure RowAt (text : List Char) (number : Nat) (front row back : List Char) : Prop where
  whole : text = front ++ row ++ back
  number : front.count '\n' + 1 = number
  single : '\n' ∉ row
  begins : front = [] ∨ front.getLast? = some '\n'
  ends : back = [] ∨ back.head? = some '\n'

/-- What stands between marks holds none. -/
theorem not_mem_pieces {mark : Char} {cs piece : List Char} (present : piece ∈ pieces mark cs) :
    mark ∉ piece := by
  induction cs generalizing piece with
  | nil =>
    rw [pieces, List.mem_singleton] at present
    subst present
    exact List.not_mem_nil
  | cons c rest ih =>
    rw [pieces] at present
    split at present
    case h_1 split => exact absurd split (pieces_ne_nil mark rest)
    case h_2 first more split =>
      rw [split] at ih
      split at present
      case isTrue =>
        rcases List.mem_cons.mp present with rfl | old
        · exact List.not_mem_nil
        · exact ih old
      case isFalse differs =>
        rcases List.mem_cons.mp present with rfl | old
        · intro again
          rcases List.mem_cons.mp again with same | inside
          · exact differs same.symm
          · exact ih List.mem_cons_self inside
        · exact ih (List.mem_cons_of_mem first old)

/-- Joined by marks, the pieces of a text are the text again. -/
theorem intercalate_pieces (mark : Char) (cs : List Char) :
    [mark].intercalate (pieces mark cs) = cs := by
  rw [pieces_eq_splitOn]
  exact List.intercalate_splitOn mark

/-- Rows that are placed from a given number and offset on stand there in a text whose
front has that many bytes and that many newlines. The induction moves the front over one
row and its newline at a time. -/
theorem rowAt_of_mem_placeRows {rows : List (List Char)} (present : rows ≠ [])
    (single : ∀ row ∈ rows, '\n' ∉ row) {done : List Char}
    (begins : done = [] ∨ done.getLast? = some '\n') {row : Row}
    (placed : row ∈ placeRows (done.count '\n' + 1) (byteLength done) rows) :
    ∃ front back, RowAt (done ++ ['\n'].intercalate rows) row.number front row.chars back ∧
      row.start = byteLength front := by
  induction rows generalizing done with
  | nil => exact absurd rfl present
  | cons chars more ih =>
    obtain ⟨own, later⟩ := List.forall_mem_cons.mp single
    rw [placeRows] at placed
    cases more with
    | nil =>
      rcases List.mem_cons.mp placed with rfl | none
      · exact ⟨done, [], ⟨by simp, rfl, own, begins, Or.inl rfl⟩, rfl⟩
      · cases none
    | cons next rest =>
      have split : done ++ ['\n'].intercalate (chars :: next :: rest) =
          (done ++ chars ++ ['\n']) ++ ['\n'].intercalate (next :: rest) := by
        simp
      rcases List.mem_cons.mp placed with rfl | behind
      · exact ⟨done, '\n' :: ['\n'].intercalate (next :: rest),
          ⟨by simp, rfl, own, begins, Or.inr rfl⟩, rfl⟩
      · have lines : (done ++ chars ++ ['\n']).count '\n' = done.count '\n' + 1 := by
          simp [List.count_eq_zero.mpr own]
        have bytes : byteLength (done ++ chars ++ ['\n']) =
            byteLength done + byteLength chars + 1 := by
          simp
          rfl
        rw [split]
        rw [← lines, ← bytes] at behind
        exact ih (by simp) later (Or.inr (by simp)) behind

/-- Every placed row of a text stands where its place says. -/
theorem exists_rowAt {text : List Char} {row : Row} (placedRow : row ∈ placed text) :
    ∃ front back, RowAt text row.number front row.chars back ∧ row.start = byteLength front := by
  have found := rowAt_of_mem_placeRows (rows_ne_nil text)
    (fun _ present => not_mem_pieces present) (Or.inl (rfl : ([] : List Char) = [])) placedRow
  rwa [rows, intercalate_pieces] at found

end Text

end AllowList
