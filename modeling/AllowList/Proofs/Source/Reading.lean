import AllowList.Proofs.Namespace
import AllowList.Proofs.Source.Grammar

/-!
# Reading bodies and marks

The reader cuts a content into a mark, a word, a gap and a name by scanning. These
lemmas say what the scans find: a body of one word or of two is read as such, what
is read without a fault is a body, and a fault is told under the code that the shape
of the body asks for.

A content ends with a character that is not white space. That is what keeps a word
and a gap without a name behind them from being read as a body with an empty name.
-/

namespace AllowList.Source

open Text

/-- A content does not end with white space. -/
def EndsClear (cs : List Char) : Prop :=
  ∀ c ∈ cs.getLast?, isBlank c = false

/-- What is not white space separates no words. -/
theorem isGap_of_not_blank {c : Char} (clear : isBlank c = false) : isGap c = false := by
  cases gap : isGap c with
  | false => rfl
  | true =>
    rw [isBlank_of_isGap gap] at clear
    cases clear

/-- A gap ends where a word begins. -/
theorem stops_of_isWord {word : List Char} (single : IsWord word) (more : List Char) :
    Stops isGap (word ++ more) := by
  obtain ⟨nonempty, clear⟩ := single
  cases word with
  | nil => exact absurd rfl nonempty
  | cons first rest =>
    intro c same
    cases same
    exact isGap_of_not_blank (clear first List.mem_cons_self)

/-- A word ends where a gap begins. -/
theorem stops_of_isGapRun {gap : List Char} (run : IsGapRun gap) (more : List Char) :
    Stops (!isBlank ·) (gap ++ more) := by
  obtain ⟨nonempty, gaps⟩ := run
  cases gap with
  | nil => exact absurd rfl nonempty
  | cons first rest =>
    intro c same
    cases same
    simp [isBlank_of_isGap (gaps first List.mem_cons_self)]

/-- A word is what a scan for white space passes over. -/
theorem IsWord.passes {word : List Char} (single : IsWord word) :
    ∀ c ∈ word, (!isBlank c) = true := by
  intro c present
  simp [single.2 c present]

namespace Body

/-- A name alone is read as a name. -/
theorem ofChars?_word {name : List Char} (single : IsWord name) :
    ofChars? name = some ⟨none, name⟩ := by
  have ends : Stops (!isBlank ·) [] := by
    intro c none
    cases none
  have taken := takeWhile_append_of_stops single.passes ends
  have left := dropWhile_append_of_stops single.passes ends
  rw [List.append_nil] at taken left
  simp [ofChars?, taken, left, single.1]

/-- A word and a gap are read as such, and the rest is the name, whatever it is. -/
theorem ofChars?_qualified {word gap rest : List Char} (single : IsWord word)
    (run : IsGapRun gap) (stops : Stops isGap rest) :
    ofChars? (word ++ gap ++ rest) = some ⟨some (word, gap), rest⟩ := by
  have ends := stops_of_isGapRun run rest
  have taken := takeWhile_append_of_stops single.passes ends
  have left := dropWhile_append_of_stops single.passes ends
  have gapTaken := takeWhile_append_of_stops run.2 stops
  have gapLeft := dropWhile_append_of_stops run.2 stops
  rw [← List.append_assoc] at taken left
  simp only [ofChars?, taken, left, gapTaken, gapLeft]
  simp [single.1, run.1]

/-- What is read as a body begins with a word, and with a qualifier it has a gap
behind the word. -/
theorem of_ofChars?_eq_some {chars : List Char} {body : Body} (read : ofChars? chars = some body) :
    body.qualifier = none ∧ IsWord body.name ∧ chars = body.name ∨
      ∃ word gap, body.qualifier = some (word, gap) ∧ IsWord word ∧ IsGapRun gap ∧
        chars = word ++ gap ++ body.name := by
  have front : ∀ c ∈ chars.takeWhile (!isBlank ·), isBlank c = false := by
    intro c present
    simpa using passes_takeWhile (!isBlank ·) chars c present
  have parts := List.takeWhile_append_dropWhile (p := (!isBlank ·)) (l := chars)
  simp only [ofChars?] at read
  generalize chars.takeWhile (!isBlank ·) = word at read front parts
  generalize chars.dropWhile (!isBlank ·) = rest at read parts
  have gaps := passes_takeWhile isGap rest
  have pieces := List.takeWhile_append_dropWhile (p := isGap) (l := rest)
  generalize rest.takeWhile isGap = gap at read gaps pieces
  generalize rest.dropWhile isGap = name at read pieces
  simp only [List.isEmpty_iff] at read
  split at read
  case isTrue => cases read
  case isFalse nonempty =>
    split at read
    case isTrue ended =>
      cases read
      exact .inl ⟨rfl, ⟨nonempty, front⟩, by rw [← parts, ended, List.append_nil]⟩
    case isFalse =>
      split at read
      case isTrue => cases read
      case isFalse separated =>
        cases read
        refine .inr ⟨word, gap, rfl, ⟨nonempty, front⟩, ⟨separated, gaps⟩, ?_⟩
        rw [← parts, ← pieces, List.append_assoc]

/-- In a text that does not end with white space, something stands behind a gap. -/
theorem name_ne_nil {chars : List Char} {body : Body} (ends : EndsClear chars)
    (read : ofChars? chars = some body) : body.name ≠ [] := by
  rcases of_ofChars?_eq_some read with ⟨_, single, _⟩ | ⟨word, gap, _, _, run, split⟩
  · exact single.1
  · intro empty
    obtain ⟨last, isLast⟩ := Option.isSome_iff_exists.mp (List.getLast?_isSome.mpr run.1)
    have blank := isBlank_of_isGap (run.2 last (List.mem_of_getLast? isLast))
    have clear : isBlank last = false := ends last (by simp [split, empty, isLast])
    rw [blank] at clear
    cases clear

/-- A gap is as long as it can be, so a name behind it does not begin with one. -/
theorem stops_name {chars : List Char} {body : Body} (read : ofChars? chars = some body) :
    Stops isGap body.name := by
  rcases of_ofChars?_eq_some read with ⟨_, single, _⟩ | ⟨word, gap, qualified, _, _, _⟩
  · have stops := stops_of_isWord single []
    rwa [List.append_nil] at stops
  · simp only [ofChars?] at read
    split at read
    · cases read
    · split at read
      · cases read
        cases qualified
      · split at read
        · cases read
        · cases read
          exact stops_dropWhile isGap _

end Body

/-- A word qualifies an entry when it is a keyword of the entry's role. -/
theorem qualify?_eq_some_iff {role : Role} {word : List Char} {space : Namespace} :
    qualify? role word = some space ↔ (String.ofList word, space) ∈ role.keywords := by
  rw [qualify?, Option.filter_eq_some_iff, Namespace.ofKeyword?_eq_some_iff]
  generalize String.ofList word = text
  cases role <;> cases space <;>
    simp [Role.keywords, Role.accepts, Namespace.keyword?, Namespace.qualifiesElements,
      Namespace.qualifiesAttributes, eq_comm]

section nameOf

variable (line : Line) {role : Role} (before : List Char) {chars : List Char}

/-- A word holds no blank. -/
theorem IsWord.any_isBlank {word : List Char} (single : IsWord word) :
    word.any isBlank = false := by
  simpa using single.2

/-- A body of two words is read as such. -/
theorem TwoWords.ofChars? {body word name : List Char} (double : TwoWords body word name) :
    ∃ gap, Body.ofChars? body = some ⟨some (word, gap), name⟩ := by
  obtain ⟨gap, first, run, second, rfl⟩ := double
  have stops := stops_of_isWord second []
  rw [List.append_nil] at stops
  exact ⟨gap, Body.ofChars?_qualified first run stops⟩

/-- The name of a two-word body holds no blank. -/
theorem TwoWords.isWord {body word name : List Char} (double : TwoWords body word name) :
    IsWord name := by
  obtain ⟨_, _, _, second, _⟩ := double
  exact second

/-- A body that stands for a name is read as that name. -/
theorem nameOf_of_names {name : QName} (names : role.Names chars name) :
    nameOf line role role.unqualified before chars = .ok name := by
  cases names with
  | alone single => simp [nameOf, Body.ofChars?_word single, single.any_isBlank]
  | qualified double keyword =>
    obtain ⟨gap, read⟩ := double.ofChars?
    simp [nameOf, read, double.isWord.any_isBlank, qualify?_eq_some_iff.mpr keyword]

/-- A body with a foreign word in front is refused for the word. -/
theorem nameOf_of_misqualified (misqualified : role.Misqualified chars) :
    ∃ cause, nameOf line role role.unqualified before chars = .error cause ∧
      cause.code = .unknownKeyword := by
  obtain ⟨word, name, double, foreign⟩ := misqualified
  obtain ⟨gap, read⟩ := double.ofChars?
  have unknown : qualify? role word = none := by
    refine Option.eq_none_iff_forall_ne_some.mpr fun space found => ?_
    exact foreign space (qualify?_eq_some_iff.mp found)
  refine ⟨.foreignKeyword role (String.ofList word) (line.spanOf before word), ?_, rfl⟩
  simp [nameOf, read, double.isWord.any_isBlank, unknown]

/-- Any other body is refused for its shape. What the scans cut out of it would
otherwise be a name or two words: the name is not empty, because a gap does not end
the text. -/
theorem nameOf_of_neither (ends : EndsClear chars) (unnamed : ∀ name, ¬role.Names chars name)
    (qualified : ¬role.Misqualified chars) :
    ∃ cause, nameOf line role role.unqualified before chars = .error cause ∧
      cause.code = .malformedEntry := by
  unfold nameOf
  cases read : Body.ofChars? chars with
  | none => exact ⟨_, rfl, rfl⟩
  | some body =>
    by_cases spaced : body.name.any isBlank = true
    · simp only [spaced, if_true]
      exact ⟨_, rfl, rfl⟩
    have clear : ∀ c ∈ body.name, isBlank c = false := by simpa using spaced
    exfalso
    have nonempty := Body.name_ne_nil ends read
    rcases Body.of_ofChars?_eq_some read with ⟨_, single, rfl⟩ | ⟨word, gap, _, first, run, rfl⟩
    · exact unnamed _ (.alone single)
    have double : TwoWords (word ++ gap ++ body.name) word body.name :=
      ⟨gap, first, run, ⟨nonempty, clear⟩, rfl⟩
    by_cases keyword : ∃ space, (String.ofList word, space) ∈ role.keywords
    · obtain ⟨space, known⟩ := keyword
      exact unnamed _ (.qualified double known)
    · exact qualified ⟨word, body.name, double, fun space known => keyword ⟨space, known⟩⟩

end nameOf

/-- A marker is known by its character. -/
theorem Marker.ofChar?_eq_some_iff {c : Char} {marker : Marker} :
    Marker.ofChar? c = some marker ↔ c = marker.char := by
  constructor
  · intro known
    unfold Marker.ofChar? at known
    split at known
    · cases known
      rfl
    · cases known
      rfl
    · cases known
  · rintro rfl
    cases marker <;> rfl

/-- What is split off a content is a marker that stands in front. -/
theorem Marked.isMarked {content : List Char} {marked : Marked}
    (read : Marked.ofChars? content = some marked) :
    IsMarked content marked.marker marked.body := by
  cases content with
  | nil => cases read
  | cons c rest =>
    obtain ⟨marker, known, split⟩ := Option.bind_eq_some_iff.mp read
    cases Marker.ofChar?_eq_some_iff.mp known
    split at split
    case isFalse => cases split
    case isTrue follows =>
      cases split
      cases rest with
      | nil => exact .inl ⟨rfl, rfl⟩
      | cons next more =>
        have gap : isGap next = true := by simpa using follows
        refine .inr ⟨(next :: more).takeWhile isGap, ⟨?_, passes_takeWhile isGap _⟩, ?_⟩
        · simp [gap]
        · rw [List.cons_append, List.takeWhile_append_dropWhile]

/-- A marker is split off a content that begins with one, together with all of the gap
behind it. -/
theorem IsMarked.ofChars? {content rest : List Char} {marker : Marker}
    (marked : IsMarked content marker rest) (stops : Stops isGap rest) :
    ∃ opening, Marked.ofChars? content = some ⟨marker, opening, rest⟩ := by
  have known : Marker.ofChar? marker.char = some marker := Marker.ofChar?_eq_some_iff.mpr rfl
  rcases marked with ⟨rfl, rfl⟩ | ⟨gap, ⟨nonempty, gaps⟩, rfl⟩
  · exact ⟨[marker.char], by simp [Marked.ofChars?, known]⟩
  · have first : (gap ++ rest).head?.any isGap = true := by
      cases gap with
      | nil => exact absurd rfl nonempty
      | cons c more => simp [gaps c List.mem_cons_self]
    refine ⟨marker.char :: gap, ?_⟩
    rw [List.cons_append, Marked.ofChars?, takeWhile_append_of_stops gaps stops,
      dropWhile_append_of_stops gaps stops]
    simp only [known, Option.bind_some, first, Bool.or_true, if_true]

/-- The gap behind a marker may be taken as long as it is. -/
theorem IsMarked.dropGap {content rest : List Char} {marker : Marker}
    (marked : IsMarked content marker rest) :
    IsMarked content marker (rest.dropWhile isGap) := by
  rcases marked with ⟨rfl, rfl⟩ | ⟨gap, ⟨nonempty, gaps⟩, rfl⟩
  · exact .inl ⟨rfl, rfl⟩
  · refine .inr ⟨gap ++ rest.takeWhile isGap, ⟨?_, ?_⟩, ?_⟩
    · simp [nonempty]
    · intro c present
      exact (List.mem_append.mp present).elim (gaps c) (passes_takeWhile isGap rest c)
    · simp [List.takeWhile_append_dropWhile]

/-- A content from which no marker is split off begins with none. -/
theorem not_isMarked_of_ofChars?_eq_none {content : List Char}
    (read : Marked.ofChars? content = none) (marker : Marker) (rest : List Char) :
    ¬IsMarked content marker rest := by
  intro marked
  obtain ⟨opening, found⟩ := marked.dropGap.ofChars? (stops_dropWhile isGap rest)
  rw [read] at found
  cases found

/-- A marker is no bracket and leaves something of a content. -/
theorem IsMarked.head? {content rest : List Char} {marker : Marker}
    (marked : IsMarked content marker rest) : content.head? = some marker.char := by
  rcases marked with ⟨rfl, _⟩ | ⟨gap, _, rfl⟩
  · rfl
  · rfl

/-- No section mark begins with a marker. -/
theorem Marker.char_ne_bracket (marker : Marker) : marker.char ≠ '[' := by
  cases marker <;> decide

/-- What stands behind a marker ends as the content does. -/
theorem IsMarked.endsClear {content rest : List Char} {marker : Marker}
    (marked : IsMarked content marker rest) (ends : EndsClear content) : EndsClear rest := by
  rcases marked with ⟨_, rfl⟩ | ⟨gap, _, rfl⟩
  · intro c none
    cases none
  · intro c last
    refine ends c ?_
    rw [List.getLast?_append, Option.mem_def.mp last]
    rfl

/-- A body begins with a word: something is there, and it is no gap. -/
def OpensWithWord (body : List Char) : Prop :=
  ∃ word more, IsWord word ∧ body = word ++ more

/-- A body is not empty. -/
theorem OpensWithWord.ne_nil {body : List Char} (opens : OpensWithWord body) : body ≠ [] := by
  obtain ⟨word, more, ⟨nonempty, _⟩, rfl⟩ := opens
  simp [nonempty]

/-- A body does not begin with a gap. -/
theorem OpensWithWord.stops {body : List Char} (opens : OpensWithWord body) :
    Stops isGap body := by
  obtain ⟨word, more, single, rfl⟩ := opens
  exact stops_of_isWord single more

/-- A body of two words begins with the first. -/
theorem TwoWords.opens {body word name : List Char} (double : TwoWords body word name) :
    OpensWithWord body := by
  obtain ⟨gap, first, _, _, rfl⟩ := double
  exact ⟨word, gap ++ name, first, List.append_assoc word gap name⟩

/-- A body that stands for a name begins with a word. -/
theorem opens_of_names {role : Role} {body : List Char} {name : QName}
    (names : role.Names body name) : OpensWithWord body := by
  cases names with
  | alone single => exact ⟨body, [], single, (List.append_nil body).symm⟩
  | qualified double _ => exact double.opens

end AllowList.Source
