import AllowList.Proofs.Fallible
import AllowList.Proofs.Json.Reread

/-!
# What reading gives can be read again

Canonical text gives a value back as it is, if the value is arranged, nests no more
containers than can be open at once, and has whole numbers only. Such a value is
`Rereadable`, among however many containers it stands. A container is rereadable when what
is in it is, and there is room for the container itself.

What is read of a text without other numbers is rereadable. This is kept token by token:
the value that was read last is, and so is what each open container would be if it were
closed.
-/

namespace AllowList.Json

/-- A value that can be read as it is from its canonical text, among the given number of
open containers. -/
structure Rereadable (around : Nat) (value : Json) : Prop where
  isArranged : value.IsArranged
  room : around + value.depth ≤ depthLimit
  fits : value.Each Fits

/-- A rereadable value is what its canonical text is read as. -/
theorem Rereadable.read_canonical {value : Json} (rereadable : value.Rereadable 0) :
    read value.canonical = .ok value := by
  obtain ⟨isArranged, room, fits⟩ := rereadable
  have shallow : value.depth ≤ depthLimit := by omega
  rw [Json.read_canonical fits shallow, arranged_of_isArranged isArranged]

/-! ## Containers -/

section containers

variable {around : Nat}

theorem rereadable_null (room : around ≤ depthLimit) : null.Rereadable around :=
  ⟨trivial, room, nofun⟩

theorem rereadable_bool (room : around ≤ depthLimit) (value : Bool) :
    (bool value).Rereadable around :=
  ⟨trivial, room, nofun⟩

theorem rereadable_str (room : around ≤ depthLimit) (text : String) :
    (str text).Rereadable around :=
  ⟨trivial, room, nofun⟩

theorem rereadable_num (room : around ≤ depthLimit) {number : Number} (fits : number.Fits) :
    (num number).Rereadable around := by
  refine ⟨trivial, room, ?_⟩
  rintro _ ⟨⟩
  exact fits

/-- An array is rereadable if there is room for it and its items are. -/
theorem rereadable_arr {items : List Json} :
    (arr items).Rereadable around ↔
      around < depthLimit ∧ ∀ item ∈ items, item.Rereadable (around + 1) := by
  constructor
  · rintro ⟨isArranged, room, _, fits⟩
    rw [depth] at room
    refine ⟨by omega, fun item present => ?_⟩
    have bound := itemsDepth_le_iff.mp (Nat.le_refl _) item present
    refine ⟨allArranged_iff.mp isArranged item present, ?_, eachItem_iff.mp fits item present⟩
    omega
  · rintro ⟨room, each⟩
    have bound : itemsDepth items ≤ depthLimit - (around + 1) := by
      refine itemsDepth_le_iff.mpr fun item present => ?_
      have := (each item present).room
      omega
    refine ⟨allArranged_iff.mpr fun item present => (each item present).isArranged, ?_,
      by simp [Fits], eachItem_iff.mpr fun item present => (each item present).fits⟩
    rw [depth]
    omega

/-- An object is rereadable if there is room for it, its keys ascend and its members'
values are rereadable. -/
theorem rereadable_obj {members : Members} :
    (obj members).Rereadable around ↔
      around < depthLimit ∧ KeysAscend members ∧
        ∀ member ∈ members, member.2.Rereadable (around + 1) := by
  constructor
  · rintro ⟨⟨ascends, arranged⟩, room, _, fits⟩
    rw [depth] at room
    refine ⟨by omega, ascends, fun member present => ?_⟩
    have bound := membersDepth_le_iff.mp (Nat.le_refl _) member present
    refine ⟨membersArranged_iff.mp arranged member present, ?_,
      eachMember_iff.mp fits member present⟩
    omega
  · rintro ⟨room, ascends, each⟩
    have bound : membersDepth members ≤ depthLimit - (around + 1) := by
      refine membersDepth_le_iff.mpr fun member present => ?_
      have := (each member present).room
      omega
    refine ⟨⟨ascends, membersArranged_iff.mpr fun member present =>
      (each member present).isArranged⟩, ?_, by simp [Fits],
      eachMember_iff.mpr fun member present => (each member present).fits⟩
    rw [depth]
    omega

/-- An item behind the others of an array keeps it rereadable; they are kept from the latest
to the first. -/
theorem Rereadable.item {items : List Json} (rereadable : (arr items.reverse).Rereadable around)
    {value : Json} (own : value.Rereadable (around + 1)) :
    (arr (value :: items).reverse).Rereadable around := by
  obtain ⟨room, each⟩ := rereadable_arr.mp rereadable
  refine rereadable_arr.mpr ⟨room, fun item present => ?_⟩
  rw [List.reverse_cons, List.mem_append, List.mem_singleton] at present
  rcases present with old | rfl
  · exact each item old
  · exact own

/-- Putting a member into an object keeps it rereadable. -/
theorem Rereadable.put {members : Members} (rereadable : (obj members).Rereadable around)
    (key : String) {value : Json} (own : value.Rereadable (around + 1)) :
    (obj (put key value members)).Rereadable around := by
  obtain ⟨room, ascends, each⟩ := rereadable_obj.mp rereadable
  refine rereadable_obj.mpr ⟨room, keysAscend_put key value ascends, fun member present => ?_⟩
  rcases mem_of_mem_put present with rfl | old
  · exact own
  · exact each member old

/-- Putting several members into an object keeps it rereadable. -/
theorem Rereadable.putAll {members added : Members} (rereadable : (obj members).Rereadable around)
    (own : ∀ member ∈ added, member.2.Rereadable (around + 1)) :
    (obj (putAll members added)).Rereadable around := by
  obtain ⟨room, ascends, each⟩ := rereadable_obj.mp rereadable
  refine rereadable_obj.mpr ⟨room, keysAscend_putAll added ascends, fun member present => ?_⟩
  rcases mem_of_mem_putAll present with old | new
  · exact each member old
  · exact own member new

/-- Taking a key away keeps an object rereadable. -/
theorem Rereadable.erase {members : Members} (rereadable : (obj members).Rereadable around)
    (key : String) : (obj (erase key members)).Rereadable around := by
  obtain ⟨room, ascends, each⟩ := rereadable_obj.mp rereadable
  refine rereadable_obj.mpr ⟨room, keysAscend_erase key ascends, fun member present => ?_⟩
  exact each member (List.mem_filter.mp present).1

end containers

/-! ## Scalars of a text -/

/-- Whether a token is a number that is read as a real one. -/
def Token.isReal : Token → Bool
  | .scalar (.num (.real _)) => true
  | _ => false

/-- A scalar token's value can stand anywhere. -/
def Token.Anywhere (token : Token) : Prop :=
  ∀ value, token = .scalar value → ∀ around ≤ depthLimit, value.Rereadable around

/-- A number of an admitted whole value fits 64 bits. -/
theorem fits_of_wholeNumber? {negative : Bool} {n : Nat} {value : Int}
    (whole : wholeNumber? negative n = some value) : Number.Fits (.int value) := by
  have half : Numeric.twoTo 63 = 2 ^ 63 := by decide
  have full : Numeric.wordCount = 2 ^ 64 := by decide
  unfold wholeNumber? at whole
  rw [half, full] at whole
  split at whole
  · split at whole
    case isTrue inside =>
      cases whole
      constructor <;> omega
    case isFalse => cases whole
  · split at whole
    case isTrue inside =>
      cases whole
      constructor <;> omega
    case isFalse => cases whole

/-- A number that is read fits 64 bits, unless it is read as a real one. -/
theorem fits_of_numberOf? {negative : Bool} {whole : List Char} {fraction : Option (List Char)}
    {power : Option Int} {number : Number}
    (read : numberOf? negative whole fraction power = some number)
    (notReal : (Token.scalar (num number)).isReal = false) : number.Fits := by
  unfold numberOf? at read
  dsimp only at read
  split at read
  case h_1 value exact =>
    cases read
    split at exact
    · exact fits_of_wholeNumber? exact
    · cases exact
  case h_2 =>
    obtain ⟨real, _, rfl⟩ := Option.map_eq_some_iff.mp read
    cases notReal

/-- A number that is read can stand anywhere, unless it is a real one. -/
theorem anywhere_of_readNumber {negative : Bool} {chars rest : List Char} {value : Json}
    (read : readNumber negative chars = .ok (value, rest))
    (notReal : (Token.scalar value).isReal = false) : (Token.scalar value).Anywhere := by
  unfold readNumber at read
  obtain ⟨⟨whole, _⟩, _, read⟩ := bind_eq_ok_iff.mp read
  obtain ⟨⟨fraction, _⟩, _, read⟩ := bind_eq_ok_iff.mp read
  obtain ⟨⟨power, _⟩, _, read⟩ := bind_eq_ok_iff.mp read
  dsimp only at read
  split at read
  case h_1 number found =>
    cases read
    rintro _ ⟨⟩ around room
    exact rereadable_num room (fits_of_numberOf? found notReal)
  case h_2 => cases read

/-- A scalar that is read can stand anywhere, unless it is a real number. -/
theorem anywhere_of_readScalar? {c : Char} {chars rest : List Char} {value : Json}
    (read : readScalar? c chars = some (.ok (value, rest)))
    (notReal : (Token.scalar value).isReal = false) : (Token.scalar value).Anywhere := by
  have ofWord {word : List Char} {meant : Json}
      (anywhere : ∀ around ≤ depthLimit, meant.Rereadable around)
      (mapped : (readWord word chars).map (fun read => (meant, read.2)) =
        Except.ok (value, rest)) : (Token.scalar value).Anywhere := by
    cases wordRead : readWord word chars with
    | error fault =>
      rw [wordRead] at mapped
      cases mapped
    | ok behind =>
      rw [wordRead] at mapped
      cases mapped
      rintro _ ⟨⟩
      exact anywhere
  unfold readScalar? at read
  split at read
  · exact ofWord (fun _ => rereadable_null) (Option.some.inj read)
  · exact ofWord (fun _ room => rereadable_bool room true) (Option.some.inj read)
  · exact ofWord (fun _ room => rereadable_bool room false) (Option.some.inj read)
  · exact anywhere_of_readNumber (Option.some.inj read) notReal
  · split at read
    · exact anywhere_of_readNumber (Option.some.inj read) notReal
    · cases read

/-- A token that is cut off is a scalar only if that was read. -/
theorem Token.anywhere_of_next {c : Char} {rest : List Char} {token : Token}
    {behind : Option (List Char)} (next : Token.next c rest = (token, behind))
    (notReal : token.isReal = false) : token.Anywhere := by
  unfold Token.next at next
  split at next
  case h_1 mark =>
    cases next
    rintro value rfl
    unfold Token.ofMark? at mark
    split at mark
    all_goals cases mark
  case h_2 =>
    split at next
    · split at next
      all_goals
        cases next
        nofun
    · split at next
      case h_1 read =>
        cases next
        exact anywhere_of_readScalar? read notReal
      all_goals
        cases next
        nofun

/-- A token that no reading goes on from is the last. -/
theorem tokens_of_last {c : Char} {rest : List Char} {token : Token}
    (mark : isSpacing c = false) (next : Token.next c rest = (token, none)) :
    tokens (c :: rest) = [token] := by
  have solid : ¬isSpacing c = true := by simp [mark]
  rw [tokens, if_neg solid]
  split
  case h_1 other =>
    rw [next] at other
    cases other
    rfl
  case h_2 other =>
    rw [next] at other
    cases other

/-- The scalars of a text can stand anywhere, unless they are real numbers. -/
theorem anywhere_of_mem_tokens {chars : List Char} {token : Token}
    (present : token ∈ tokens chars) (notReal : token.isReal = false) : token.Anywhere := by
  induction chars using tokens.induct with
  | case1 => simp [tokens] at present
  | case2 c rest blank ih =>
    rw [tokens_blank blank] at present
    exact ih present
  | case3 c rest solid last next =>
    rw [tokens_of_last (by simpa using solid) next, List.mem_singleton] at present
    subst present
    exact Token.anywhere_of_next next notReal
  | case4 c rest solid first behind next shorter ih =>
    rw [tokens_of_next (by simpa using solid) next] at present
    rcases List.mem_cons.mp present with rfl | later
    · exact Token.anywhere_of_next next notReal
    · exact ih later

/-! ## What is read -/

/-- What an open container would be if it were closed. -/
def Frame.closed : Frame → Json
  | .array items => .arr items.reverse
  | .object members _ => .obj members

/-- Every open container would be rereadable. -/
def FramesRereadable : List Frame → Prop
  | [] => True
  | frame :: frames => frame.closed.Rereadable frames.length ∧ FramesRereadable frames

/-- The open containers would be rereadable, and so is or would be what has been read
inside them. -/
def Stage.Rereadable : Stage → Prop
  | .value frames => FramesRereadable frames
  | .firstItem frames => (arr []).Rereadable frames.length ∧ FramesRereadable frames
  | .firstKey frames => (obj []).Rereadable frames.length ∧ FramesRereadable frames
  | .nextKey members frames | .colon members _ frames =>
    (obj members).Rereadable frames.length ∧ FramesRereadable frames
  | .after json frames => json.Rereadable frames.length ∧ FramesRereadable frames

/-- Where containers would be rereadable, there is room for what is in them. -/
theorem length_le_of_framesRereadable {frames : List Frame} (sound : FramesRereadable frames) :
    frames.length ≤ depthLimit := by
  cases frames with
  | nil => exact Nat.zero_le _
  | cons frame frames =>
    rw [List.length_cons]
    cases frame with
    | array items => exact (rereadable_arr.mp sound.1).1
    | object members key => exact (rereadable_obj.mp sound.1).1

namespace Stage

variable {token : Token} {next : Stage}

/-- A value's first token leaves a sound stage. -/
theorem rereadable_beginValue {frames : List Frame} (sound : FramesRereadable frames)
    (anywhere : token.Anywhere) (step : beginValue frames token = .ok next) :
    next.Rereadable := by
  have room := length_le_of_framesRereadable sound
  unfold beginValue at step
  split at step
  case h_1 =>
    split at step
    case isTrue inside =>
      cases step
      exact ⟨rereadable_arr.mpr ⟨inside, nofun⟩, sound⟩
    case isFalse => cases step
  case h_2 =>
    split at step
    case isTrue inside =>
      cases step
      exact ⟨rereadable_obj.mpr ⟨inside, trivial, nofun⟩, sound⟩
    case isFalse => cases step
  case h_3 =>
    cases step
    exact ⟨rereadable_str room _, sound⟩
  case h_4 =>
    cases step
    exact ⟨anywhere _ rfl _ room, sound⟩
  all_goals cases step

/-- A key leaves a sound stage. -/
theorem rereadable_takeKey {members : Members} {frames : List Frame}
    (object : (obj members).Rereadable frames.length) (sound : FramesRereadable frames)
    (step : takeKey members frames token = .ok next) : next.Rereadable := by
  unfold takeKey at step
  split at step
  all_goals cases step
  exact ⟨object, sound⟩

/-- A token behind a complete value leaves a sound stage. -/
theorem rereadable_afterValue {json : Json} {frames : List Frame}
    (own : json.Rereadable frames.length) (sound : FramesRereadable frames)
    (step : afterValue json frames token = .ok next) : next.Rereadable := by
  unfold afterValue at step
  split at step
  case h_1 | h_2 =>
    cases step
    exact ⟨sound.1.item own, sound.2⟩
  case h_3 | h_4 =>
    cases step
    exact ⟨sound.1.put _ own, sound.2⟩
  case h_5 => cases step

/-- Reading a token keeps a stage sound. -/
theorem rereadable_step {stage : Stage} (sound : stage.Rereadable) (anywhere : token.Anywhere)
    (step : stage.step token = .ok next) : next.Rereadable := by
  unfold Stage.step at step
  split at step
  case h_1 => exact rereadable_beginValue sound anywhere step
  case h_2 =>
    cases step
    exact sound
  case h_3 =>
    refine rereadable_beginValue ?_ anywhere step
    exact sound
  case h_4 =>
    cases step
    exact sound
  case h_5 => exact rereadable_takeKey sound.1 sound.2 step
  case h_6 => exact rereadable_takeKey sound.1 sound.2 step
  case h_7 =>
    cases step
    exact sound
  case h_8 => cases step
  case h_9 => exact rereadable_afterValue sound.1 sound.2 step

/-- What is read from a sound stage is rereadable. -/
theorem rereadable_run {stage : Stage} {tokens : List Token} (sound : stage.Rereadable)
    (anywhere : ∀ token ∈ tokens, token.Anywhere) {value : Json}
    (read : run stage tokens = .ok value) : value.Rereadable 0 := by
  induction tokens generalizing stage with
  | nil =>
    unfold run at read
    split at read
    case h_1 =>
      cases read
      exact sound.1
    case h_2 => cases read
  | cons token tokens ih =>
    obtain ⟨own, others⟩ := List.forall_mem_cons.mp anywhere
    unfold run at read
    split at read
    case h_1 => cases read
    case h_2 next step => exact ih (rereadable_step sound own step) others read

end Stage

/-- What is read of a text without real numbers is rereadable. -/
theorem rereadable_of_read {text : String} {value : Json}
    (noReal : ∀ token ∈ tokens text.toList, token.isReal = false)
    (accepted : read text = .ok value) : value.Rereadable 0 := by
  have sound : (Stage.value []).Rereadable := trivial
  apply Stage.rereadable_run sound _ accepted
  intro token present
  exact anywhere_of_mem_tokens present (noReal token present)

end AllowList.Json
