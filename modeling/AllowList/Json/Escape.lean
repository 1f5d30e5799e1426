import AllowList.Text.Bytes
import AllowList.Text.Hex

/-!
# Texts as JSON reads them

A text stands between quotes. A backslash begins an escape: a letter for a
common character, or four hexadecimal digits for a code unit of 16 bits. A
character beyond the 16 bits takes two units, a first and a second surrogate;
a surrogate on its own stands for nothing and is refused. Controls must be
escaped.

Every reader gives back the characters behind what it read, and these are
always fewer than it was given.
-/

namespace AllowList.Json

/-- Why a JSON text cannot be read. -/
inductive Fault where
  /-- The text ends where it should go on. -/
  | cut
  /-- Something stands where it cannot stand. -/
  | malformed
  deriving DecidableEq, Repr, Inhabited

/-- What was read, and the characters behind it. -/
abbrev Step (α : Type) := Except Fault (α × List Char)

/-- The fault of a place where something else should stand: the text is cut
short if nothing stands there. -/
def faultAt : List Char → Fault
  | [] => .cut
  | _ :: _ => .malformed

/-- Four hexadecimal digits. With fewer than four bytes left, the text is cut
short. -/
def readUnit : List Char → Step Nat
  | a :: b :: c :: d :: rest =>
    match Text.hexValue? a, Text.hexValue? b, Text.hexValue? c, Text.hexValue? d with
    | some a, some b, some c, some d => .ok (((a * 16 + b) * 16 + c) * 16 + d, rest)
    | _, _, _, _ => .error .malformed
  | short => .error (if Text.byteLength short < 4 then .cut else .malformed)

/-- The second half of a surrogate pair, given the first. -/
def readLowUnit (high : Nat) : List Char → Step Char
  | '\\' :: 'u' :: rest =>
    match readUnit rest with
    | .error fault => .error fault
    | .ok (low, rest) =>
      if 0xDC00 ≤ low ∧ low ≤ 0xDFFF then
        .ok (Char.ofNat (0x10000 + (high - 0xD800) * 0x400 + (low - 0xDC00)), rest)
      else .error .malformed
  | ['\\'] => .error .cut
  | chars => .error (faultAt chars)

/-- A character named by its code units. A first surrogate must be followed by
a second one, and a second one must not come first. -/
def readCodeUnits (chars : List Char) : Step Char :=
  match readUnit chars with
  | .error fault => .error fault
  | .ok (unit, rest) =>
    if 0xDC00 ≤ unit ∧ unit ≤ 0xDFFF then .error .malformed
    else if 0xD800 ≤ unit ∧ unit ≤ 0xDBFF then readLowUnit unit rest
    else .ok (Char.ofNat unit, rest)

/-- The character that a letter behind a backslash stands for. -/
def letterEscape? : Char → Option Char
  | '"' => some '"'
  | '\\' => some '\\'
  | '/' => some '/'
  | 'b' => some (Char.ofNat 8)
  | 'f' => some (Char.ofNat 12)
  | 'n' => some '\n'
  | 'r' => some '\r'
  | 't' => some '\t'
  | _ => none

/-- What stands behind a backslash. -/
def readEscape : List Char → Step Char
  | [] => .error .cut
  | c :: rest =>
    if c = 'u' then readCodeUnits rest
    else
      match letterEscape? c with
      | some meant => .ok (meant, rest)
      | none => .error .malformed

theorem length_of_readUnit {chars rest : List Char} {unit : Nat}
    (read : readUnit chars = .ok (unit, rest)) : rest.length < chars.length := by
  unfold readUnit at read
  split at read
  · split at read
    · simp only [Except.ok.injEq, Prod.mk.injEq] at read
      simp only [← read.2, List.length_cons]
      omega
    · simp at read
  · simp at read

theorem length_of_readLowUnit {high : Nat} {chars rest : List Char} {c : Char}
    (read : readLowUnit high chars = .ok (c, rest)) : rest.length < chars.length := by
  unfold readLowUnit at read
  split at read
  · split at read
    · simp at read
    · rename_i unitRead
      have shorter := length_of_readUnit unitRead
      split at read
      · simp only [Except.ok.injEq, Prod.mk.injEq] at read
        simp only [← read.2, List.length_cons]
        omega
      · simp at read
  · simp at read
  · simp at read

theorem length_of_readEscape {chars rest : List Char} {c : Char}
    (read : readEscape chars = .ok (c, rest)) : rest.length < chars.length := by
  unfold readEscape at read
  split at read
  · simp at read
  · split at read
    · unfold readCodeUnits at read
      split at read
      · simp at read
      · rename_i unitRead
        have shorter := length_of_readUnit unitRead
        split at read
        · simp at read
        · split at read
          · have shorterStill := length_of_readLowUnit read
            simp only [List.length_cons]
            omega
          · simp only [Except.ok.injEq, Prod.mk.injEq] at read
            simp only [← read.2, List.length_cons]
            omega
    · split at read
      · simp only [Except.ok.injEq, Prod.mk.injEq] at read
        simp [← read.2]
      · simp at read

/-- The characters of a text, up to the quote that ends it. A control does not
stand in a text as it is. -/
def readText : List Char → Step (List Char)
  | [] => .error .cut
  | c :: rest =>
    if c = '"' then .ok ([], rest)
    else if c = '\\' then
      match read : readEscape rest with
      | .error fault => .error fault
      | .ok (meant, rest') =>
        have := length_of_readEscape read
        match readText rest' with
        | .error fault => .error fault
        | .ok (text, rest'') => .ok (meant :: text, rest'')
    else if c.toNat < 32 then .error .malformed
    else
      match readText rest with
      | .error fault => .error fault
      | .ok (text, rest') => .ok (c :: text, rest')
termination_by chars => chars.length

/-- Behind a text there are fewer characters than it began with. -/
theorem length_of_readText {chars rest text : List Char}
    (read : readText chars = .ok (text, rest)) : rest.length < chars.length := by
  fun_induction readText chars generalizing text rest with
  | case1 => simp at read
  | case2 =>
    simp only [Except.ok.injEq, Prod.mk.injEq] at read
    simp [← read.2]
  | case3 => simp at read
  | case4 => simp at read
  | case5 =>
    rename_i shorter _ _ textRead _ ih
    simp only [Except.ok.injEq, Prod.mk.injEq] at read
    have := ih textRead
    rw [← read.2, List.length_cons]
    omega
  | case6 => simp at read
  | case7 => simp at read
  | case8 =>
    rename_i textRead ih
    simp only [Except.ok.injEq, Prod.mk.injEq] at read
    have := ih textRead
    rw [← read.2, List.length_cons]
    omega

end AllowList.Json
