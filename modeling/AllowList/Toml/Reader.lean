import AllowList.Toml.Moment
import AllowList.Toml.Number
import AllowList.Toml.Table
import AllowList.Toml.Token

/-!
# Reading TOML text

A text is read line by line: a line is empty, a header between brackets, or a
key and its value. Keys are dotted paths of words and one-line texts. A list may
go on over several lines, and so may a table between braces, but for its dotted
keys; both may have a comma behind their last entry. Values nest at most 80 deep,
and a dotted key has at most as many parts.

Every reader takes the tokens it may use up as its bound, so the bound never
decides anything.
-/

namespace AllowList.Toml

/-- A dotted key as far as it is read. -/
structure Key where
  /-- The parts. -/
  parts : List String := []
  /-- Whether a part must come next, and not a dot. -/
  awaitsPart : Bool := true
  deriving DecidableEq, Repr

namespace Key

/-- Adds a part, if one may come next. -/
def takePart (key : Key) (part : String) : Option Key :=
  if key.awaitsPart then some ⟨key.parts ++ [part], false⟩ else none

/-- Adds a part without quotes. -/
def takeBare (key : Key) (chars : List Char) : Option Key :=
  if chars.all isBare then key.takePart (String.ofList chars) else none

/-- Reads a dot, if one may come next. -/
def takeDot (key : Key) : Option Key :=
  if key.awaitsPart then none else some { key with awaitsPart := true }

/-- Reads a word: parts with dots between them, perhaps with one in front and
one behind. -/
def takeWord (key : Key) (chars : List Char) : Option Key :=
  let takePiece (key : Key) (piece : List Char) : Option Key :=
    if piece.isEmpty then some key else key.takeBare piece
  match Text.pieces '.' chars with
  | [] => some key
  | first :: more =>
    (takePiece key first).bind fun key =>
      more.foldlM (fun key piece => key.takeDot.bind fun key => takePiece key piece) key

end Key

/-- How deep values may nest, and how many parts a dotted key may have. -/
def depthLimit : Nat := 80

/-- Reads a dotted key up to the mark behind it. -/
def readKey (key : Key) : List Token → Option (List String × List Token)
  | .blank _ :: rest => readKey key rest
  | .word chars :: rest => (key.takeWord chars).bind fun key => readKey key rest
  | .text content true :: rest => (key.takePart content).bind fun key => readKey key rest
  | tokens =>
    if key.awaitsPart || depthLimit < key.parts.length then none else some (key.parts, tokens)

/-- The value that a word stands for. -/
def ofWord? (chars : List Char) : Option Toml :=
  if chars = "true".toList then some (truth true)
  else if chars = "false".toList then some (truth false)
  else if isMoment chars then some (moment (String.ofList chars))
  else
    match real? chars with
    | some value => some (real value)
    | none => (integer? chars).map integer

/-- The tokens behind blanks. -/
def skipBlanks : List Token → List Token
  | .blank _ :: rest => skipBlanks rest
  | tokens => tokens

/-- The tokens behind blanks and newlines. -/
def skipGaps : List Token → List Token
  | .blank _ :: rest | .newline :: rest => skipGaps rest
  | tokens => tokens

mutual

/-- Reads a value, in which others may still nest so deep. -/
def readValue (depth : Nat) (bound : Nat) (tokens : List Token) : Option (Toml × List Token) :=
  match bound with
  | 0 => none
  | bound + 1 =>
    match tokens with
    | .text content _ :: rest => some (text content, rest)
    | .word date :: .blank [' '] :: .word time :: rest =>
      if isDate date then (ofWord? (date ++ ' ' :: time)).map fun value => (value, rest)
      else (ofWord? date).map fun value => (value, .blank [' '] :: .word time :: rest)
    | .word chars :: rest => (ofWord? chars).map fun value => (value, rest)
    | .openList :: rest => if depth = 0 then none else readItems (depth - 1) bound [] rest
    | .openTable :: rest => if depth = 0 then none else readMembers (depth - 1) bound [] rest
    | _ => none

/-- Reads the items of a list behind those read already. -/
def readItems (depth : Nat) (bound : Nat) (items : List Toml) (tokens : List Token) :
    Option (Toml × List Token) :=
  match bound with
  | 0 => none
  | bound + 1 =>
    match skipGaps tokens with
    | .closeList :: rest => some (list items, rest)
    | tokens =>
      match readValue depth bound tokens with
      | none => none
      | some (item, rest) =>
        match skipGaps rest with
        | .comma :: rest => readItems depth bound (items ++ [item]) rest
        | .closeList :: rest => some (list (items ++ [item]), rest)
        | _ => none

/-- Reads the members of a table between braces behind those read already. -/
def readMembers (depth : Nat) (bound : Nat) (members : Members) (tokens : List Token) :
    Option (Toml × List Token) :=
  match bound with
  | 0 => none
  | bound + 1 =>
    match skipGaps tokens with
    | .closeTable :: rest => some (table .inline members, rest)
    | tokens =>
      match readKey {} tokens with
      | none => none
      | some (keys, rest) =>
        match skipGaps rest with
        | .equals :: rest =>
          match readValue depth bound (skipGaps rest) with
          | none => none
          | some (value, rest) =>
            match assign keys value .inline members, skipGaps rest with
            | some members, .comma :: rest => readMembers depth bound members rest
            | some members, .closeTable :: rest => some (table .inline members, rest)
            | _, _ => none
        | _ => none

end

/-- Reads what a line holds, if it holds anything. -/
def readStatement (progress : Progress) (tokens : List Token) :
    Option (Progress × List Token) :=
  match tokens with
  | [] => some (progress, [])
  | .newline :: _ => some (progress, tokens)
  | .openList :: .openList :: rest =>
    match readKey {} rest with
    | some (keys, .closeList :: .closeList :: rest) =>
      (progress.takeEntryHeader keys).map fun progress => (progress, rest)
    | _ => none
  | .openList :: rest =>
    match readKey {} rest with
    | some (keys, .closeList :: rest) =>
      (progress.takeHeader keys).map fun progress => (progress, rest)
    | _ => none
  | tokens =>
    match readKey {} tokens with
    | some (keys, .equals :: rest) =>
      match readValue depthLimit tokens.length (skipBlanks rest) with
      | none => none
      | some (value, rest) => (progress.takeValue keys value).map fun progress => (progress, rest)
    | _ => none

/-- Reads lines to the end. -/
def readLines (progress : Progress) (bound : Nat) (tokens : List Token) : Option Members :=
  match bound with
  | 0 => none
  | bound + 1 =>
    match readStatement progress (skipBlanks tokens) with
    | none => none
    | some (progress, rest) =>
      match skipBlanks rest with
      | [] => some progress.members
      | .newline :: rest => readLines progress bound rest
      | _ => none

/-- Reads a TOML text, which may begin with a byte order mark. -/
def read? (source : String) : Option Members :=
  let chars := match source.toList with
    | '\uFEFF' :: rest => rest
    | chars => chars
  match tokens? chars with
  | none => none
  | some tokens => readLines {} (tokens.length + 1) tokens

end AllowList.Toml
