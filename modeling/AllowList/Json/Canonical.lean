import AllowList.Json.Written

/-!
# Canonical JSON text

The one text of a value: keys in byte order at every level, each item and each
member on a line of its own, two blanks deeper than its container, an empty
container on one line, everything outside ASCII escaped, and a newline at the
end. Values that differ only in the order of members have the same text.
-/

namespace AllowList.Json

/-- A newline and the blanks in front of a line at a depth. -/
def lineBreak (depth : Nat) : List Char :=
  '\n' :: List.replicate (2 * depth) ' '

mutual

/-- The text of a value that stands at a depth. -/
def laidOut (depth : Nat) : Json → List Char
  | null => "null".toList
  | bool true => "true".toList
  | bool false => "false".toList
  | num value => value.written
  | str text => writtenText writtenAscii text
  | arr [] => ['[', ']']
  | arr (item :: items) =>
    '[' :: lineBreak (depth + 1) ++ laidOut (depth + 1) item ++ laidOutItems depth items
  | obj [] => ['{', '}']
  | obj ((key, value) :: rest) =>
    '{' :: lineBreak (depth + 1) ++ writtenText writtenAscii key ++ ':' :: ' ' ::
      laidOut (depth + 1) value ++ laidOutMembers depth rest

/-- The text of an array at a depth, behind its first item. -/
def laidOutItems (depth : Nat) : List Json → List Char
  | [] => lineBreak depth ++ [']']
  | item :: items =>
    ',' :: lineBreak (depth + 1) ++ laidOut (depth + 1) item ++ laidOutItems depth items

/-- The text of an object at a depth, behind its first member. -/
def laidOutMembers (depth : Nat) : Members → List Char
  | [] => lineBreak depth ++ ['}']
  | (key, value) :: rest =>
    ',' :: lineBreak (depth + 1) ++ writtenText writtenAscii key ++ ':' :: ' ' ::
      laidOut (depth + 1) value ++ laidOutMembers depth rest

end

/-- The canonical text of a value, as characters. -/
def canonicalChars (value : Json) : List Char :=
  laidOut 0 value.arranged ++ ['\n']

/-- The canonical text of a value. -/
def canonical (value : Json) : String :=
  String.ofList (canonicalChars value)

end AllowList.Json
