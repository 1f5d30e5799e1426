import AllowList.Json.Written

/-!
# Compact JSON text

A value on one line without blanks, as it is shown inside a message. Text
outside ASCII stays as it is.
-/

namespace AllowList.Json

mutual

/-- The compact text of a value. -/
def compactChars : Json → List Char
  | null => "null".toList
  | bool true => "true".toList
  | bool false => "false".toList
  | num value => value.written
  | str text => writtenText writtenChar text
  | arr [] => ['[', ']']
  | arr (item :: items) => '[' :: compactChars item ++ compactItems items
  | obj [] => ['{', '}']
  | obj ((key, value) :: rest) =>
    '{' :: writtenText writtenChar key ++ ':' :: compactChars value ++ compactMembers rest

/-- The compact text of an array behind its first item. -/
def compactItems : List Json → List Char
  | [] => [']']
  | item :: items => ',' :: compactChars item ++ compactItems items

/-- The compact text of an object behind its first member. -/
def compactMembers : Members → List Char
  | [] => ['}']
  | (key, value) :: rest =>
    ',' :: writtenText writtenChar key ++ ':' :: compactChars value ++ compactMembers rest

end

/-- A value on one line. -/
def compact (value : Json) : String :=
  String.ofList (compactChars value)

end AllowList.Json
