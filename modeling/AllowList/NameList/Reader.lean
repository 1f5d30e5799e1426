import AllowList.Issue
import AllowList.Log.Basic
import AllowList.NameList.Basic
import AllowList.Text.Rows

/-!
# Reading name lists

A name list is written one name to a line. Blanks around a name do not count,
and lines that are empty or begin with `#` or `//` are skipped, except that a
header `# namespace:` says which namespace the names belong to. A header may
stand anywhere and may be repeated, the last one counting for the whole list;
one that names no namespace refuses the list at once.
-/

namespace AllowList.NameList

/-- What a header line begins with. -/
def header : List Char :=
  "# namespace:".toList

/-- What follows a list's marker in a line that begins with it. -/
def after? (marker line : List Char) : Option (List Char) :=
  if marker.isPrefixOf line then some (line.drop marker.length) else none

/-- Whether a trimmed line holds no name. -/
def isSkipped (line : List Char) : Bool :=
  line.isEmpty || "#".toList.isPrefixOf line || "//".toList.isPrefixOf line

/-- Where a row's trimmed line stands. -/
def lineSpan (row : Text.Row) : Span :=
  let start := row.start + Text.byteLength (Text.leading row.chars)
  ⟨start, start + Text.byteLength (Text.trim row.chars)⟩

/-- Takes one row into the list read so far. -/
def step (list : NameList) (row : Text.Row) : Except Issue NameList :=
  let line := Text.trim row.chars
  match after? header line with
  | some value =>
    let text := String.ofList (Text.trim value)
    match Namespace.ofText? text with
    | some space => .ok { list with space := space }
    | none => .error ⟨row.number, lineSpan row, .unknownSpace text⟩
  | none =>
    if isSkipped line then .ok list
    else .ok { list with names := list.names ++ [String.ofList line] }

/-- Reads a name list whose names are in `space` unless a header says
otherwise. -/
def ofText (space : Namespace) (text : String) : Except Issue NameList :=
  (Text.placed text.toList).foldlM step { space := space }

/-- Reads a name list and tells of it. Without a namespace of their own or from
a header, names are in HTML's. -/
def read (space : Option Namespace) (text : String) : Logged (Except Issue NameList) := do
  match ofText (space.getD .html) text with
  | .error issue => pure (.error issue)
  | .ok list =>
    Logged.tell .debug "Name list loaded"
      [("namespace", list.space.uri), ("names", toString list.names.length)]
    pure (.ok list)

end AllowList.NameList
