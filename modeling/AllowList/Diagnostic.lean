/-!
# Diagnostics

What is said about a text that was read: an error or a warning, with a code,
labelled places in the text, and advice. Places are byte offsets.

A text is refused for its errors; warnings are only told. `summary` is the one
line that stands for a whole list of diagnostics: the first error, and how
many errors follow it.
-/

namespace AllowList

/-- A stretch of a text, by byte offsets: from `start` up to `stop`. -/
structure Span where
  /-- The offset of the first byte. -/
  start : Nat
  /-- The offset behind the last byte. -/
  stop : Nat
  deriving DecidableEq, Repr, Inhabited

/-- The number of bytes in a span. -/
def Span.length (span : Span) : Nat :=
  span.stop - span.start

/-- Whether a span holds no byte. -/
def Span.isEmpty (span : Span) : Bool :=
  span.start == span.stop

/-- How much a diagnostic weighs. -/
inductive Severity where
  /-- The text is refused. -/
  | error
  /-- The text is taken, but something in it has no effect. -/
  | warning
  deriving DecidableEq, Repr, Inhabited

/-- The word for a severity. -/
def Severity.word : Severity → String
  | error => "error"
  | warning => "warning"

/-- What kind of thing a diagnostic is about. -/
inductive Code where
  /-- A line that has none of the shapes an entry may have. -/
  | malformedEntry
  /-- A word that is no namespace keyword where it stands. -/
  | unknownKeyword
  /-- A name list's header that names no namespace. -/
  | unknownListSpace
  /-- An attribute that belongs to no element and no global section. -/
  | detachedAttribute
  deriving DecidableEq, Repr, Inhabited

/-- The text of a code; those of warnings begin with `E2`. -/
def Code.text : Code → String
  | malformedEntry => "E100"
  | unknownKeyword => "E101"
  | unknownListSpace => "E102"
  | detachedAttribute => "E200"

/-- A remark on a stretch of the text. -/
structure Label where
  /-- The stretch it is about. -/
  span : Span
  /-- The remark. -/
  message : String
  /-- Whether it marks the fault itself rather than what surrounds it. -/
  isPrimary : Bool := true
  deriving DecidableEq, Repr, Inhabited

/-- An error or a warning about a text. -/
structure Diagnostic where
  severity : Severity
  code : Option Code := none
  message : String
  labels : List Label := []
  help : Option String := none
  deriving DecidableEq, Repr, Inhabited

namespace Diagnostic

/-- Whether the text is refused for it. -/
def isError (diagnostic : Diagnostic) : Bool :=
  diagnostic.severity == .error

/-- The diagnostic on one line: severity, code in brackets, message. -/
def display (diagnostic : Diagnostic) : String :=
  let code := match diagnostic.code with
    | none => ""
    | some code => "[" ++ code.text ++ "]"
  diagnostic.severity.word ++ code ++ ": " ++ diagnostic.message

/-- The errors among some diagnostics. -/
def errors (diagnostics : List Diagnostic) : List Diagnostic :=
  diagnostics.filter isError

/-- One line for a list of diagnostics: its first error, and the number of
further errors if there are any. Without an error there is nothing to say. -/
def summary (diagnostics : List Diagnostic) : String :=
  match errors diagnostics with
  | [] => ""
  | [only] => only.display
  | first :: more => first.display ++ " (+" ++ toString more.length ++ " more)"

end Diagnostic

end AllowList
