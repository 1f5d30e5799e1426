import AllowList.Issue
import AllowList.Json.Compact
import AllowList.Json.Escape
import AllowList.Policy.Decoding
import AllowList.Policy.Encoding
import AllowList.Text.Quoted

/-!
# Failures

Why a piece of work came to nothing, by its cause, and how that is told. A list
that was refused is told of by a report for each of its errors, which points
into the list's text; any other failure is told of by one report.
-/

namespace AllowList

/-- Why a file cannot be read. -/
inductive ReadFault where
  /-- There is no such file. -/
  | notFound
  /-- The path leads to a directory. -/
  | isDirectory
  /-- The path leads through something that is no directory. -/
  | notDirectory
  /-- A part of the path is longer than a name may be. -/
  | nameTooLong
  /-- The path holds the character that ends paths. -/
  | nulInPath
  /-- The file's bytes are no UTF-8. -/
  | notText
  /-- The system said something else. -/
  | other (message : String)
  deriving DecidableEq, Repr, Inhabited

/-- Why a configuration cannot be used. -/
inductive ConfigFault where
  /-- There is no file at the given path. -/
  | missing (path : String)
  /-- The text is not in the form of a configuration. -/
  | malformed
  /-- Joined lists are given no width. -/
  | noWidth
  deriving DecidableEq, Repr, Inhabited

/-- Why a piece of work failed. -/
inductive Failure where
  /-- A file cannot be read. -/
  | unreadable (path : String) (fault : ReadFault)
  /-- A file cannot be written. -/
  | unwritable (path : String)
  /-- A list has errors; the text is the list's. -/
  | refused (diagnostics : List Diagnostic) (text : String)
  /-- A base cannot stand under a policy. -/
  | badBase (fault : BaseFault)
  /-- A configuration cannot be used. -/
  | badConfig (fault : ConfigFault)
  /-- A policy names a namespace that does not exist. -/
  | unknownSpace (text : String)
  /-- A text is no JSON. -/
  | badText (fault : Json.Fault)
  /-- A JSON value does not have the shape of a policy. -/
  | badShape (fault : ShapeFault)
  deriving DecidableEq, Repr

/-- What is said of a file that cannot be read. -/
def ReadFault.message : ReadFault → String
  | notFound => "No such file or directory (os error 2)"
  | isDirectory => "Is a directory (os error 21)"
  | notDirectory => "Not a directory (os error 20)"
  | nameTooLong => "File name too long (os error 36)"
  | nulInPath => "file name contained an unexpected NUL byte"
  | notText => "stream did not contain valid UTF-8"
  | other message => message

/-- Whether a fault says that nothing is at the path; otherwise something is
there, and only reading it fails. -/
def ReadFault.isAbsence : ReadFault → Bool
  | notFound | notDirectory | nameTooLong | nulInPath => true
  | isDirectory | notText | other _ => false

/-- What is said of a configuration. -/
def ConfigFault.message : ConfigFault → String
  | missing path => "Missing configuration file: " ++ path
  | malformed => "Failed to parse TOML configuration"
  | noWidth => "Validation error: `join.width` must be at least 1"

/-- What is said of a base. -/
def BaseFault.message : BaseFault → String
  | notObject found => "expected a JSON object, found " ++ found.compact
  | removalsNotArray found => "`removeAttributes` must be an array, found " ++ found.compact

/-- What a value is, as a message names it. -/
def Json.kind : Json → String
  | null => "null"
  | bool value => "boolean `" ++ (if value then "true" else "false") ++ "`"
  | num (.int value) => "integer `" ++ String.ofList (writtenInt value) ++ "`"
  | num (.real value) => "floating point `" ++ String.ofList (writtenReal value) ++ "`"
  | str text => "string " ++ Text.quoted text
  | arr _ => "sequence"
  | obj _ => "map"

/-- What was expected, as a message names it. -/
def Expected.text : Expected → String
  | list => "a sequence"
  | truth => "a boolean"
  | policy => "struct DocumentRepr"

/-- What is said of a shape. -/
def ShapeFault.message : ShapeFault → String
  | unexpected found expected => "invalid type: " ++ found.kind ++ ", expected " ++ expected.text
  | notAnEntry => "data did not match any variant of untagged enum EntityRepr"
  | tooLong length =>
    "invalid length " ++ toString length ++ ", expected fewer elements in array"

/-- What is said of a text that is no JSON. -/
def Json.Fault.message : Json.Fault → String
  | cut => "the text ends inside a value"
  | malformed => "the text is malformed"

/-- What is reported of a failure. -/
structure Report where
  message : String
  /-- The code of the failure, or of the diagnostic reported. -/
  code : Option String
  /-- How much a diagnostic weighs; other failures do not say. -/
  severity : Option Severity := none
  /-- Advice. -/
  help : Option String := none
  /-- Places in the text that the report comes with. -/
  labels : List Label := []
  /-- Whether the report comes with the text it is about. -/
  hasSource : Bool := false
  /-- Whether another failure lies behind this one. -/
  hasCause : Bool := false
  deriving DecidableEq, Repr

/-- A report in lines: its code and message, the places it points to, by their
byte offsets, and its advice. -/
def Report.lines (report : Report) : List String :=
  let head := match report.code with
    | some code => code ++ ": " ++ report.message
    | none => report.message
  let place (label : Label) : String :=
    "  at bytes " ++ toString label.span.start ++ " to " ++ toString label.span.stop ++ ": " ++
      label.message
  head :: report.labels.map place ++ (report.help.map ("  help: " ++ ·)).toList

namespace Failure

/-- The failure of a list with issues. -/
def ofIssues (text : String) (issues : List Issue) : Failure :=
  .refused (issues.map Issue.diagnostic) text

/-- The failure of a value that is no policy. -/
def ofDecodeFault : DecodeFault → Failure
  | .shape fault => .badShape fault
  | .unknownSpace text => .unknownSpace text

/-- What is said of a failure. -/
def message : Failure → String
  | unreadable path fault => "cannot read `" ++ path ++ "`: " ++ fault.message
  | unwritable path => "cannot write `" ++ path ++ "`"
  | refused diagnostics _ => Diagnostic.summary diagnostics
  | badBase fault => "invalid base configuration: " ++ fault.message
  | badConfig fault => "invalid configuration: " ++ fault.message
  | unknownSpace text => "invalid policy document: " ++ Namespace.unknownMessage text
  | badText fault => "JSON error: " ++ fault.message
  | badShape fault => "JSON error: " ++ fault.message

/-- The code of a failure; a refused list has the codes of its diagnostics. -/
def code : Failure → Option String
  | unreadable .. => some "sieve::input"
  | unwritable _ => some "sieve::output"
  | refused .. => none
  | badBase _ => some "sieve::base"
  | badConfig _ => some "sieve::config"
  | unknownSpace _ => some "sieve::document"
  | badText _ | badShape _ => some "sieve::json"

/-- What to do about a failure. -/
def help : Failure → Option String
  | badBase _ => some
    "the base file must hold a JSON object whose `removeAttributes`, if present, is an array"
  | badConfig _ => some "see `[normalize]`, `[document]` and `[join]` in the documentation"
  | _ => none

/-- Whether a failure of the system or of a reader lies behind it. -/
def hasCause : Failure → Bool
  | unreadable .. | unwritable _ | badText _ | badShape _ => true
  | _ => false

/-- The report of one diagnostic. -/
def reportOf (diagnostic : Diagnostic) : Report where
  message := diagnostic.message
  code := diagnostic.code.map Code.text
  severity := some diagnostic.severity
  help := diagnostic.help
  labels := diagnostic.labels
  hasSource := true

/-- The reports of a failure: one for each error of a refused list, its warnings
having been told already, and one for anything else. -/
def reports (failure : Failure) : List Report :=
  match failure with
  | refused diagnostics _ => (Diagnostic.errors diagnostics).map reportOf
  | other =>
    [{ message := other.message, code := other.code, help := other.help,
       hasCause := other.hasCause }]

end Failure

end AllowList
