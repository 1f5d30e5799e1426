import AllowList.Diagnostic
import AllowList.QName

/-!
# Issues

An issue is what is wrong with one line of a list, by its cause: which line,
where its content stands, and what is the matter. `Issue.diagnostic` puts it
into words. Every message begins with the number of its line.
-/

namespace AllowList

/-- What an entry of a source list is about. -/
inductive Role where
  | element
  | attr
  deriving DecidableEq, Repr, Inhabited

namespace Role

/-- Whether a namespace can qualify an entry of this role. -/
def accepts : Role → Namespace → Bool
  | element, space => space.qualifiesElements
  | attr, space => space.qualifiesAttributes

/-- Which keywords can qualify an entry of this role. -/
def advice : Role → String
  | element => "elements can be qualified with `svg` or `math`"
  | attr => "attributes can be qualified with `xlink`, `xml` or `xmlns`"

end Role

/-- What may be wrong with a line. -/
inductive Cause where
  /-- A bracketed line that marks no global section. -/
  | unknownSection
  /-- An entry without a name. -/
  | missingName
  /-- A name with white space in it, and where the name stands. -/
  | spacedName (place : Span)
  /-- A first word that qualifies no entry of this role, and where it stands. -/
  | foreignKeyword (role : Role) (word : String) (place : Span)
  /-- A name list's header that names no namespace. -/
  | unknownSpace (text : String)
  /-- An attribute in front of every element and global section. -/
  | detached (name : QName)
  deriving DecidableEq, Repr

/-- One line of a list and what is wrong with it. -/
structure Issue where
  /-- The line's number, the first being one. -/
  line : Nat
  /-- Where the line's content stands. -/
  content : Span
  /-- What is wrong. -/
  cause : Cause
  deriving DecidableEq, Repr

namespace Cause

/-- A detached attribute is ignored; every other cause refuses the list. -/
def severity : Cause → Severity
  | detached _ => .warning
  | _ => .error

/-- The code under which a cause is told. -/
def code : Cause → Code
  | unknownSection | missingName | spacedName _ => .malformedEntry
  | foreignKeyword .. => .unknownKeyword
  | unknownSpace _ => .unknownListSpace
  | detached _ => .detachedAttribute

/-- What is wrong, without the number of the line. -/
def message : Cause → String
  | unknownSection => "unrecognised section marker"
  | missingName => "entry has no name"
  | spacedName _ => "name contains whitespace"
  | foreignKeyword _ word _ => "unknown namespace prefix `" ++ word ++ "`"
  | unknownSpace text => Namespace.unknownMessage text
  | detached name =>
    "attribute `" ++ name.display ++ "` is not inside an element or global section"

/-- The remarks on the line, given where its content stands. -/
def labels (content : Span) : Cause → List Label
  | unknownSection => [⟨content, "unrecognised section marker", true⟩]
  | missingName => [⟨content, "entry has no name", true⟩]
  | spacedName place => [⟨place, "name contains whitespace", true⟩]
  | foreignKeyword _ _ place =>
    [⟨place, "not a namespace keyword here", true⟩, ⟨content, "in this entry", false⟩]
  | unknownSpace _ => [⟨content, "unknown namespace", true⟩]
  | detached _ => [⟨content, "ignored", true⟩]

/-- What to do about it. -/
def advice : Cause → String
  | unknownSection => "global sections are written `[... Global]`"
  | missingName => "write the name after the marker, e.g. `- title`"
  | spacedName _ =>
    "each line holds exactly one name, optionally preceded by a namespace keyword"
  | foreignKeyword role _ _ => role.advice
  | unknownSpace _ =>
    "use a namespace URI or one of `svg`, `math`, `xlink`, `xml`, `xmlns`"
  | detached _ => "move the line below the element it belongs to"

end Cause

/-- The diagnostic that puts an issue into words. -/
def Issue.diagnostic (issue : Issue) : Diagnostic where
  severity := issue.cause.severity
  code := some issue.cause.code
  message := "line " ++ toString issue.line ++ ": " ++ issue.cause.message
  labels := issue.cause.labels issue.content
  help := some issue.cause.advice

/-- Whether a list with this issue is refused. -/
def Issue.isError (issue : Issue) : Bool :=
  issue.cause.severity == .error

end AllowList
