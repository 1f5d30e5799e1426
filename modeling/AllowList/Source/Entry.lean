import AllowList.Issue
import AllowList.Source.Line

/-!
# Entries of a source list

A line that is not empty holds one entry:

* `[… Global]` opens the global section;
* a dash, a blank and a body allows an attribute, and with an exclamation mark
  in place of the dash removes one;
* a body on its own allows an element.

A body is a name, or a namespace keyword, a blank and a name. The blank here is
made of spaces and tabs, while a name must be free of white space of any kind.
A dash or an exclamation mark is a marker only when a blank or the end of the
line follows it; otherwise it belongs to the name.
-/

namespace AllowList.Source

/-- What one line of a source list asks for. -/
inductive Entry where
  /-- What follows belongs to every element. -/
  | globalSection
  /-- An element is allowed; what follows belongs to it. -/
  | element (name : QName)
  /-- An attribute is allowed. -/
  | allow (name : QName)
  /-- An attribute is removed. -/
  | remove (name : QName)
  deriving DecidableEq, Repr

/-- What the mark in front of a body says about it. -/
inductive Marker where
  | allow
  | remove
  deriving DecidableEq, Repr

/-- The marker a character stands for. -/
def Marker.ofChar? : Char → Option Marker
  | '-' => some .allow
  | '!' => some .remove
  | _ => none

/-- The entry that a marker makes of an attribute. -/
def Marker.entry (marker : Marker) (name : QName) : Entry :=
  match marker with
  | .allow => .allow name
  | .remove => .remove name

/-- A content that begins with a marker. -/
structure Marked where
  /-- The marker. -/
  marker : Marker
  /-- The marker's character and the blank behind it. -/
  opening : List Char
  /-- The body. -/
  body : List Char
  deriving DecidableEq, Repr

/-- Splits off a content's marker. A character that no blank follows is no
marker, unless it is the whole content. -/
def Marked.ofChars? : List Char → Option Marked
  | [] => none
  | c :: rest =>
    (Marker.ofChar? c).bind fun marker =>
      if rest.isEmpty || rest.head?.any Text.isGap then
        some ⟨marker, c :: rest.takeWhile Text.isGap, rest.dropWhile Text.isGap⟩
      else none

/-- A body as written: a name, perhaps behind a keyword and a blank. -/
structure Body where
  /-- The word in front of the name, if there is one, and the blank behind it. -/
  qualifier : Option (List Char × List Char)
  /-- The name. -/
  name : List Char
  deriving DecidableEq, Repr

/-- Reads a body. There is none if it does not begin with a word, or if the
first word is followed by white space other than spaces and tabs. The name is
all that follows the keyword, whatever it holds. -/
def Body.ofChars? (chars : List Char) : Option Body :=
  let word := chars.takeWhile (!Text.isBlank ·)
  let rest := chars.dropWhile (!Text.isBlank ·)
  if word.isEmpty then none
  else if rest.isEmpty then some ⟨none, word⟩
  else
    let gap := rest.takeWhile Text.isGap
    if gap.isEmpty then none
    else some ⟨some (word, gap), rest.dropWhile Text.isGap⟩

/-- What stands in front of a body's name. -/
def Body.beforeName (body : Body) : List Char :=
  match body.qualifier with
  | none => []
  | some (word, gap) => word ++ gap

/-- The namespace that a keyword gives to an entry of a role. -/
def qualify? (role : Role) (word : List Char) : Option Namespace :=
  (Namespace.ofKeyword? (String.ofList word)).filter role.accepts

/-- The qualified name that a body stands for in a role; `unqualified` is the
namespace of a name without a keyword, and `before` what the line holds in
front of the body. -/
def nameOf (line : Line) (role : Role) (unqualified : Option Namespace)
    (before chars : List Char) : Except Cause QName :=
  match Body.ofChars? chars with
  | none => .error .missingName
  | some body =>
    if body.name.any Text.isBlank then
      .error (.spacedName (line.spanOf (before ++ body.beforeName) body.name))
    else
      match body.qualifier with
      | none => .ok ⟨unqualified, String.ofList body.name⟩
      | some (word, _) =>
        match qualify? role word with
        | none => .error (.foreignKeyword role (String.ofList word) (line.spanOf before word))
        | some space => .ok ⟨some space, String.ofList body.name⟩

/-- The entry of a line, if it holds one, or what is wrong with the line. -/
def Line.read (line : Line) : Except Cause (Option Entry) :=
  if line.content.isEmpty then .ok none
  else if line.content.head? = some '[' then
    if "Global]".toList.isSuffixOf line.content then .ok (some .globalSection)
    else .error .unknownSection
  else
    match Marked.ofChars? line.content with
    | none =>
      (nameOf line .element (some .html) [] line.content).map fun name => some (.element name)
    | some marked =>
      (nameOf line .attr none marked.opening marked.body).map fun name =>
        some (marked.marker.entry name)

end AllowList.Source
