import AllowList.Policy.Basic
import AllowList.Source.Entry
import AllowList.Text.Quoted

/-!
# Values spelled out in log records

The most talkative records show whole values on one line: the kind of a
structure, then its parts by name between braces, lists between brackets, and
texts quoted. Each function here spells out one kind of value.
-/

namespace AllowList.Log

/-- A structure: its kind, and its parts by name. -/
def spellParts (kind : String) (parts : List (String × String)) : String :=
  kind ++ " \x7b " ++ ", ".intercalate (parts.map fun part => part.1 ++ ": " ++ part.2) ++ " \x7d"

/-- A list, given how each item is spelled. -/
def spellList {α : Type} (spell : α → String) (items : List α) : String :=
  "[" ++ ", ".intercalate (items.map spell) ++ "]"

/-- A truth value. -/
def spellBool (b : Bool) : String :=
  if b then "true" else "false"

/-- A namespace, by its kind. -/
def spellNamespace : Namespace → String
  | .html => "Default"
  | .svg => "Svg"
  | .mathml => "MathMl"
  | .xlink => "XLink"
  | .xml => "Xml"
  | .xmlns => "Xmlns"

/-- A qualified name. -/
def spellName (name : QName) : String :=
  let space := match name.space with
    | none => "None"
    | some space => "Some(" ++ spellNamespace space ++ ")"
  spellParts "NamedEntity" [("name", Text.quoted name.name), ("namespace", space)]

/-- An element's rule. -/
def spellRule (rule : ElementRule) : String :=
  spellParts "ElementRecord"
    [("entity", spellName rule.name),
     ("attributes", spellList spellName rule.allowed),
     ("remove_attributes", spellList spellName rule.removed)]

/-- The flags of a policy. -/
def spellFlags (flags : Flags) : String :=
  spellParts "DocumentFlags"
    [("comments", spellBool flags.comments), ("data_attributes", spellBool flags.dataAttributes)]

/-- A policy. -/
def spellPolicy (policy : Policy) : String :=
  spellParts "Document"
    [("elements", spellList spellRule policy.elements),
     ("global_attributes", spellList spellName policy.globals),
     ("remove_attributes", spellList spellName policy.removed),
     ("flags", spellFlags policy.flags)]

/-- An entry of a source list. -/
def spellEntry : Source.Entry → String
  | .globalSection => "StartGlobalSection"
  | .element name => "Element(" ++ spellRule { name := name } ++ ")"
  | .allow name => "Attribute(" ++ spellName name ++ ")"
  | .remove name => "RemoveAttribute(" ++ spellName name ++ ")"

end AllowList.Log
