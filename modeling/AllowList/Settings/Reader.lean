import AllowList.Failure
import AllowList.Settings
import AllowList.Toml.Held
import AllowList.Toml.Reader

/-!
# Settings files

Settings are kept in a TOML text with three sections. What a text does not set
keeps its default, and what is no setting does not count, as long as machine
numbers hold it; a setting of the wrong kind refuses the whole text. A section
may also be a list, which gives its settings in order; what follows the last of
them is not looked at.
-/

namespace AllowList.Settings

/-- The settings of a section, given the names it has in order. A moment is a
section without any. -/
def sectionOf? (names : List String) : Toml → Option Toml.Members
  | .table _ members => if Toml.membersHeld members then some members else none
  | .list items => some (names.zip items)
  | .tables entries => some (names.zip (entries.map (.table .header)))
  | .moment _ => some []
  | _ => none

/-- The sections of a text, and the names of their settings in order. -/
def sections : List (String × List String) :=
  [("normalize", ["sorted", "compact_single_elements", "strip_empty_attribute_lists"]),
   ("document", ["comments", "data_attributes"]),
   ("join", ["width"])]

/-- A section of a text; it is empty if the text does not have it. -/
def findSection? (name : String) (members : Toml.Members) : Option Toml.Members :=
  match Toml.find? name members with
  | none => some []
  | some value => sectionOf? ((sections.lookup name).getD []) value

/-- What stands in a text beside the sections. -/
def besides (members : Toml.Members) : Toml.Members :=
  members.filter fun member => (sections.lookup member.1).isNone

/-- A setting that is switched on or off; it is off unless it is set. -/
def switch? (name : String) (members : Toml.Members) : Option Bool :=
  match Toml.find? name members with
  | none => some false
  | some (.truth b) => some b
  | some _ => none

/-- The width of joined lists, a number of 64 bits. -/
def width? (members : Toml.Members) : Option Nat :=
  match Toml.find? "width" members with
  | none => some defaultWidth
  | some (.integer value) =>
    if 0 ≤ value ∧ value < Numeric.wordCount then some value.toNat else none
  | some _ => none

/-- The settings of a text that was read. -/
def ofToml? (members : Toml.Members) : Option Settings := do
  let normalize ← findSection? "normalize" members
  let sorted ← switch? "sorted" normalize
  let compact ← switch? "compact_single_elements" normalize
  let stripEmpty ← switch? "strip_empty_attribute_lists" normalize
  let document ← findSection? "document" members
  let comments ← switch? "comments" document
  let dataAttributes ← switch? "data_attributes" document
  let width ← width? (← findSection? "join" members)
  if Toml.membersHeld (besides members) then
    return { options := ⟨sorted, compact, stripEmpty⟩, flags := ⟨comments, dataAttributes⟩,
             width := width }
  else none

/-- Reads a settings text. Joined lists need some width. -/
def read (text : String) : Except ConfigFault Settings :=
  match (Toml.read? text).bind ofToml? with
  | none => .error .malformed
  | some settings => if settings.width = 0 then .error .noWidth else .ok settings

end AllowList.Settings
