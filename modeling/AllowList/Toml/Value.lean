/-!
# Values of a TOML text

A TOML text is a table whose values are texts, numbers, truth values, moments
in time, lists and further tables. A number is kept as exactly as it is written,
however large it is; a moment is kept as a text, since nothing is computed with
it.

How a table came about decides what may still be added to it, so every table
keeps its origin.
-/

namespace AllowList

/-- How a table came about. -/
inductive Toml.Origin where
  /-- It has a header of its own. -/
  | header
  /-- A longer header leads through it. -/
  | implied
  /-- A dotted key leads through it. -/
  | dotted
  /-- It is written between braces. -/
  | inline
  deriving DecidableEq, Repr, Inhabited

/-- A number with a point or a power of ten. -/
inductive Toml.Real where
  /-- It is infinite or no number at all, and is written as such. -/
  | special
  /-- Its digits stand for a whole number, multiplied by a power of ten. -/
  | decimal (negative : Bool) (digits : Nat) (power : Int)
  deriving DecidableEq, Repr, Inhabited

/-- A value of a TOML text. -/
inductive Toml where
  | text (text : String)
  | integer (value : Int)
  | real (value : Toml.Real)
  | truth (b : Bool)
  | moment (written : String)
  | list (items : List Toml)
  | table (origin : Toml.Origin) (members : List (String × Toml))
  /-- A list of tables, each begun by a header of its own. -/
  | tables (entries : List (List (String × Toml)))
  deriving Repr, Inhabited

namespace Toml

/-- The values of a table by their keys. -/
abbrev Members := List (String × Toml)

/-- The value of a key. -/
def find? (key : String) (members : Members) : Option Toml :=
  (members.find? fun member => member.1 == key).map (·.2)

/-- Gives a key that is there another value. -/
def replace (key : String) (value : Toml) (members : Members) : Members :=
  members.map fun member => if member.1 == key then (key, value) else member

/-- Adds a key that is not there. -/
def add? (key : String) (value : Toml) (members : Members) : Option Members :=
  if (find? key members).isSome then none else some (members ++ [(key, value)])

end Toml

end AllowList
