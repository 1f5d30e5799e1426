import AllowList.Numeric.Binary64
import AllowList.Toml.Value

/-!
# Values that machine numbers hold

A TOML text may write numbers of any size. A whole number is held by 128 bits,
with a sign or without one; a number with a point or a power of ten is held by a
binary floating-point number unless it lies beyond the largest of them. A value
is held when all the numbers in it are.
-/

namespace AllowList.Toml

/-- Whether 128 bits hold a whole number. -/
def isHeldInteger (value : Int) : Bool :=
  -(Numeric.twoTo 127 : Int) ≤ value && value < Numeric.twoTo 128

/-- Whether a binary floating-point number is as near as can be to a number. -/
def Real.isHeld : Real → Bool
  | special => true
  | decimal negative digits power => (Numeric.Binary64.ofDecimal? negative digits power).isSome

mutual

/-- Whether all the numbers in a value are held. -/
def isHeld : Toml → Bool
  | integer value => isHeldInteger value
  | real value => value.isHeld
  | list items => areHeld items
  | table _ members => membersHeld members
  | tables entries => entriesHeld entries
  | text _ | truth _ | moment _ => true

/-- Whether all the numbers in the items of a list are held. -/
def areHeld : List Toml → Bool
  | [] => true
  | item :: items => isHeld item && areHeld items

/-- Whether all the numbers in the values of a table are held. -/
def membersHeld : Members → Bool
  | [] => true
  | (_, value) :: members => isHeld value && membersHeld members

/-- Whether all the numbers in the tables of a list are held. -/
def entriesHeld : List Members → Bool
  | [] => true
  | entry :: entries => membersHeld entry && entriesHeld entries

end

end AllowList.Toml
