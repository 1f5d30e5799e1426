import AllowList.QName

/-!
# Policies

A policy says what a sanitizer lets through: a rule for each element that is
allowed, attributes allowed on every element, and attributes removed from
every element. A rule may allow and remove attributes of its own.

The lists keep the order in which entries were given and may hold repeats; a
policy without repeats is the business of normalization.
-/

namespace AllowList

/-- What a policy lets through besides elements and attributes. -/
structure Flags where
  /-- Comments are kept. -/
  comments : Bool := false
  /-- Custom data attributes are kept. -/
  dataAttributes : Bool := false
  deriving DecidableEq, Repr, Inhabited

/-- An allowed element with its own attributes. -/
structure ElementRule where
  /-- The element. -/
  name : QName
  /-- The attributes allowed on it. -/
  allowed : List QName := []
  /-- The attributes removed from it. -/
  removed : List QName := []
  deriving DecidableEq, Repr, Inhabited

/-- The rule with one more allowed attribute. -/
def ElementRule.allow (rule : ElementRule) (name : QName) : ElementRule :=
  { rule with allowed := rule.allowed ++ [name] }

/-- The rule with one more removed attribute. -/
def ElementRule.remove (rule : ElementRule) (name : QName) : ElementRule :=
  { rule with removed := rule.removed ++ [name] }

/-- An HTML element without attributes of its own, which a compact policy
writes as its bare name. -/
def ElementRule.isCompactable (rule : ElementRule) : Bool :=
  rule.name.space == some .html && rule.allowed.isEmpty && rule.removed.isEmpty

/-- An allow-list policy. -/
structure Policy where
  /-- The rules of the allowed elements. -/
  elements : List ElementRule := []
  /-- The attributes allowed on every element. -/
  globals : List QName := []
  /-- The attributes removed from every element. -/
  removed : List QName := []
  /-- What else is let through. -/
  flags : Flags := {}
  deriving DecidableEq, Repr, Inhabited

namespace Policy

/-- One policy's entries followed by another's; the first one's flags hold. -/
def append (first second : Policy) : Policy where
  elements := first.elements ++ second.elements
  globals := first.globals ++ second.globals
  removed := first.removed ++ second.removed
  flags := first.flags

/-- Changes the rule at a position; there may be none. -/
def changeRule? (policy : Policy) (index : Nat) (change : ElementRule → ElementRule) :
    Option Policy :=
  if index < policy.elements.length then
    some { policy with elements := policy.elements.modify index change }
  else none

end Policy

end AllowList
