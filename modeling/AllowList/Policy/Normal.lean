import AllowList.Policy.Basic

/-!
# Normal form of a policy

Normalization keeps what a policy means and drops what it says twice. The
records of one element become one rule, whose lists are the records' lists one
after another; repeats go; and an attribute allowed on every element is not
listed again under an element.

Entries keep the order in which they were first seen, or come in canonical
order when sorting is asked for.
-/

namespace AllowList

/-- How a policy is normalized and written. -/
structure Options where
  /-- Entries come in canonical order rather than as first seen. -/
  sorted : Bool := false
  /-- An entry that says no more than its name is written as the name alone. -/
  compact : Bool := false
  /-- An element's empty attribute list is left out when it is written. -/
  stripEmpty : Bool := false
  deriving DecidableEq, Repr, Inhabited

/-- A list of names without repeats: the first occurrences, in canonical order
when that is asked for. -/
def QName.distinct (sorted : Bool) (names : List QName) : List QName :=
  if sorted then QName.sort names.eraseDups else names.eraseDups

namespace Policy

/-- The attributes that the rules of an element allow, one rule after another. -/
def allowedOn (policy : Policy) (element : QName) : List QName :=
  policy.elements.flatMap fun rule => if rule.name = element then rule.allowed else []

/-- The attributes that the rules of an element remove, one rule after another. -/
def removedFrom (policy : Policy) (element : QName) : List QName :=
  policy.elements.flatMap fun rule => if rule.name = element then rule.removed else []

/-- The one rule that an element has in normal form, given the attributes that
are allowed on every element. -/
def mergedRule (policy : Policy) (sorted : Bool) (globals : List QName) (element : QName) :
    ElementRule where
  name := element
  allowed := (QName.distinct sorted (policy.allowedOn element)).filter (· ∉ globals)
  removed := QName.distinct sorted (policy.removedFrom element)

/-- The normal form of a policy. -/
def normalize (options : Options) (policy : Policy) : Policy :=
  let globals := QName.distinct options.sorted policy.globals
  { elements := (QName.distinct options.sorted (policy.elements.map (·.name))).map
      (policy.mergedRule options.sorted globals)
    globals := globals
    removed := QName.distinct options.sorted policy.removed
    flags := policy.flags }

end Policy

end AllowList
