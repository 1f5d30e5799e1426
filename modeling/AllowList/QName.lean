import AllowList.Namespace

/-!
# Qualified names

Elements and attributes are identified by a name together with a namespace, or
with none: a name without a namespace matches in any. Identity is exact, so
names that differ in case or in namespace are different names, and no namespace
is not the same as HTML's.

The canonical order puts names without a namespace first, then goes by the
namespace's URI, then by the name, both in byte order.
-/

namespace AllowList

/-- The identity of an element or an attribute. -/
structure QName where
  /-- The namespace, if the name is tied to one. -/
  space : Option Namespace
  /-- The local name. -/
  name : String
  deriving DecidableEq, Repr, Inhabited

namespace QName

/-- A name tied to no namespace. -/
def bare (name : String) : QName :=
  ⟨none, name⟩

/-- A name in a namespace. -/
def within (space : Namespace) (name : String) : QName :=
  ⟨some space, name⟩

/-- The name as it is shown, behind its namespace's tag. -/
def display (qname : QName) : String :=
  match qname.space with
  | none => qname.name
  | some space => space.tag ++ qname.name

/-- No namespace stands before any namespace. -/
def spaceOrder : Option Namespace → Option Namespace → Ordering
  | none, none => .eq
  | none, some _ => .lt
  | some _, none => .gt
  | some left, some right => left.order right

/-- The canonical order: by namespace, then by name. -/
def order (left right : QName) : Ordering :=
  (spaceOrder left.space right.space).then (Text.order left.name right.name)

/-- Whether the first name stands at or before the second. -/
def atOrBefore (left right : QName) : Bool :=
  (order left right).isLE

/-- Names in canonical order, with their repeats. -/
def sort (names : List QName) : List QName :=
  names.mergeSort atOrBefore

/-- The canonical order agrees with identity. -/
theorem order_eq_iff {left right : QName} : order left right = .eq ↔ left = right := by
  obtain ⟨leftSpace, leftName⟩ := left
  obtain ⟨rightSpace, rightName⟩ := right
  simp only [order, Ordering.then_eq_eq, Text.order_eq_iff, mk.injEq]
  refine and_congr_left fun _ => ?_
  cases leftSpace <;> cases rightSpace <;> simp [spaceOrder, Namespace.order_eq_iff]

end QName

end AllowList
