import AllowList.Text.Bytes

/-!
# Namespaces

The six namespaces a name of an allow list may belong to. Each has a URI, by
which a policy refers to it, a tag, which is put before a name when it is
shown, and all but HTML's have a keyword, which qualifies an entry of a source
list. Some keywords qualify elements and the others qualify attributes.

Namespaces are ordered by their URIs, not in the order they are listed here.
-/

namespace AllowList

/-- A namespace of elements or attributes. -/
inductive Namespace where
  | html
  | svg
  | mathml
  | xlink
  | xml
  | xmlns
  deriving DecidableEq, Repr, Inhabited

namespace Namespace

/-- Every namespace, once. -/
def all : List Namespace :=
  [html, svg, mathml, xlink, xml, xmlns]

/-- The URI that identifies a namespace. -/
def uri : Namespace → String
  | html => "http://www.w3.org/1999/xhtml"
  | svg => "http://www.w3.org/2000/svg"
  | mathml => "http://www.w3.org/1998/Math/MathML"
  | xlink => "http://www.w3.org/1999/xlink"
  | xml => "http://www.w3.org/XML/1998/namespace"
  | xmlns => "http://www.w3.org/2000/xmlns/"

/-- What stands before a name of the namespace when the name is shown. -/
def tag : Namespace → String
  | html => ""
  | svg => "svg:"
  | mathml => "mathml:"
  | xlink => "xlink:"
  | xml => "xml:"
  | xmlns => "xmlns:"

/-- The word that qualifies an entry with the namespace; HTML has none. -/
def keyword? : Namespace → Option String
  | html => none
  | svg => some "svg"
  | mathml => some "math"
  | xlink => some "xlink"
  | xml => some "xml"
  | xmlns => some "xmlns"

/-- Whether an element can be qualified with the namespace. -/
def qualifiesElements : Namespace → Bool
  | svg | mathml => true
  | _ => false

/-- Whether an attribute can be qualified with the namespace. -/
def qualifiesAttributes : Namespace → Bool
  | xlink | xml | xmlns => true
  | _ => false

/-- The namespace with a given URI; the empty URI stands for HTML. -/
def ofUri? (text : String) : Option Namespace :=
  if text = "" then some html else all.find? fun space => space.uri == text

/-- The namespace with a given keyword. -/
def ofKeyword? (word : String) : Option Namespace :=
  all.find? fun space => space.keyword? == some word

/-- The namespace that a URI or a keyword names. -/
def ofText? (text : String) : Option Namespace :=
  (ofUri? text).or (ofKeyword? text)

/-- What is said of a text that names no namespace. -/
def unknownMessage (text : String) : String :=
  "unknown namespace `" ++ text ++ "`"

/-- The order of namespaces: that of their URIs. -/
def order (left right : Namespace) : Ordering :=
  Text.order left.uri right.uri

/-- A URI names its own namespace. -/
@[simp] theorem ofUri?_uri (space : Namespace) : ofUri? space.uri = some space := by
  cases space <;> rfl

/-- No two namespaces share a URI. -/
theorem uri_injective {left right : Namespace} (same : left.uri = right.uri) : left = right := by
  have found : ofUri? left.uri = ofUri? right.uri := by rw [same]
  simpa using found

/-- Namespaces are level only with themselves. -/
theorem order_eq_iff {left right : Namespace} : order left right = .eq ↔ left = right := by
  refine ⟨fun level => uri_injective (Text.order_eq_iff.mp level), fun same => ?_⟩
  exact Text.order_eq_iff.mpr (congrArg uri same)

end Namespace

end AllowList
