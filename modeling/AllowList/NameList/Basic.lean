import AllowList.QName

/-!
# Name lists

A name list holds the names of one namespace, in the order they were listed
and with their repeats. Its names are shown behind the namespace's tag, so
that names from several lists can stand together.
-/

namespace AllowList

/-- Names of one namespace. -/
structure NameList where
  /-- The namespace of every name in the list. -/
  space : Namespace := .html
  /-- The names, as listed. -/
  names : List String := []
  deriving DecidableEq, Repr, Inhabited

namespace NameList

/-- The names of the list, each behind the tag of its namespace. -/
def tagged (list : NameList) : List String :=
  list.names.map (list.space.tag ++ ·)

/-- The attributes a removal list stands for: an HTML list names attributes
that are tied to no namespace. -/
def removals (list : NameList) : List QName :=
  match list.space with
  | .html => list.names.map QName.bare
  | space => list.names.map (QName.within space)

end NameList

end AllowList
