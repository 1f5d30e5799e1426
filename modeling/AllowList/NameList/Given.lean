import AllowList.Compiler

/-!
# Name lists as they are given

A name list comes either as text that is still to be read or as its names,
which are taken as they stand.
-/

namespace AllowList.NameList

/-- A name list as it is given. -/
inductive Given where
  /-- A text, and the namespace of its names unless the text says otherwise. -/
  | text (space : Option Namespace) (source : String)
  /-- The names themselves. -/
  | names (list : NameList)
  deriving DecidableEq, Repr

/-- The list that is given: only a text can fail to be one. -/
def Given.load : Given → Work NameList
  | text space source => NameList.loaded space source
  | names list => pure list

end AllowList.NameList
