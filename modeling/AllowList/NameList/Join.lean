import AllowList.Log.Basic
import AllowList.NameList.Basic
import AllowList.Text.Wrap

/-!
# Joined name lists

Several name lists are joined into one text: every name behind the tag of its
namespace, all of them in byte order with their repeats, separated by commas
and wrapped into lines.
-/

namespace AllowList.NameList

/-- The names of several lists, tagged and in byte order. -/
def joined (lists : List NameList) : List String :=
  (lists.flatMap tagged).mergeSort Text.atOrBefore

/-- Names as words of a list: a comma behind each but the last. -/
def listWords : List String → List (List Char)
  | [] => []
  | [last] => [last.toList]
  | name :: names => (name.toList ++ [',']) :: listWords names

/-- The joined lists as one text of the given width. -/
def joinedText (width : Nat) (lists : List NameList) : String :=
  String.ofList (Text.wrap width (listWords (joined lists)))

/-- Writes the joined lists and tells of it. -/
def writeJoined (width : Nat) (lists : List NameList) : Logged String := do
  Logged.tell .debug "Joining name lists"
    [("lists", toString lists.length), ("names", toString (joined lists).length),
     ("width", toString width)]
  pure (joinedText width lists)

end AllowList.NameList
