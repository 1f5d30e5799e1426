import AllowList.Log.Spelled
import AllowList.Policy.Normal

/-!
# Settings

What a user may set once for all runs: how policies are normalized and written,
the flags they get, and how wide joined lists are.
-/

namespace AllowList

/-- The width of joined lists unless it is set. -/
def defaultWidth : Nat := 70

/-- The settings of a run. -/
structure Settings where
  options : Options := {}
  flags : Flags := {}
  width : Nat := defaultWidth
  deriving DecidableEq, Repr, Inhabited

namespace Settings

/-- The settings spelled out for a log record. -/
def spelled (settings : Settings) : String :=
  Log.spellParts "AppConfig"
    [("normalize", Log.spellParts "NormalizeOptions"
      [("sorted", Log.spellBool settings.options.sorted),
       ("compact_single_elements", Log.spellBool settings.options.compact),
       ("strip_empty_attribute_lists", Log.spellBool settings.options.stripEmpty)]),
     ("document", Log.spellFlags settings.flags),
     ("join", Log.spellParts "JoinConfig" [("width", toString settings.width)])]

end Settings

end AllowList
