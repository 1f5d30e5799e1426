import AllowList.Log.Basic
import AllowList.Log.Spelled
import AllowList.Source.Entry

/-!
# The policy that a source list drafts

The entries of a source list build up a policy from top to bottom. An element
opens its own rule and a section mark opens the global section; attributes go
to whichever was opened last. In front of the first of them there is nowhere to
put an attribute, so it is ignored, and a warning says so.

Every line is read even after a fault, so that all faults are told together;
the policy counts only if none of them is an error.
-/

namespace AllowList.Source

/-- Where an attribute belongs that is read next. -/
inductive Place where
  /-- Nowhere: no element and no section has been opened. -/
  | detached
  /-- To every element. -/
  | global
  /-- To the element whose rule has this position. -/
  | element (index : Nat)
  deriving DecidableEq, Repr

/-- Puts an entry into a policy. The answer is the policy and the place for
what comes next, or nothing if there is no place for the entry. -/
def place? (policy : Policy) (place : Place) : Entry → Option (Policy × Place)
  | .globalSection => some (policy, .global)
  | .element name =>
    some ({ policy with elements := policy.elements ++ [{ name := name }] },
      .element policy.elements.length)
  | .allow name =>
    match place with
    | .detached => none
    | .global => some ({ policy with globals := policy.globals ++ [name] }, place)
    | .element index => (policy.changeRule? index (·.allow name)).map (·, place)
  | .remove name =>
    match place with
    | .detached => none
    | .global => some ({ policy with removed := policy.removed ++ [name] }, place)
    | .element index => (policy.changeRule? index (·.remove name)).map (·, place)

/-- A source list read in part. -/
structure Draft where
  /-- The policy so far. -/
  policy : Policy
  /-- Where the next attribute belongs. -/
  place : Place := .detached
  /-- What was wrong so far, in the order of lines. -/
  issues : List Issue := []
  /-- What was told so far. -/
  records : List Log.Record := []
  deriving Repr

namespace Draft

/-- The draft before the first line. -/
def empty (flags : Flags) : Draft :=
  { policy := { flags := flags } }

/-- Keeps an issue; a warning is told at once, since it is forgotten when the
list is accepted. -/
def report (draft : Draft) (issue : Issue) : Draft :=
  let told := if issue.isError then [] else
    [⟨.warn, "Source list warning", [("diagnostic", issue.diagnostic.display)]⟩]
  { draft with issues := draft.issues ++ [issue], records := draft.records ++ told }

/-- Takes in the entry of a line. -/
def take (draft : Draft) (line : Line) (entry : Entry) : Draft :=
  let told : Log.Record := ⟨.trace, "Resolved entry",
    [("line", toString line.number), ("entry", Log.spellEntry entry)]⟩
  let draft := { draft with records := draft.records ++ [told] }
  match place? draft.policy draft.place entry with
  | some (policy, place) => { draft with policy := policy, place := place }
  | none =>
    match entry with
    | .allow name | .remove name => draft.report ⟨line.number, line.span, .detached name⟩
    | _ => draft

/-- Takes in one line. -/
def step (draft : Draft) (line : Line) : Draft :=
  match line.read with
  | .error cause => draft.report ⟨line.number, line.span, cause⟩
  | .ok none => draft
  | .ok (some entry) => draft.take line entry

/-- The draft of a whole source list. -/
def ofText (flags : Flags) (text : String) : Draft :=
  (Line.ofText text).foldl step (empty flags)

/-- The policy, unless some line has an error; then all that was wrong. -/
def finish (draft : Draft) : Except (List Issue) Policy :=
  if draft.issues.any Issue.isError then .error draft.issues else .ok draft.policy

end Draft

/-- Reads a source list into a policy that is not normalized. -/
def read (flags : Flags) (text : String) : Logged (Except (List Issue) Policy) := do
  Logged.tell .info "Parsing source list" [("bytes", toString text.utf8ByteSize)]
  let draft := Draft.ofText flags text
  let read ← (⟨draft.records, draft.finish⟩ : Logged _)
  match read with
  | .error issues => pure (.error issues)
  | .ok policy =>
    Logged.tell .debug "Source list built"
      [("elements", toString policy.elements.length),
       ("global_attributes", toString policy.globals.length)]
    pure (.ok policy)

end AllowList.Source
