/-!
# Log records

Work is told in records while it goes on, each at a level and with named
fields. `Logged` is a value together with the records that computing it gives
rise to, in the order they arise; two computations in sequence give the first
one's records and then the second one's.

Records are always kept; which of them are shown is decided afterwards, by
level.
-/

namespace AllowList

namespace Log

/-- The levels, from the gravest to the most talkative. -/
inductive Level where
  | error
  | warn
  | info
  | debug
  | trace
  deriving DecidableEq, Repr, Inhabited

/-- The place of a level, the gravest having the lowest. -/
def Level.rank : Level → Nat
  | error => 1
  | warn => 2
  | info => 3
  | debug => 4
  | trace => 5

/-- The word for a level. -/
def Level.word : Level → String
  | error => "ERROR"
  | warn => "WARN"
  | info => "INFO"
  | debug => "DEBUG"
  | trace => "TRACE"

/-- The level that a word in lower case names. -/
def Level.ofText? : String → Option Level
  | "error" => some error
  | "warn" => some warn
  | "info" => some info
  | "debug" => some debug
  | "trace" => some trace
  | _ => none

/-- One record: what is told, and the values told with it by name. -/
structure Record where
  level : Level
  message : String
  fields : List (String × String) := []
  deriving DecidableEq, Repr, Inhabited

/-- A record on one line: its level, what is told, and the values by name. -/
def Record.line (record : Record) : String :=
  " ".intercalate
    (record.level.word :: record.message ::
      record.fields.map fun field => field.1 ++ "=" ++ field.2)

/-- The threshold that a word names, in upper or lower case: a level, or none at
all. -/
def threshold? (word : String) : Option (Option Level) :=
  if word.toLower = "off" then some none else (Level.ofText? word.toLower).map some

/-- The records that are at least as grave as a threshold; without one, none. -/
def shown (threshold : Option Level) (records : List Record) : List Record :=
  match threshold with
  | none => []
  | some level => records.filter fun record => record.level.rank ≤ level.rank

end Log

/-- A value and the records told while it was computed. -/
structure Logged (α : Type) where
  /-- The records, in order. -/
  records : List Log.Record
  /-- The value. -/
  value : α

namespace Logged

instance : Monad Logged where
  pure value := ⟨[], value⟩
  bind first next :=
    let second := next first.value
    ⟨first.records ++ second.records, second.value⟩

/-- Tells one record. -/
def tell (level : Log.Level) (message : String) (fields : List (String × String) := []) :
    Logged Unit :=
  ⟨[⟨level, message, fields⟩], ()⟩

@[simp] theorem value_pure {α : Type} (value : α) : (pure value : Logged α).value = value := rfl

@[simp] theorem records_pure {α : Type} (value : α) : (pure value : Logged α).records = [] := rfl

@[simp] theorem value_bind {α β : Type} (first : Logged α) (next : α → Logged β) :
    (first >>= next).value = (next first.value).value := rfl

@[simp] theorem records_bind {α β : Type} (first : Logged α) (next : α → Logged β) :
    (first >>= next).records = first.records ++ (next first.value).records := rfl

end Logged

end AllowList
