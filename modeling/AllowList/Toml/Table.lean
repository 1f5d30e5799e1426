import AllowList.Toml.Value

/-!
# Building tables

A TOML text names the tables it fills by paths of keys. A path makes the tables
on its way that are not there yet, and what is there already must be such that
the path may lead on: a header never leads into a table between braces, and a
dotted key neither into one nor into a table with a header of its own. A table
that a longer header led through belongs to the dotted keys once one leads
through it, and gets no header of its own any more. A path that reaches a list of
tables leads into the latest of them.

Nothing is ever given twice: no key, and no header but that of a list.
-/

namespace AllowList.Toml

/-- What a path belongs to. -/
inductive Way where
  /-- A header. -/
  | header
  /-- The key of a value. -/
  | key
  deriving DecidableEq, Repr

/-- The origin of the tables that are made on the way. -/
def Way.origin : Way → Origin
  | header => .implied
  | key => .dotted

/-- The origin that a table of the given one has once a path leads through it, if
a path may. -/
def Way.through? : Way → Origin → Option Origin
  | _, .inline => none
  | header, origin => some origin
  | key, .header => none
  | key, .implied | key, .dotted => some .dotted

/-- Changes the members of the table that a path leads to, starting from the
members of a table of the given origin. -/
def changeAt (way : Way) (change : Origin → Members → Option Members) (origin : Origin)
    (members : Members) : List String → Option Members
  | [] => change origin members
  | key :: path =>
    match find? key members with
    | none =>
      (changeAt way change way.origin [] path).map fun inner =>
        members ++ [(key, table way.origin inner)]
    | some (table origin inner) =>
      match way.through? origin with
      | none => none
      | some origin =>
        (changeAt way change origin inner path).map fun inner =>
          replace key (table origin inner) members
    | some (tables entries) =>
      match entries.getLast? with
      | none => none
      | some latest =>
        (changeAt way change .header latest path).map fun latest =>
          replace key (tables (entries.dropLast ++ [latest])) members
    | some _ => none

/-- Gives a value to the last key of a path. A dotted key fills only tables that
belong to dotted keys, and a single key only others. -/
def assign (keys : List String) (value : Toml) (origin : Origin) (members : Members) :
    Option Members :=
  match keys.getLast? with
  | none => none
  | some key =>
    let path := keys.dropLast
    changeAt .key (fun origin members =>
      if (origin == .dotted) == path.isEmpty then none else add? key value members)
      origin members path

/-- Begins the table that a header names. A table that only a longer header led
through may still get a header of its own. -/
def beginTable (keys : List String) (members : Members) : Option Members :=
  match keys.getLast? with
  | none => none
  | some key =>
    changeAt .header (fun _ members =>
      match find? key members with
      | none => some (members ++ [(key, table .header [])])
      | some (table .implied inner) => some (replace key (table .header inner) members)
      | some _ => none) .header members keys.dropLast

/-- Begins a further table of the list that a header names. -/
def beginEntry (keys : List String) (members : Members) : Option Members :=
  match keys.getLast? with
  | none => none
  | some key =>
    changeAt .header (fun _ members =>
      match find? key members with
      | none => some (members ++ [(key, tables [[]])])
      | some (tables entries) => some (replace key (tables (entries ++ [[]])) members)
      | some _ => none) .header members keys.dropLast

/-- A text as far as it is read: the values of the whole, and the latest header,
which the next keys belong under. -/
structure Progress where
  members : Members := []
  header : List String := []

namespace Progress

/-- Reads the header of a table. -/
def takeHeader (progress : Progress) (keys : List String) : Option Progress :=
  (beginTable keys progress.members).map fun members => ⟨members, keys⟩

/-- Reads the header of a further table of a list. -/
def takeEntryHeader (progress : Progress) (keys : List String) : Option Progress :=
  (beginEntry keys progress.members).map fun members => ⟨members, keys⟩

/-- Reads a key and its value. -/
def takeValue (progress : Progress) (keys : List String) (value : Toml) : Option Progress :=
  (changeAt .header (assign keys value) .header progress.members progress.header).map
    fun members => { progress with members := members }

end Progress

end AllowList.Toml
