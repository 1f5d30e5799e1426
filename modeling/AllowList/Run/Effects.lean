import AllowList.Compiler
import AllowList.Run.Surroundings
import AllowList.Settings.Reader

/-!
# What a run does

A run looks whether files are there, reads them, writes one, and tells of what it
does. How that is done is left open here: `Effects` are these actions in any monad,
so that the program, which acts on the system's files, and a run on files that are
described do the same things in the same order.

This module reads: the settings, bases and name lists that a command is given by
their paths.
-/

namespace AllowList

/-- The actions that a run is made of. -/
structure Effects (m : Type → Type) where
  /-- Looks whether a path leads to something. -/
  has : String → m Bool
  /-- Reads the text of the file that a path leads to. -/
  read : String → m (Except ReadFault String)
  /-- Writes a text to the file that a path leads to. The answer is whether that
  worked. -/
  write : String → String → m Bool
  /-- Tells a record. -/
  record : Log.Record → m Unit
  /-- The system's settings file, if it is known where that would be. -/
  system : Option SystemPath := none

namespace Effects

variable {m : Type → Type} [Monad m] (effects : Effects m)

/-- Does a piece of work, and tells its records. -/
def perform {α : Type} (work : Work α) : ExceptT Failure m α :=
  ExceptT.mk do
    work.run.records.forM effects.record
    return work.run.value

/-- Reads the file that a path leads to and tells of it. -/
def input (path : String) (shown : String := path) : ExceptT Failure m String := do
  let outcome ← effects.read path
  effects.perform do
    let text ← Work.ofExcept (.unreadable shown) outcome
    Work.tell .trace "Read input" [("path", Text.quoted shown), ("bytes", byteCount text)]
    pure text

/-- Reads a settings file, which must be there. -/
def settingsAt (path : String) (shown : String := path) : ExceptT Failure m Settings := do
  if ← effects.has path then
    let text ← effects.input path shown
    effects.perform do
      let settings ← Work.ofExcept .badConfig (Settings.read text)
      Work.tell .debug "Configuration loaded" [("config", settings.spelled)]
      pure settings
  else throw (.badConfig (.missing shown))

/-- The settings if no file of theirs is there. -/
def defaultSettings : ExceptT Failure m Settings :=
  effects.perform do
    Work.tell .debug "No configuration file found, using default configuration"
    pure {}

/-- The settings of the system's file, if that is there. -/
def systemSettings : ExceptT Failure m Settings := do
  match effects.system with
  | none =>
    effects.perform (Work.tell .debug "Could not determine platform-specific config directory")
    effects.defaultSettings
  | some system =>
    if ← effects.has system.path then
      effects.perform
        (Work.tell .info "Loading configuration from system path" [("path", system.shown)])
      effects.settingsAt system.path system.shown
    else
      effects.perform
        (Work.tell .debug "System configuration file not found" [("path", system.shown)])
      effects.defaultSettings

/-- The settings of a run, whose command line may name their file. -/
def settings : Option String → ExceptT Failure m Settings
  | some path => do
    effects.perform (Work.tell .info "Loading configuration from explicit path" [("path", path)])
    effects.settingsAt path
  | none => do
    if ← effects.has Surroundings.localPath then
      effects.perform (Work.tell .info "Loading configuration from local path"
        [("path", Surroundings.localPath)])
      effects.settingsAt Surroundings.localPath
    else effects.systemSettings

/-- Reads the base that a path leads to; without a path there is an empty one. -/
def base : Option String → ExceptT Failure m Json.Members
  | none => pure []
  | some path => do
    let text ← effects.input path
    effects.perform (Work.ofExcept id (readBase text))

/-- Reads the name list that a path leads to. -/
def nameList (path : String) : ExceptT Failure m NameList := do
  let text ← effects.input path
  effects.perform (NameList.loaded none text)

end Effects

end AllowList
