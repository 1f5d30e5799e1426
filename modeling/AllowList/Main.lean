import AllowList.Command.Usage
import AllowList.Run.Artifact

/-!
# The program

The outer layer of the command line: the actions of a run on the system's files. A
file is first written beside its path and then moved there, so that a file it
replaces stays whole until the new one is.
-/

namespace AllowList.Program

/-- The fault that a failed reading amounts to. -/
def faultOf : IO.Error → ReadFault
  | .noFileOrDirectory .. => .notFound
  | .inappropriateType _ code _ => if code = 21 then .isDirectory else .notDirectory
  | error => .other (toString error)

/-- Reads the file that a path leads to. -/
def readPath (path : String) : IO (Except ReadFault String) := do
  if path.toList.any (·.toNat = 0) then return .error .nulInPath
  try
    let content ← IO.FS.readBinFile path
    return match String.fromUTF8? content with
      | some text => .ok text
      | none => .error .notText
  catch error => return .error (faultOf error)

/-- The system's settings file: in the user's directory for configuration. -/
def systemPath? : IO (Option SystemPath) := do
  let configured := (← IO.getEnv "XDG_CONFIG_HOME").filter (·.startsWith "/")
  let home := (← IO.getEnv "HOME").filter (·.startsWith "/")
  return (configured.or (home.map (· ++ "/.config"))).map fun directory =>
    { path := directory ++ "/sieve/config.toml" }

/-- Looks whether a path leads to something, which is told by reading it. -/
def hasPath (path : String) : IO Bool := do
  match ← readPath path with
  | .ok _ => return true
  | .error fault => return !fault.isAbsence

/-- Writes a text to the file that a path leads to; the answer is whether that
worked. -/
def writePath (path text : String) : IO Bool := do
  let draft := path ++ "." ++ toString (← IO.rand 0 999999999) ++ ".tmp"
  try
    IO.FS.writeFile draft text
    IO.FS.rename draft path
    return true
  catch _ =>
    try IO.FS.removeFile draft catch _ => pure ()
    return false

/-- The actions of a run. Records are shown as far as a threshold lets them through. -/
def effects (threshold : Option Log.Level) (system : Option SystemPath) : Effects IO where
  has := hasPath
  read := readPath
  write := writePath
  record record := (Log.shown threshold [record]).forM fun record => IO.eprintln record.line
  system := system

/-- Shows a failure. -/
def report (failure : Failure) : IO Unit :=
  failure.reports.forM fun report => report.lines.forM IO.eprintln

/-- Does what an invocation asks for and gives the exit code. -/
def run (invocation : Invocation) : IO UInt32 := do
  let threshold ← match Log.threshold? invocation.logLevel with
    | some threshold => pure threshold
    | none =>
      IO.eprintln ("Invalid log level: " ++ invocation.logLevel ++ ". Using 'warn' instead.")
      pure (some .warn)
  match ← ((effects threshold (← systemPath?)).run invocation).run with
  | .ok () => return 0
  | .error failure =>
    report failure
    return 1

/-- Reads the command line and runs it. -/
def start (args : List String) : IO UInt32 := do
  match Command.read args with
  | .ok invocation => run invocation
  | .error refusal =>
    let say : String → IO Unit := if refusal.exitCode = 0 then IO.println else IO.eprintln
    refusal.lines.forM say
    return refusal.exitCode.toUInt32

end AllowList.Program

/-- The program. -/
def main (args : List String) : IO UInt32 :=
  AllowList.Program.start args
