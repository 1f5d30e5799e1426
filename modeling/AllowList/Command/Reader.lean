import AllowList.Command.Invocation
import AllowList.Command.Option
import AllowList.Numeric.Decimal
import AllowList.Numeric.Power

/-!
# Reading the command line

The arguments are read from left to right. An option's value is the rest of its
own argument, or else the next argument, unless that looks like an option. A
value found in this way is only settled when the next thing is read or the level
ends: then it is refused if it is missing, if the option was given before at
the same level, or if it has not the form it should. So the first fault in the
order of settling is the one that is told, and the command's level is settled
before what was left open at the top level.
-/

namespace AllowList.Command

/-- Why no command is run. -/
inductive Refusal where
  /-- Help was asked for. -/
  | help
  /-- The version was asked for. -/
  | version
  /-- Nothing was asked for. -/
  | nothing
  /-- No command is named. -/
  | noCommand
  /-- Something else stands where a command should be named. -/
  | unknownCommand
  /-- An argument that nothing takes. -/
  | unknownArgument
  /-- Something that must be given is missing. -/
  | missingArgument
  /-- An option without its value. -/
  | missingValue
  /-- A width that is no number. -/
  | badValue
  /-- An option that is given twice. -/
  | repeated
  /-- A switch with a value. -/
  | unneededValue
  deriving DecidableEq, Repr

/-- The code that a refusal ends with: asking for help is no fault. -/
def Refusal.exitCode : Refusal → Nat
  | help | version => 0
  | _ => 2

/-- A number of 64 bits: digits, perhaps behind a plus sign. -/
def width? (text : String) : Option Nat :=
  let digits := match text.toList with
    | '+' :: digits => digits
    | digits => digits
  if digits.isEmpty || !digits.all Numeric.isDigit then none
  else
    let value := Numeric.valueOf digits
    if value < Numeric.wordCount then some value else none

/-- What was read last and is not settled. -/
inductive Pending where
  | nothing
  /-- An option that takes a value, and its value if that was read. -/
  | option (opt : Opt) (value : Option String)
  /-- Arguments that belong to no option. -/
  | lists (paths : List String)
  deriving DecidableEq, Repr

/-- What was read at a level. -/
structure Progress where
  /-- The options that are settled, in order, with their values. -/
  settled : List (Opt × String) := []
  /-- The arguments that belong to no option. -/
  lists : List String := []
  /-- What is not settled. -/
  pending : Pending := .nothing
  deriving DecidableEq, Repr

namespace Progress

/-- The value of an option, if it is settled. -/
def value? (progress : Progress) (opt : Opt) : Option String :=
  (progress.settled.find? fun given => given.1 == opt).map (·.2)

/-- Whether an option is settled. -/
def has (progress : Progress) (opt : Opt) : Bool :=
  (progress.value? opt).isSome

/-- Settles an option with its value. -/
def give (progress : Progress) (opt : Opt) (value : String) : Except Refusal Progress :=
  if progress.has opt then .error .repeated
  else if opt = .width ∧ (width? value).isNone then .error .badValue
  else .ok { progress with settled := progress.settled ++ [(opt, value)] }

/-- Settles what is pending. -/
def settle (progress : Progress) : Except Refusal Progress :=
  let clear := { progress with pending := .nothing }
  match progress.pending with
  | .nothing => .ok clear
  | .option _ none => .error .missingValue
  | .option opt (some value) => clear.give opt value
  | .lists paths => .ok { clear with lists := clear.lists ++ paths }

/-- Reads an option, with the value that its own argument holds. -/
def takeOption (progress : Progress) (opt : Opt) (value : Option String) :
    Except Refusal Progress := do
  let progress ← progress.settle
  if opt.takesValue then
    match value with
    | some value => progress.give opt value
    | none => return { progress with pending := .option opt none }
  else
    match opt with
    | .help => throw .help
    | .version => throw .version
    | switch => progress.give switch "true"

/-- Reads an argument behind two dashes. -/
def takeLong (progress : Progress) (level : Level) (name : String) (value : Option String) :
    Except Refusal Progress :=
  match level.ofLong? name with
  | none => .error .unknownArgument
  | some opt =>
    if !opt.takesValue && value.isSome then .error .unneededValue
    else progress.takeOption opt value

/-- Reads an argument behind one dash, letter by letter. What follows an option
that takes a value is its value, an equals sign in front of it apart. -/
def takeShort (level : Level) : List Char → Progress → Except Refusal Progress
  | [], progress => .ok progress
  | letter :: more, progress =>
    match level.ofShort? letter with
    | none => .error .unknownArgument
    | some opt =>
      if opt.takesValue then
        let value := match more with
          | [] => none
          | '=' :: value => some (String.ofList value)
          | value => some (String.ofList value)
        progress.takeOption opt value
      else
        match progress.takeOption opt none with
        | .error refusal => .error refusal
        | .ok progress => takeShort level more progress

/-- Reads an argument that belongs to no option. -/
def takePlain (progress : Progress) (level : Level) (arg : String) : Except Refusal Progress :=
  if level.takesLists then
    match progress.pending with
    | .lists paths => .ok { progress with pending := .lists (paths ++ [arg]) }
    | _ => progress.settle.map fun progress => { progress with pending := .lists [arg] }
  else .error .unknownArgument

end Progress

/-- How an argument looks. -/
inductive Look where
  /-- Two dashes: what follows belongs to no option. -/
  | endOfOptions
  /-- An option by its long spelling, and what stands behind an equals sign. -/
  | long (name : String) (value : Option String)
  /-- Options by their letters. -/
  | short (letters : List Char)
  /-- Anything else. -/
  | plain
  deriving DecidableEq, Repr

/-- How an argument looks. A dash alone is like any other word. -/
def Look.of (arg : String) : Look :=
  match arg.toList with
  | ['-', '-'] => .endOfOptions
  | '-' :: '-' :: spelled =>
    let name := String.ofList (spelled.takeWhile (· ≠ '='))
    match spelled.dropWhile (· ≠ '=') with
    | [] => .long name none
    | _ :: value => .long name (some (String.ofList value))
  | '-' :: letter :: letters => .short (letter :: letters)
  | _ => .plain

/-- Reads arguments of which none is an option. -/
def readPlain (level : Level) (progress : Progress) (args : List String) :
    Except Refusal Progress :=
  args.foldlM (fun progress arg => progress.takePlain level arg) progress

/-- Reads the level of a command. -/
def readLevel (level : Level) (progress : Progress) : List String → Except Refusal Progress
  | [] => .ok progress
  | arg :: args => do
    match Look.of arg with
    | .endOfOptions => readPlain level progress args
    | .long name value =>
      let progress ← progress.takeLong level name value
      readLevel level progress args
    | .short letters =>
      let progress ← progress.takeShort level letters
      readLevel level progress args
    | .plain =>
      match progress.pending with
      | .option opt none => readLevel level { progress with pending := .option opt (some arg) } args
      | _ =>
        let progress ← progress.takePlain level arg
        readLevel level progress args

/-- Reads a level to its end: everything is settled, and nothing is missing. -/
def finishLevel (level : Level) (args : List String) : Except Refusal Progress := do
  let read ← readLevel level {} args
  let progress ← read.settle
  if level.required.all progress.has && (!level.takesLists || !progress.lists.isEmpty) then
    return progress
  throw .missingArgument

/-- What is said to somebody who asks for help about commands: all of it must
name commands, and a command has none of its own. -/
def askedHelp (topics : List String) : Refusal :=
  match topics with
  | [] => .help
  | [topic] => if (Level.ofName? topic).isSome || topic == "help" then .help else .unknownCommand
  | _ => .unknownCommand

/-- Whether a word names a command, asking for help included. -/
def isCommandName (word : String) : Bool :=
  (Level.ofName? word).isSome || word == "help"

/-- Reads the top level up to the name of the command. The answer is what was
read, the command's level and the arguments behind its name. -/
def readTop (progress : Progress) : List String → Except Refusal (Progress × Level × List String)
  | [] => do
    let progress ← progress.settle
    throw (if progress.settled.isEmpty then .nothing else .noCommand)
  | arg :: args => do
    match Look.of arg with
    | .endOfOptions =>
      match args with
      | [] =>
        let progress ← progress.settle
        throw (if progress.settled.isEmpty then .nothing else .noCommand)
      | word :: _ => throw (if isCommandName word then .unknownArgument else .unknownCommand)
    | .long name value =>
      let progress ← progress.takeLong .top name value
      readTop progress args
    | .short letters =>
      let progress ← progress.takeShort .top letters
      readTop progress args
    | .plain =>
      match progress.pending with
      | .option opt none => readTop { progress with pending := .option opt (some arg) } args
      | _ =>
        match Level.ofName? arg with
        | some level => return (progress, level, args)
        | none => throw (if arg == "help" then askedHelp args else .unknownCommand)

/-- The command of a level, from what was read there. -/
def commandOf (level : Level) (progress : Progress) : Command :=
  let text opt := (progress.value? opt).getD ""
  match level with
  | .defaults => .defaults
      { out := text .out, base := progress.value? .base, elements := text .elements,
        attributes := text .attributes }
  | .join => .join
      { out := text .out, width := (progress.value? .width).bind width?, lists := progress.lists }
  | _ => .compile
      { input := text .input, out := text .out, base := progress.value? .base,
        removals := progress.value? .removeList
        options :=
          { sorted := progress.has .sorted, compact := progress.has .compact,
            stripEmpty := progress.has .stripEmpty }
        flags :=
          { comments := progress.has .comments,
            dataAttributes := progress.has .dataAttributes } }

/-- Reads a command line, the program's own name left out. What is given at the
command's level goes before what is given at the top. -/
def read (args : List String) : Except Refusal Invocation := do
  let (top, level, rest) ← readTop {} args
  let inner ← finishLevel level rest
  let outer ← top.settle
  let given opt := (inner.value? opt).or (outer.value? opt)
  return { command := commandOf level inner, config := given .config,
           logLevel := (given .logLevel).getD "info" }

end AllowList.Command
