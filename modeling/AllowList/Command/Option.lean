/-!
# Options of the command line

Which options there are, how each is spelled, whether it takes a value, and
where it may stand. The command line has a top level, in front of the name of
the command, and the level of the command behind it. The configuration and the
log level may be given at either.
-/

namespace AllowList.Command

/-- An option. -/
inductive Opt where
  | config
  | logLevel
  | input
  | out
  | base
  | removeList
  | elements
  | attributes
  | width
  | sorted
  | compact
  | stripEmpty
  | comments
  | dataAttributes
  | help
  | version
  deriving DecidableEq, Repr

/-- A level of the command line. -/
inductive Level where
  | top
  | compile
  | defaults
  | join
  deriving DecidableEq, Repr

namespace Opt

/-- The long spelling, which stands behind two dashes. -/
def long : Opt → String
  | config => "config"
  | logLevel => "log-level"
  | input => "input"
  | out => "out"
  | base => "base"
  | removeList => "remove-list"
  | elements => "elements"
  | attributes => "attributes"
  | width => "width"
  | sorted => "sorted"
  | compact => "compact"
  | stripEmpty => "strip-empty"
  | comments => "comments"
  | dataAttributes => "data-attributes"
  | help => "help"
  | version => "version"

/-- The letter that stands behind one dash, if the option has one. -/
def short? : Opt → Option Char
  | config => some 'c'
  | input => some 'i'
  | out => some 'o'
  | width => some 'w'
  | help => some 'h'
  | version => some 'V'
  | _ => none

/-- Whether the option takes a value; the others are switches. -/
def takesValue : Opt → Bool
  | config | logLevel | input | out | base | removeList | elements | attributes | width => true
  | sorted | compact | stripEmpty | comments | dataAttributes | help | version => false

end Opt

namespace Level

/-- The options that may stand at a level. -/
def options : Level → List Opt
  | top => [.config, .logLevel, .help, .version]
  | compile =>
    [.config, .logLevel, .input, .out, .base, .removeList, .sorted, .compact, .stripEmpty,
     .comments, .dataAttributes, .help]
  | defaults => [.config, .logLevel, .out, .base, .elements, .attributes, .help]
  | join => [.config, .logLevel, .out, .width, .help]

/-- The options that must be given at a level. -/
def required : Level → List Opt
  | top => []
  | compile => [.input, .out]
  | defaults => [.out, .elements, .attributes]
  | join => [.out]

/-- Whether arguments that belong to no option may stand at a level. -/
def takesLists (level : Level) : Bool :=
  level == join

/-- The option of a level with a long spelling. -/
def ofLong? (level : Level) (name : String) : Option Opt :=
  level.options.find? fun opt => opt.long == name

/-- The option of a level with a letter. -/
def ofShort? (level : Level) (letter : Char) : Option Opt :=
  level.options.find? fun opt => opt.short? == some letter

/-- The level of the command with a name. -/
def ofName? : String → Option Level
  | "compile" => some compile
  | "defaults" => some defaults
  | "join" => some join
  | _ => none

end Level

end AllowList.Command
