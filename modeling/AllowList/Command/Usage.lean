import AllowList.Command.Reader

/-!
# Help on the command line

What is shown to somebody who asks for help, and why a command line is refused.
-/

namespace AllowList.Command

/-- How the program is used. -/
def usage : List String :=
  ["Usage: sieve [OPTIONS] <COMMAND>",
   "",
   "Commands:",
   "  compile   Compile a source list into a policy",
   "  defaults  Write a default configuration from name lists",
   "  join      Join name lists into one text",
   "  help      Show this help",
   "",
   "Options of all commands:",
   "  -c, --config <PATH>       Read the settings from this file",
   "      --log-level <LEVEL>   off, error, warn, info, debug or trace [default: info]",
   "  -h, --help                Show this help",
   "  -V, --version             Show the version",
   "",
   "compile -i <INPUT> -o <OUT> [--base <PATH>] [--remove-list <PATH>] [--sorted]",
   "        [--compact] [--strip-empty] [--comments] [--data-attributes]",
   "defaults -o <OUT> [--base <PATH>] --elements <PATH> --attributes <PATH>",
   "join -o <OUT> [-w <WIDTH>] <LISTS>..."]

/-- What is said of a refusal. -/
def Refusal.lines : Refusal → List String
  | help => usage
  | version => ["sieve 0.1.0"]
  | nothing => usage
  | noCommand => ["error: no command is given"]
  | unknownCommand => ["error: there is no such command"]
  | unknownArgument => ["error: an argument is not expected"]
  | missingArgument => ["error: a required argument is missing"]
  | missingValue => ["error: an option has no value"]
  | badValue => ["error: the width is no number"]
  | repeated => ["error: an option is given twice"]
  | unneededValue => ["error: a switch takes no value"]

end AllowList.Command
