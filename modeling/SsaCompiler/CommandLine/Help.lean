import SsaCompiler.CommandLine.Arguments

/-!
# Help

The texts that the command line prints about itself.
-/

namespace SsaCompiler

namespace CommandLine

def versionText : String := "acorn 0.1.0"

def verboseText : String :=
  "More log output (-v info, -vv debug, -vvv trace); `ACORN_LOG` overrides"

namespace Command

def name : Command → String
  | check => "check"
  | build => "build"

def purpose : Command → String
  | check => "Check units for errors without writing anything"
  | build => "Lower units to textual IR"

def helpLines (command : Command) : List String :=
  [command.purpose, "", "Usage: acorn " ++ command.name ++ " [OPTIONS] <UNITS>...", "",
    "Arguments:", "  <UNITS>...  Unit files (JSON)", "", "Options:",
    "      --config <CONFIG>            Configuration file (default: ./Acorn.toml when present)",
    "      --module-name <MODULE_NAME>  Module name written to the IR header",
    "  -j, --jobs <JOBS>                Worker threads"] ++
  (match command with
    | check => []
    | build =>
      ["  -o, --output <OUTPUT>            Output file (default from Acorn.toml, else build/output.ll)"]) ++
  ["  -v, --verbose...                 " ++ verboseText,
    "  -h, --help                       Print help"]

end Command

def Topic.helpLines : Topic → List String
  | program =>
    ["Acorn compiler core", "", "Usage: acorn [OPTIONS] <COMMAND>", "", "Commands:",
      "  check  " ++ Command.check.purpose, "  build  " ++ Command.build.purpose,
      "  help   Print this message or the help of the given subcommand(s)", "", "Options:",
      "  -v, --verbose...  " ++ verboseText, "  -h, --help        Print help",
      "  -V, --version     Print version"]
  | command about => about.helpLines
  | help =>
    ["Print this message or the help of the given subcommand(s)", "",
      "Usage: acorn help [COMMAND]...", "", "Arguments:",
      "  [COMMAND]...  Print help for the subcommand(s)"]

end CommandLine

end SsaCompiler
