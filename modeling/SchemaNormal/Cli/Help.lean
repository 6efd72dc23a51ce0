import SchemaNormal.Cli.Request

/-!
# Help

The pages of help and the version, as they are printed.
-/

namespace SchemaNormal.Cli

/-- Lines of text, each ended by a line break. -/
def lines (ls : List String) : String :=
  String.join (ls.map (· ++ "\n"))

def Page.text : Page → String
  | .program => lines [
      "Normalize protocol buffer schema ASTs for code generation",
      "",
      "Usage: proto-rewrite [OPTIONS] <COMMAND>",
      "",
      "Commands:",
      "  rewrite  Rewrite a schema file AST (JSON)",
      "  passes   List the available passes in default order",
      "  help     Print this message or the help of the given subcommand(s)",
      "",
      "Options:",
      "  -v, --verbose  Enable verbose logging (sets log level to debug)",
      "  -h, --help     Print help",
      "  -V, --version  Print version"]
  | .normalize => lines [
      "Rewrite a schema file AST (JSON)",
      "",
      "Usage: proto-rewrite rewrite [OPTIONS] <INPUT>",
      "",
      "Arguments:",
      "  <INPUT>  Input file AST",
      "",
      "Options:",
      "  -o, --output <OUTPUT>              Output rewritten file "
        ++ "(defaults to stdout if not specified)",
      "      --report <REPORT>              Output rewrite report file",
      "      --config <CONFIG>              Options file (kebab-case JSON); "
        ++ "command-line flags take precedence",
      "  -v, --verbose                      Enable verbose logging (sets log level to debug)",
      "      --pass <PASSES>                Pass to run; "
        ++ "repeat to run several in order (default: all)",
      "      --zero-name <ZERO_NAME>        Name of the constant inserted into enums "
        ++ "without a zero value",
      "      --digit-prefix <DIGIT_PREFIX>  Prefix for enum constants starting with a digit",
      "      --format <FORMAT>              Output format [default: pretty] "
        ++ "[possible values: pretty, compact]",
      "  -h, --help                         Print help"]
  | .listPasses => lines [
      "List the available passes in default order",
      "",
      "Usage: proto-rewrite passes [OPTIONS]",
      "",
      "Options:",
      "  -v, --verbose  Enable verbose logging (sets log level to debug)",
      "  -h, --help     Print help"]
  | .help => lines [
      "Print this message or the help of the given subcommand(s)",
      "",
      "Usage: proto-rewrite help [COMMAND]...",
      "",
      "Arguments:",
      "  [COMMAND]...  Print help for the subcommand(s)"]

def versionText : String :=
  "proto-rewrite 0.1.0\n"

end SchemaNormal.Cli
