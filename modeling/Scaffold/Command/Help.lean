/-!
# Help texts

What the command line prints about itself.
-/
namespace Scaffold

inductive Topic
  | overview
  | emit
  | help
  deriving DecidableEq, Repr

namespace Topic

def overviewText : String :=
"Translate a small C subset into Java or Python skeleton code

Usage: skelc [OPTIONS] [FILE] [COMMAND]

Commands:
  emit  Translate a C file into a skeleton
  help  Print this message or the help of the given subcommand(s)

Arguments:
  [FILE]  File to summarize (default action when no subcommand given)

Options:
      --lex <FILE>    Tokenize only (debug)
      --parse <FILE>  Parse only (debug)
      --json          Dump --lex / --parse output as JSON
  -h, --help          Print help
  -V, --version       Print version
"

def emitText : String :=
"Translate a C file into a skeleton

Usage: skelc emit [OPTIONS] --target <TARGET> [FILE]

Arguments:
  [FILE]  Source file to translate

Options:
  -c, --command <CODE>     Translate inline source code
  -t, --target <TARGET>    Output language (java or python)
  -o, --output <OUT>       Write the skeleton to a file instead of stdout
      --indent <N>         Spaces per indentation level (0-16)
      --class-name <NAME>  Class wrapping Java output (default: Main)
  -h, --help               Print help
"

def helpText : String :=
"Print this message or the help of the given subcommand(s)

Usage: skelc help [COMMAND]...

Arguments:
  [COMMAND]...  Print help for the subcommand(s)
"

def text : Topic → String
  | overview => overviewText
  | emit => emitText
  | help => helpText

/-- The topic that a list of subcommand names leads to, or the first name that leads nowhere. -/
def ofNames : List String → Except String Topic
  | [] => .ok overview
  | "emit" :: [] => .ok emit
  | "help" :: [] => .ok help
  | "emit" :: name :: _ => .error name
  | "help" :: name :: _ => .error name
  | name :: _ => .error name

end Topic

def versionText : String := "skelc 0.1.0\n"

end Scaffold
