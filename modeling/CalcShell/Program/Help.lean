import CalcShell.Program.Options

/-!
The help text, and what the program does before it needs a configuration or a terminal.
-/
namespace CalcShell

namespace Program

def name : Bytes := bytes "replview"

def help (program : Bytes) : Bytes :=
  bytes "Usage: " ++ program ++ bytes " [options]\n\n" ++
  bytes "Interactive calculator shell with completion, argument hints and\n" ++
  bytes "persistent history.\n\n" ++
  bytes "Options:\n" ++
  bytes "  -h, --help                 Show this help message\n" ++
  bytes "      --config <file>        Use a specific configuration file\n" ++
  bytes "                             (default: replview.yaml, created if missing)\n" ++
  bytes "      --history <file>       Read and write command history here\n" ++
  bytes "      --listen <port>        Accept lines to evaluate on 127.0.0.1:<port>\n" ++
  bytes "  -q, --quiet                Suppress informational messages\n\n"

/-- What a finished program leaves. -/
structure Result where
  code : Nat
  output : Bytes := []
  errors : Bytes := []
deriving DecidableEq, Repr

/-- Help anywhere on the command line comes before everything else. Otherwise the options are read; the
answer is the result of a program that ends here, or the options to go on with. -/
def start (env : Environment) (arguments : List Bytes) : Except Result Options :=
  let asksForHelp (argument : Bytes) : Bool := [bytes "-h", bytes "--help"].contains argument
  if (arguments.map Bytes.untilNul).any asksForHelp then .error { code := 0, output := help name }
  else
    match Options.parse env arguments with
    | (options, none) => .ok options
    | (_, some refusal) =>
      .error { code := 1, output := help name, errors := refusal.message }

end Program
end CalcShell
