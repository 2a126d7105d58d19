import Mgol.CommandLine.Options
import Mgol.Compiler.Info

/-! # Help texts

* **`helpLines`** — what `--help` shows.
* **`usageLines`** — what is said about arguments that are wrong. -/

namespace Mgol

/-- The version of the compiler. -/
def version : String := "0.1.0"

/-- The name of the command. -/
def commandName : String := "mgolc"

/-- The short form of the command line. -/
def usageLine : String := "Usage: " ++ commandName ++ " <input.mgol> [options]"

/-- **What is said about arguments that are wrong.** -/
def usageLines (e : UsageError) : List String :=
  ["Error: " ++ e.message, usageLine, "       " ++ commandName ++ " --help"]

/-- **What `--help` shows.** -/
def helpLines : List String :=
  ["MGol Compiler v" ++ version,
   "Translates MGol programs into C",
   "",
   "USAGE:",
   "    " ++ commandName ++ " <input.mgol> [options]",
   "    " ++ commandName ++ " --export-tables <dir>",
   "",
   "OPTIONS:",
   "    -o, --output <file>       Write C code here (default: output.c)",
   "    --tokens                  Print every token before compiling",
   "    --symbols                 Print the symbol registry after compiling",
   "    --tables <dir>            Load decision tables from <dir>",
   "    --export-tables <dir>     Write the built-in decision tables to <dir>",
   "    --config <file>           Read runtime preferences from a TOML file",
   "    --diagnostics             Print logging system diagnostics at the end",
   "    -h, --help                Show this help message",
   "",
   "EXIT STATUS:",
   "    0  compiled without errors",
   "    1  errors were reported",
   "    2  invalid command line",
   ""]
    ++ CompilerInfo.mgol.lines.map ("    " ++ ·)

end Mgol
