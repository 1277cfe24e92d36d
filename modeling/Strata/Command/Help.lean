import Strata.Settings.Limits

/-!
# Help

What the command prints about itself.
-/

namespace Strata

def commandName : String := "stagelex"

def versionText : String := commandName ++ " 0.1.0\n"

def helpText : String :=
  String.join ([
    "Staged lexical analysis of C-family source text",
    "",
    "Usage: " ++ commandName ++ " [OPTIONS] <INPUT>",
    "",
    "Arguments:",
    "  <INPUT>  Source file, or a directory to process in batch mode",
    "",
    "Options:",
    "      --stage <STAGE>      Show only this stage (name, short alias or number 1-6)",
    "      --format <FORMAT>    [default: text] [possible values: text, json]",
    "      --profile <PROFILE>  Language profile TOML file, or the name of a built-in profile",
    "      --threads <THREADS>  Worker threads for batch mode [default: " ++
      toString Limits.workers ++ "]",
    "      --no-recursive       Don't search subdirectories in batch mode",
    "      --fail-fast          Stop a batch at the first file that fails to process",
    "  -q, --quiet              Only print errors",
    "  -v, --verbose...         More log output (-v info, -vv debug)",
    "  -h, --help               Print help",
    "  -V, --version            Print version"].map (· ++ "\n"))

end Strata
