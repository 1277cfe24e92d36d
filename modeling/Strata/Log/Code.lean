/-!
# Codes

Everything that is reported has a code: `E` for an error, `W` for a warning, `I` for something that
went well. The register says what a code stands for, how grave it is, and what a reader can do.

* `codeRegister`: the known codes;
* `CodeInfo.of`: what is known about a code, with cautious defaults for an unknown one.
-/

namespace Strata

/-- How grave an event is. -/
inductive Gravity where
  | critical
  | high
  | medium
  | low
deriving DecidableEq, Repr

def Gravity.label : Gravity → String
  | critical => "Critical"
  | high => "High"
  | medium => "Medium"
  | low => "Low"

structure CodeInfo where
  code : String
  /-- The part of the program that uses the code. -/
  category : String
  gravity : Gravity
  /-- Whether work on other input can go on. -/
  recoverable : Bool
  /-- Whether work on the same input must stop. -/
  halts : Bool
  description : String
  /-- What a reader can do. -/
  action : String
deriving DecidableEq, Repr

def codeRegister : List CodeInfo := [
  ⟨"ERR001", "System", .critical, false, true,
    "Critical internal system error",
    "File a bug report with the input that triggered it"⟩,
  ⟨"ERR002", "System", .critical, false, true,
    "System initialization failure",
    "Check logging configuration and environment variables"⟩,
  ⟨"E005", "Source", .medium, false, true,
    "Source file not found at specified path",
    "Check the path and ensure the file exists"⟩,
  ⟨"E006", "Source", .low, true, false,
    "Source file extension is not in the allowed list",
    "Rename the file or adjust STAGELEX_ALLOWED_EXTENSIONS"⟩,
  ⟨"E007", "Source", .medium, false, true,
    "Source file exceeds maximum size limit",
    "Split the input or rebuild with a larger limit profile"⟩,
  ⟨"E008", "Source", .low, true, false,
    "Source file is empty",
    "Provide a file with content or allow empty input"⟩,
  ⟨"E009", "Source", .medium, false, true,
    "Permission denied reading source file",
    "Check file permissions and user access rights"⟩,
  ⟨"E010", "Source", .medium, false, true,
    "Source file is not valid UTF-8",
    "Convert the file to UTF-8"⟩,
  ⟨"E011", "Source", .medium, true, true,
    "I/O error while reading source",
    "Check disk and filesystem health, then retry"⟩,
  ⟨"E012", "Source", .medium, false, true,
    "Path is not a regular file",
    "Pass a file, or a directory for batch mode"⟩,
  ⟨"E013", "Source", .medium, false, true,
    "Source file exceeds maximum line count",
    "Split the input or rebuild with a larger limit profile"⟩,
  ⟨"E020", "Lexical", .high, true, false,
    "Character does not belong to any token class",
    "Remove the character or add it to the language profile"⟩,
  ⟨"E021", "Lexical", .high, true, false,
    "String or character literal is not closed",
    "Add the closing quote"⟩,
  ⟨"W022", "Lexical", .low, true, false,
    "Block comment runs to end of input",
    "Add the closing */"⟩,
  ⟨"W023", "Lexical", .low, true, false,
    "Empty character literal",
    "Put exactly one character between the quotes"⟩,
  ⟨"E030", "Profile", .high, false, true,
    "Language profile is not valid TOML",
    "Fix the profile file syntax"⟩,
  ⟨"E031", "Profile", .high, false, true,
    "Keyword is not identifier shaped",
    "Keywords must match [A-Za-z_][A-Za-z0-9_]*"⟩,
  ⟨"E032", "Profile", .high, false, true,
    "Empty operator or punctuator",
    "Remove the empty entry from the profile"⟩,
  ⟨"E033", "Profile", .high, false, true,
    "Symbol listed as both operator and punctuator",
    "Keep the symbol in exactly one list"⟩,
  ⟨"E034", "Profile", .high, false, true,
    "Profile extends an unknown base profile",
    "Use extends = \"cpp\" or remove the key"⟩,
  ⟨"E035", "Profile", .high, false, true,
    "Symbol starts with a word, number, quote or whitespace character",
    "Declare word-like symbols as keywords instead"⟩,
  ⟨"E040", "Pipeline", .medium, true, false,
    "Stage requested out of order",
    "Run stages in order, or restart from the raw stage"⟩,
  ⟨"E041", "Pipeline", .low, true, false,
    "Pipeline already reached its final stage",
    "Start a new pipeline context"⟩,
  ⟨"E050", "Batch", .medium, true, false,
    "No input files found",
    "Check the directory and allowed extensions"⟩,
  ⟨"E051", "Batch", .medium, false, true,
    "Too many files for one batch",
    "Split the batch or rebuild with a larger limit profile"⟩,
  ⟨"E052", "Batch", .medium, true, false,
    "Directory traversal failed",
    "Check directory permissions"⟩,
  ⟨"E053", "Batch", .high, false, true,
    "Worker thread panicked",
    "File a bug report with the input that triggered it"⟩,
  ⟨"I004", "System", .low, true, false,
    "Logging system initialized",
    "Continue processing"⟩,
  ⟨"I006", "Source", .low, true, false,
    "Source file acquired",
    "Continue to comment stripping"⟩,
  ⟨"I020", "Pipeline", .low, true, false,
    "Stage completed",
    "Continue to the next stage"⟩,
  ⟨"I030", "Pipeline", .low, true, false,
    "All stages completed",
    "Review tokens and diagnostics"⟩,
  ⟨"I031", "Profile", .low, true, false,
    "Language profile loaded",
    "Continue processing"⟩,
  ⟨"I050", "Batch", .low, true, false,
    "Batch processing completed",
    "Review the batch summary"⟩]

def CodeInfo.of? (code : String) : Option CodeInfo := codeRegister.find? (·.code = code)

/-- What is known about a code, or what holds of every other one. -/
def CodeInfo.of (code : String) : CodeInfo :=
  (CodeInfo.of? code).getD
    ⟨code, "Unknown", .medium, true, false, "Unknown error", "No specific action available"⟩

end Strata
