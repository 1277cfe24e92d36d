import Strata.Json.Basic
import Strata.Log.Level
import Strata.Settings.Limits
import Strata.Text.Blank

/-!
# Preferences

What a user can choose, by settings of the environment. A setting that is missing, or whose value
makes no sense, leaves the choice at its default.

* `Preferences.ofSettings`: the choices that some settings make;
* `IntakePreferences.accepts`: whether files with a given extension are read;
* `LogPreferences.summary`: the limits and choices for logging, for a reader.
-/

namespace Strata

/-- What can be set. -/
inductive Setting where
  | allowedExtensions
  | rejectEmpty
  | reportReading
  | profilePath
  | reportCounts
  | reportSteps
  | structuredLog
  | handOverLog
  | leastLogLevel
  | nameFile
deriving DecidableEq, Repr

namespace Setting

def all : List Setting :=
  [allowedExtensions, rejectEmpty, reportReading, profilePath, reportCounts, reportSteps,
    structuredLog, handOverLog, leastLogLevel, nameFile]

/-- The name of a setting in the environment. -/
def name : Setting → String
  | allowedExtensions => "STAGELEX_ALLOWED_EXTENSIONS"
  | rejectEmpty => "STAGELEX_REJECT_EMPTY_INPUT"
  | reportReading => "STAGELEX_ENABLE_PERFORMANCE_LOGGING"
  | profilePath => "STAGELEX_PROFILE"
  | reportCounts => "STAGELEX_DETAILED_METRICS"
  | reportSteps => "STAGELEX_LOG_STAGE_TRANSITIONS"
  | structuredLog => "STAGELEX_LOGGING_USE_STRUCTURED"
  | handOverLog => "STAGELEX_LOGGING_USE_FACADE"
  | leastLogLevel => "STAGELEX_LOGGING_MIN_LEVEL"
  | nameFile => "STAGELEX_LOGGING_INCLUDE_FILE_CONTEXT"

end Setting

/-- The values of the settings that are set. -/
abbrev Settings := Setting → Option String

def Settings.ofNames (values : List (String × String)) : Settings := fun setting =>
  List.lookup setting.name values

structure IntakePreferences where
  /-- The extensions of the files that are read. If there are none, every file is read. -/
  extensions : List String
  /-- Whether an empty file is refused. -/
  refusesEmpty : Bool
  /-- Whether each file read is reported with its size. -/
  reportsReading : Bool
deriving DecidableEq, Repr

structure RunPreferences where
  /-- The file that declares the profile. Without it, the profile is that of C++. -/
  profilePath : Option String
  /-- Whether the number of tokens of each kind is reported. -/
  reportsCounts : Bool
  /-- Whether each step between two layers is reported. -/
  reportsSteps : Bool
deriving DecidableEq, Repr

structure LogPreferences where
  /-- Whether events are written as JSON. -/
  structured : Bool
  /-- Whether events are handed to the logger of the host. -/
  handsOver : Bool
  threshold : Level
  /-- Whether events name the file that is being worked on. -/
  namesFile : Bool
deriving DecidableEq, Repr

structure Preferences where
  intake : IntakePreferences
  run : RunPreferences
  log : LogPreferences
deriving DecidableEq, Repr

/-- The truth value that a setting gives. -/
def Settings.flag (settings : Settings) (setting : Setting) (standard : Bool) : Bool :=
  match settings setting with
  | some "true" => true
  | some "false" => false
  | _ => standard

namespace IntakePreferences

/-- One extension of a list, without the blanks around it and the dots before it. -/
def trimExtension (part : String) : String :=
  String.ofList ((trimBlank part.toList).dropWhile (· = '.'))

/-- The extensions in a list with commas. -/
def extensionsOf (list : String) : List String :=
  ((list.splitOn ",").map trimExtension).filter (· ≠ "")

/-- Whether two extensions are the same but for the case of ASCII letters. -/
def sameExtension (a b : String) : Bool := a.toList.map Char.toLower = b.toList.map Char.toLower

/-- Whether files with an extension, or without one, are read. -/
def accepts (p : IntakePreferences) (extension : Option String) : Bool :=
  p.extensions.isEmpty || extension.any fun e => p.extensions.any (sameExtension e)

def ofSettings (settings : Settings) : IntakePreferences where
  extensions := ((settings .allowedExtensions).map extensionsOf).getD []
  refusesEmpty := settings.flag .rejectEmpty false
  reportsReading := settings.flag .reportReading true

def toJson (p : IntakePreferences) : Json := .object [
  ("allowed_extensions", .array (p.extensions.map .string)),
  ("reject_empty_input", .bool p.refusesEmpty),
  ("enable_performance_logging", .bool p.reportsReading)]

end IntakePreferences

namespace RunPreferences

def ofSettings (settings : Settings) : RunPreferences where
  profilePath := settings .profilePath
  reportsCounts := settings.flag .reportCounts true
  reportsSteps := settings.flag .reportSteps true

def toJson (p : RunPreferences) : Json := .object [
  ("profile_path", .ofString? p.profilePath),
  ("collect_detailed_metrics", .bool p.reportsCounts),
  ("log_stage_transitions", .bool p.reportsSteps)]

end RunPreferences

namespace LogPreferences

def ofSettings (settings : Settings) : LogPreferences where
  structured := settings.flag .structuredLog false
  handsOver := settings.flag .handOverLog false
  threshold := ((settings .leastLogLevel).bind Level.ofName?).getD .warning
  namesFile := settings.flag .nameFile true

def toJson (p : LogPreferences) : Json := .object [
  ("use_structured_logging", .bool p.structured),
  ("use_log_facade", .bool p.handsOver),
  ("min_log_level", .string p.threshold.configName),
  ("include_file_context", .bool p.namesFile)]

/-- The limits and choices for logging, one on a line. -/
def summary (p : LogPreferences) : String :=
  String.intercalate "\n" [
    "Logging Configuration:",
    "=== Limits (Compile-time) ===",
    "- Max events per file: " ++ toString Limits.events,
    "- Max message length: " ++ toString Limits.messageBytes,
    "=== Preferences (Runtime) ===",
    "- Min log level: " ++ p.threshold.label,
    "- Structured logging: " ++ toString p.structured,
    "- Log facade: " ++ toString p.handsOver,
    "- Include file context: " ++ toString p.namesFile]

end LogPreferences

namespace Preferences

def ofSettings (settings : Settings) : Preferences :=
  ⟨.ofSettings settings, .ofSettings settings, .ofSettings settings⟩

def toJson (p : Preferences) : Json := .object [
  ("source", p.intake.toJson), ("lexical", p.run.toJson), ("logging", p.log.toJson)]

end Preferences

end Strata
