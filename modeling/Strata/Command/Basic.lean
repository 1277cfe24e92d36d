import Strata.Command.Arguments
import Strata.Command.Help
import Strata.Report.BatchScreen
import Strata.Report.Document

/-!
# The command

A command line is answered with an exit code and with what is written to the two outputs. The code
is 0 if all went well, 1 if a file could not be run over or a text has errors, and 2 if the
command line is wrong.

* `answerCommand`: the answer to a command line;
* `Options.threshold`: how much is logged.
-/

namespace Strata

structure Reply where
  exitCode : Nat
  output : String
  /-- What is written for the user beside the output. -/
  messages : String
  /-- What was said on the way. -/
  said : List Entry

/-- The least important level that is logged. -/
def Options.threshold (o : Options) : Level :=
  if o.quiet then .error
  else match o.verbosity with
    | 0 => .warning
    | 1 => .info
    | _ => .debug

/-- The surroundings of a command: the disk, the settings, and the stamps of its reports. -/
structure Surroundings where
  disk : Disk
  settings : Settings
  stamp : Nat → Stamp

namespace Reply

/-- An exit code for whether something went wrong. -/
def codeOf (failed : Bool) : Nat := if failed then 1 else 0

/-- The answer where a text cannot be addressed as its tokens say. -/
def ofFault (said : List Entry) (fault : Fault) : Reply :=
  ⟨101, "", (RunError.fault fault).message ++ "\n", said⟩

/-- A report, or why there is none. -/
def ofReport (failed : Bool) (said : List Entry) (report : Except Fault String) : Reply :=
  match report with
  | .ok output => ⟨codeOf failed, output, "", said⟩
  | .error fault => ofFault said fault

/-- The message for an error that ended the work. -/
def errorLine (code message : String) : String := "error[" ++ code ++ "]: " ++ message ++ "\n"

end Reply

def answerFile (s : Surroundings) (o : Options) (profile : Profile) : Reply :=
  let told := runFileAs 0 s.disk (.ofSettings s.settings) profile o.input
  match told.result with
  | .error e =>
    ⟨1, "", Reply.errorLine e.code e.message ++ "  --> " ++ o.input ++ "\n", told.said⟩
  | .ok outcome =>
    .ofReport outcome.hasErrors told.said <|
      match o.form with
      | .text => outcome.screen o.only
      | .json => (outcome.report (s.stamp 0) o.only).map (·.pretty ++ "\n")

/-- The reports of a batch as one document. -/
def BatchOutcome.report (b : BatchOutcome) (stamp : Nat → Stamp) (only : Option Layer) :
    Except Fault Json := do
  let reports ← b.succeeded.zipIdx.mapM fun ((_, outcome), i) => outcome.report (stamp i) only
  return .array reports

/-- What the journal of a batch says to the user. -/
def ledgerMessage (o : Options) (said : List Entry) : String :=
  let text := (Journal.ofEntries said).ledger.render
  if o.quiet ∨ text = "" then "" else "\n" ++ text ++ "\n"

def answerDirectory (s : Surroundings) (o : Options) (profile : Profile) : Reply :=
  let plan := { BatchPlan.standard o.workers with recursive := o.recursive, failFast := o.failFast }
  let told := runDirectory s.disk (.ofSettings s.settings) profile plan o.input
  match told.result with
  | .error e => ⟨1, "", Reply.errorLine e.code e.message, told.said⟩
  | .ok batch =>
    match o.form with
    | .text =>
      ⟨Reply.codeOf batch.hasFailures, batch.screen, ledgerMessage o told.said, told.said⟩
    | .json =>
      .ofReport batch.hasFailures told.said ((batch.report s.stamp o.only).map (·.pretty ++ "\n"))

def chosenProfile (disk : Disk) (choice : Option String) : Told (Except ProfileError Profile) :=
  match choice with
  | none => .ofNotices [] (.ok .cpp)
  | some name =>
    match Profile.builtin? name with
    | some profile => .ofNotices [] (.ok profile)
    | none =>
      let told := loadProfile disk name
      match told.result with
      | .ok _ => told
      | .error e =>
        let report := Notice.error e.code "Failed to load language profile"
          [("profile", name), ("error", e.message)]
        ⟨told.said ++ [.note report], told.result⟩

/-- The answer for a path that leads neither to a file nor to a directory. -/
def answerNothing (o : Options) : Reply :=
  ⟨1, "", "Error: input must be a source file or a directory\n  Path: " ++ o.input ++ "\n",
    [.note (.error "E005" "Input is neither a file nor a directory" [("input", o.input)])]⟩

def answerOptions (s : Surroundings) (o : Options) : Reply :=
  let start := Entry.note (.info (commandName ++ " starting")
    [("input", o.input), ("limits", Limits.origin)])
  let profile := chosenProfile s.disk o.profile
  let reply : Reply := match profile.result with
    | .error e => ⟨1, "", "Error: " ++ e.message ++ "\n", []⟩
    | .ok p =>
      if s.disk.isFile o.input then answerFile s o p
      else if s.disk.isDirectory o.input then answerDirectory s o p
      else answerNothing o
  { reply with said := start :: profile.said ++ reply.said }

/-- What is logged of what was said: one line for each event that matters enough. -/
def logLines (threshold : Level) (said : List Entry) : String :=
  let events := (Journal.empty.eventsFrom said).filter fun e => threshold.passes e.level
  String.join (events.map fun e =>
    "[" ++ e.level.label ++ " " ++ commandName ++ "] " ++ e.line ++ "\n")

def answerCommand (s : Surroundings) (arguments : List String) : Reply :=
  match Request.ofArguments arguments with
  | .error e => ⟨2, "", "error: " ++ e.message ++ "\n", []⟩
  | .ok .help => ⟨0, helpText, "", []⟩
  | .ok .version => ⟨0, versionText, "", []⟩
  | .ok (.run o) =>
    let reply := answerOptions s o
    { reply with messages := logLines o.threshold reply.said ++ reply.messages }

end Strata
