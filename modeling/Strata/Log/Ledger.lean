import Strata.Files.Path
import Strata.Log.Event

/-!
# Ledgers of events by file

While many files are worked on, a ledger keeps the events of each. A file that has too many keeps
the first of them and one warning about the rest.

* `Ledger.record`: one more event of a file;
* `Ledger.enter`: work on a file has started;
* `Ledger.summary`: how many files, errors and warnings there are;
* `Ledger.render`: all errors and warnings, file by file.
-/

namespace Strata

/-- A table by path, in the order of the paths. Of two spellings of a path the first is kept. -/
abbrev PathTable (α : Type) := List (String × α)

namespace PathTable

variable {α : Type}

def get? (table : PathTable α) (path : String) : Option α :=
  (table.find? fun (p, _) => comparePaths p path = .eq).map (·.2)

/-- The table with the entry of a path set to what `f` makes of the one it had. -/
def update (path : String) (f : Option α → α) : PathTable α → PathTable α
  | [] => [(path, f none)]
  | (p, a) :: rest =>
    match comparePaths path p with
    | .lt => (path, f none) :: (p, a) :: rest
    | .eq => (p, f (some a)) :: rest
    | .gt => (p, a) :: update path f rest

end PathTable

/-- Events by file. -/
structure Ledger where
  events : PathTable (List Event)
  /-- The files that work was started on, with their numbers. -/
  entered : PathTable Nat
deriving DecidableEq, Repr

structure LedgerSummary where
  files : Nat
  filesWithErrors : Nat
  filesWithWarnings : Nat
  errors : Nat
  warnings : Nat
deriving DecidableEq, Repr

namespace Ledger

def empty : Ledger := ⟨[], []⟩

/-- The warning that stands for all events beyond the limit. -/
def overflow : Event :=
  .warning none ("Too many events for file (limit: " ++ toString Limits.events ++ ")")

def addEvent (events : List Event) (event : Event) : List Event :=
  if events.length < Limits.events then events ++ [event]
  else if events.length = Limits.events then events ++ [overflow]
  else events

def record (l : Ledger) (file : String) (event : Event) : Ledger :=
  { l with events := l.events.update file fun events => addEvent (events.getD []) event }

/-- Work on a file has started. -/
def enter (l : Ledger) (file : String) (id : Nat) : Ledger :=
  { l with entered := l.entered.update file fun _ => id }

def eventsOf (l : Ledger) (file : String) : List Event := (l.events.get? file).getD []

def errorsOf (l : Ledger) (file : String) : List Event := (l.eventsOf file).filter (·.isError)

/-- The number of all events. -/
def size (l : Ledger) : Nat := l.events.foldr (fun (_, events) n => events.length + n) 0

def summary (l : Ledger) : LedgerSummary :=
  let errors := l.events.map fun (_, events) => events.countP (·.isError)
  let warnings := l.events.map fun (_, events) => events.countP (·.isWarning)
  ⟨max l.entered.length l.events.length, errors.countP (0 < ·), warnings.countP (0 < ·),
    errors.foldr (· + ·) 0, warnings.foldr (· + ·) 0⟩

/-- The facts about an event that are shown by themselves. -/
def shownFacts (facts : Facts) : Facts :=
  facts.filter fun (k, _) => !(["file", "file_id", "line", "column"].contains k)

/-- An error or a warning of a file. -/
def renderEvent (file : String) (e : Event) : String :=
  let label := if e.isError then "error" else "warning"
  let location := match e.facts.get? "line", e.facts.get? "column" with
    | some line, some column => " --> " ++ file ++ ":" ++ line ++ ":" ++ column
    | _, _ => ""
  label ++ "[" ++ e.code ++ "]: " ++ e.message ++ location ++ "\n" ++
    String.join ((shownFacts e.facts).map fun (k, v) => "  = " ++ k ++ ": " ++ v ++ "\n") ++
    (if e.isError then "  = help: " ++ e.codeInfo.action ++ "\n" else "")

/-- The errors and warnings of a file, if it has any. -/
def renderFile (file : String) (events : List Event) : String :=
  match events.filter fun e => e.isError || e.isWarning with
  | [] => ""
  | shown =>
    "Checking " ++ file ++ "...\n" ++ String.join (shown.map (renderEvent file)) ++ "\n"

/-- All errors and warnings, file by file, and how many there are. -/
def render (l : Ledger) : String :=
  let s := l.summary
  String.join (l.events.map fun (file, events) => renderFile file events) ++
    (if 0 < s.errors then "Total errors: " ++ toString s.errors ++ "\n" else "") ++
    (if 0 < s.warnings then "Total warnings: " ++ toString s.warnings ++ "\n" else "")

end Ledger

end Strata
