import Strata.Log.Ledger

/-!
# Journals

A `MemoryLog` keeps the newest events, a `Logger` lets through to it what matters enough, and a
`Journal` is what a run writes to: a logger, a ledger, and the file that is being worked on. An
error or a warning about a file goes to the ledger too, whatever the logger lets through.

* `MemoryLog.push`: one more event, at the cost of the oldest one;
* `Journal.apply`: one entry of a journal.
-/

namespace Strata

/-- The newest events, the oldest of them first. -/
structure MemoryLog where
  events : List Event
deriving DecidableEq, Repr

namespace MemoryLog

def empty : MemoryLog := ⟨[]⟩

/-- One more event. If there are too many, the oldest go. -/
def push (log : MemoryLog) (event : Event) : MemoryLog :=
  ⟨log.events.drop (log.events.length + 1 - Limits.events) ++ [event]⟩

def errors (log : MemoryLog) : List Event := log.events.filter (·.isError)

/-- The events with a code that are kept. -/
def withCode (log : MemoryLog) (code : String) : List Event := log.events.filter (·.code = code)

def hasError (log : MemoryLog) (code : String) : Bool :=
  log.events.any fun e => e.isError && e.code = code

def hasSuccess (log : MemoryLog) (code : String) : Bool :=
  log.events.any fun e => e.level = .info && e.code = code

end MemoryLog

/-- A memory log behind a threshold. -/
structure Logger where
  threshold : Level
  log : MemoryLog
deriving DecidableEq, Repr

/-- Logs an event that matters enough. -/
def Logger.offer (l : Logger) (event : Event) : Logger :=
  if l.threshold.passes event.level then { l with log := l.log.push event } else l

/-- What a program says while it works: an event without the facts that the journal knows, and
with its other facts in any order. -/
structure Notice where
  level : Level
  code : String
  message : String
  span : Option Span
  facts : List (String × String)
deriving DecidableEq, Repr

namespace Notice

def error (code message : String) (facts : List (String × String)) : Notice :=
  ⟨.error, code, message, none, facts⟩

def warning (message : String) (facts : List (String × String)) : Notice :=
  ⟨.warning, "W000", message, none, facts⟩

def info (message : String) (facts : List (String × String)) : Notice :=
  ⟨.info, "I000", message, none, facts⟩

def success (code message : String) (facts : List (String × String)) : Notice :=
  ⟨.info, code, message, none, facts⟩

def debug (message : String) (facts : List (String × String)) : Notice :=
  ⟨.debug, "D000", message, none, facts⟩

end Notice

/-- Why logging cannot be set up: that has been done before. -/
inductive SetupError where
  /-- There is a logger. -/
  | loggerInPlace
  /-- The preferences have been given or asked for. -/
  | preferencesInPlace
deriving DecidableEq, Repr

def SetupError.message : SetupError → String
  | loggerInPlace => "Global logger already initialized"
  | preferencesInPlace => "Runtime logging preferences already initialized"

inductive Entry where
  /-- Work on a file starts. -/
  | enter (file : String) (number : Nat)
  /-- Work on the file ends. -/
  | leave
  /-- The ledger is emptied. -/
  | clear
  | note (notice : Notice)
  /-- An error for the logger alone, as it is. -/
  | plainError (code message : String)
deriving DecidableEq, Repr

/-- A result, and what was said on the way to it. -/
structure Told (α : Type) where
  said : List Entry
  result : α

/-- A result, with notices. -/
def Told.ofNotices {α : Type} (notices : List Notice) (result : α) : Told α :=
  ⟨notices.map .note, result⟩

/-- What a run has said so far. -/
structure Journal where
  logger : Logger
  ledger : Ledger
  /-- The file that is being worked on, and its number. -/
  current : Option (String × Nat)
  /-- Whether events name the file that is being worked on. -/
  namesFile : Bool
deriving DecidableEq, Repr

namespace Journal

def empty : Journal := ⟨⟨.debug, .empty⟩, .empty, none, true⟩

/-- What the journal knows about an event: the file that is being worked on. -/
def fileFacts (j : Journal) : List (String × String) :=
  match j.namesFile, j.current with
  | true, some (file, id) => [("file", file), ("file_id", toString id)]
  | _, _ => []

/-- The event that a notice is logged as. -/
def eventOf (j : Journal) (n : Notice) : Event :=
  ⟨n.level, n.code, clipMessage n.message, n.span,
    (Facts.insertAll [] n.facts).insertAll j.fileFacts⟩

/-- The ledger after an event. -/
def recorded (j : Journal) (event : Event) : Ledger :=
  match j.current with
  | some (file, _) =>
    if event.isError || event.isWarning then j.ledger.record file event else j.ledger
  | none => j.ledger

def apply (j : Journal) : Entry → Journal
  | .enter file id => { j with ledger := j.ledger.enter file id, current := some (file, id) }
  | .leave => { j with current := none }
  | .clear => { j with ledger := .empty }
  | .note notice =>
    let event := j.eventOf notice
    { j with ledger := j.recorded event, logger := j.logger.offer event }
  | .plainError code message => { j with logger := j.logger.offer (.error code message) }

def applyAll (j : Journal) (entries : List Entry) : Journal := entries.foldl apply j

/-- The events that more entries are logged as, whatever the logger lets through. -/
def eventsFrom (j : Journal) : List Entry → List Event
  | [] => []
  | entry :: entries =>
    let rest := (j.apply entry).eventsFrom entries
    match entry with
    | .note notice => j.eventOf notice :: rest
    | .plainError code message => .error code message :: rest
    | _ => rest

def ofEntries (entries : List Entry) : Journal := empty.applyAll entries

end Journal

end Strata
