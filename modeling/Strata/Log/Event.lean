import Strata.Json.Basic
import Strata.Log.Code
import Strata.Log.Level
import Strata.Settings.Limits
import Strata.Text.Span

/-!
# Events

An event is one thing that a log says: how much it matters, its code, a message, the span it is
about, and further facts by name.

* `Event.format`, `Event.formatDetailed`: an event for a reader, on one line or with all that the
  register knows about its code;
* `Event.formatJson`: an event for a program;
* `Event.line`: an event with its facts on one line.
-/

namespace Strata

/-- Facts by name, in ascending order of the names. -/
abbrev Facts := List (String × String)

/-- The facts with one more. A fact of the same name is replaced. -/
def Facts.insert (key value : String) : Facts → Facts
  | [] => [(key, value)]
  | (k, v) :: rest =>
    if key < k then (key, value) :: (k, v) :: rest
    else if key = k then (key, value) :: rest
    else (k, v) :: Facts.insert key value rest

/-- The facts with more facts, in the order in which they come. -/
def Facts.insertAll (facts : Facts) (more : List (String × String)) : Facts :=
  more.foldl (fun fs (k, v) => Facts.insert k v fs) facts

def Facts.get? (facts : Facts) (key : String) : Option String := List.lookup key facts

/-- One thing that a log says. -/
structure Event where
  level : Level
  code : String
  message : String
  /-- The bytes of the raw text that the event is about. -/
  span : Option Span
  facts : Facts
deriving DecidableEq, Repr, Inhabited

namespace Event

def error (code message : String) : Event := ⟨.error, code, message, none, []⟩

/-- A warning, with the common code unless it has its own. -/
def warning (code : Option String) (message : String) : Event :=
  ⟨.warning, code.getD "W000", message, none, []⟩

def info (message : String) : Event := ⟨.info, "I000", message, none, []⟩

/-- Something that went well: a piece of information with a code of its own. -/
def success (code message : String) : Event := ⟨.info, code, message, none, []⟩

def debug (message : String) : Event := ⟨.debug, "D000", message, none, []⟩

def isError (e : Event) : Bool := e.level = .error

def isWarning (e : Event) : Bool := e.level = .warning

/-- What the register knows about the code of an event. -/
def codeInfo (e : Event) : CodeInfo := CodeInfo.of e.code

/-- The span of an event, as a message ends with it. -/
def spanText (e : Event) : String := (e.span.map fun s => " at bytes " ++ s.render).getD ""

def format (e : Event) : String :=
  "[" ++ e.level.label ++ "] " ++ e.code ++ " - " ++ e.message ++ e.spanText

/-- An event with all that is known about it, on several lines. -/
def formatDetailed (e : Event) : String :=
  let info := e.codeInfo
  let errorLines :=
    if e.isError then
      "\n  Recoverable: " ++ toString info.recoverable ++
        "\n  Requires halt: " ++ toString info.halts
    else ""
  let knownLines :=
    if (CodeInfo.of? e.code).isSome then
      "\n  Description: " ++ info.description ++ "\n  Recommended action: " ++ info.action
    else ""
  let factLines :=
    if e.facts = [] then ""
    else "\n  Context:" ++ String.join (e.facts.map fun (k, v) => "\n    " ++ k ++ ": " ++ v)
  e.format ++ "\n  Category: " ++ info.category ++ "\n  Severity: " ++ info.gravity.label ++
    errorLines ++ knownLines ++ factLines

/-- An event as a JSON object on one line, with its members in ascending order. -/
def formatJson (e : Event) (timestamp : String) : String :=
  let info := e.codeInfo
  let facts :=
    if e.facts = [] then []
    else [("context", Json.object (e.facts.map fun (k, v) => (k, .string v)))]
  let errorInfo :=
    if e.isError then
      [("error_metadata", Json.object [
        ("description", .string info.description),
        ("recommended_action", .string info.action),
        ("recoverable", .bool info.recoverable),
        ("requires_halt", .bool info.halts)])]
    else []
  let span := match e.span with
    | some s => [("span", Json.object [("end", .nat s.stop), ("start", .nat s.start)])]
    | none => []
  (Json.object (
    [("category", .string info.category), ("code", .string e.code)] ++ facts ++ errorInfo ++
    [("level", .string e.level.label), ("message", .string e.message),
      ("severity", .string info.gravity.label)] ++ span ++
    [("timestamp", .string timestamp)])).compact

/-- An event with its facts on one line, as it is handed to another logger. -/
def line (e : Event) : String :=
  "[" ++ e.code ++ "] " ++ e.message ++ e.spanText ++
    String.join (e.facts.map fun (k, v) => " " ++ k ++ "=" ++ v)

end Event

/-- The longest beginning of a message that is not longer than `limit` bytes. -/
def clipText : Nat → Text → Text
  | _, [] => []
  | limit, c :: t => if c.utf8Size ≤ limit then c :: clipText (limit - c.utf8Size) t else []

/-- A message as it is logged: cut to the longest beginning within the limit. -/
def clipMessage (message : String) : String :=
  if message.utf8ByteSize ≤ Limits.messageBytes then message
  else String.ofList (clipText Limits.messageBytes message.toList)

end Strata
