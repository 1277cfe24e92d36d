import Strata.Run.Progress
import Strata.Text.Lines

/-!
# Diagnostics

No sweep fails on what it finds: a comment that is never closed runs to the end, and what nothing
classifies becomes an unknown token. The diagnostics of a run are read off its steps afterwards, and
say where in the raw text something is wrong.

* `Diagnostic.ofPassages`: what is wrong, in the order of the raw text;
* `Diagnostic.excerpt`, `Diagnostic.excerpts`: with the lines that it is about.
-/

namespace Strata

inductive Flaw where
  /-- A block comment that runs to the end of the text. -/
  | unterminatedComment
  /-- Two single quotes with nothing between them. -/
  | emptyChar
  /-- A quote that opens no closed literal. -/
  | unterminatedLiteral (quote : Char)
  /-- Characters that nothing classifies. -/
  | unrecognized (text : Text)
deriving DecidableEq, Repr

inductive Severity where
  | error
  | warning
deriving DecidableEq, Repr

def Severity.label : Severity → String
  | error => "error"
  | warning => "warning"

namespace Flaw

def label : Flaw → String
  | unterminatedComment => "unterminated-comment"
  | emptyChar => "empty-char-literal"
  | unterminatedLiteral _ => "unterminated-literal"
  | unrecognized _ => "unrecognized-character"

def code : Flaw → String
  | unterminatedComment => "W022"
  | emptyChar => "W023"
  | unterminatedLiteral _ => "E021"
  | unrecognized _ => "E020"

def severity : Flaw → Severity
  | unterminatedComment | emptyChar => .warning
  | unterminatedLiteral _ | unrecognized _ => .error

def message : Flaw → String
  | unterminatedComment => "Unterminated block comment runs to the end of input"
  | emptyChar => "Empty character literal"
  | unterminatedLiteral quote =>
    "Unterminated " ++ (if quote = '"' then "string" else "character") ++ " literal"
  | unrecognized text => "Unrecognized character " ++ String.ofList (quoted text)

end Flaw

/-- A flaw at its place in the raw text. -/
structure Diagnostic where
  flaw : Flaw
  /-- The layer whose tokens show the flaw. -/
  layer : Layer
  /-- Where it is in the raw text. -/
  span : Span
  line : Nat
  column : Nat
deriving DecidableEq, Repr

namespace Diagnostic

/-- A flaw with the layer that shows it and its span in the raw text. -/
abbrev Sighting := Flaw × Layer × Span

/-- Whether a comment is a block comment that was never closed. -/
def isOpenComment : Text → Bool
  | '/' :: '*' :: body => !(['*', '/'].isSuffixOf body)
  | _ => false

/-- The comments that are never closed, at their opening. -/
def openComments (p : Passage) : List Sighting :=
  (p.sweep.tokens.filter fun t => t.kind = .comment && isOpenComment t.lexeme).map fun t =>
    (.unterminatedComment, p.layer, Span.ofLen (p.rawSpan t).start 2)

/-- The tokens for two single quotes with nothing between them. -/
def emptyChars (p : Passage) : List Token :=
  p.sweep.tokens.filter fun t => t.kind = .unknown && t.lexeme = ['\'', '\'']

/-- The flaw that an unknown token of the last layer is, unless it is a quote in one of the spans
`empties`. -/
def flawOfUnknown? (empties : List Span) (t : Token) : Option Flaw :=
  match t.lexeme with
  | ['"'] => quoteFlaw '"'
  | ['\''] => quoteFlaw '\''
  | text => some (.unrecognized text)
where
  quoteFlaw (quote : Char) : Option Flaw :=
    if empties.any (·.contains t.span.start) then none else some (.unterminatedLiteral quote)

/-- The flaws that the unknown tokens of the last layer show. -/
def unknowns (empties : List Span) (p : Passage) : List Sighting :=
  (p.sweep.tokens.filter (·.kind = .unknown)).filterMap fun t =>
    (flawOfUnknown? empties t).map fun flaw => (flaw, p.layer, p.rawSpan t)

/-- The flaws that the steps of a run show, layer by layer. -/
def sightings (passages : List Passage) : List Sighting :=
  let step? (layer : Layer) : Option Passage := passages.find? (·.layer = layer)
  let constants := (step? .constants).toList
  let empties := constants.flatMap fun p => (emptyChars p).map (·.span)
  (step? .uncommented).toList.flatMap openComments ++
    constants.flatMap (fun p =>
      (emptyChars p).map fun t => (.emptyChar, p.layer, p.rawSpan t)) ++
    (step? .symbols).toList.flatMap (unknowns empties)

/-- A sighting with its line and column. -/
def locate (index : LineIndex) : Sighting → Except Fault Diagnostic
  | (flaw, layer, span) => do
    let position ← index.positionAt span.start
    return ⟨flaw, layer, span, position.line, position.column⟩

/-- What is wrong with a text, in the order of the raw text. -/
def ofPassages (index : LineIndex) (passages : List Passage) : Except Fault (List Diagnostic) := do
  let diagnostics ← (sightings passages).mapM (locate index)
  return diagnostics.mergeSort fun a b => a.span.le b.span

def label (d : Diagnostic) : String := d.flaw.severity.label ++ "[" ++ d.flaw.code ++ "]"

def render (d : Diagnostic) : String :=
  d.label ++ " " ++ toString d.line ++ ":" ++ toString d.column ++ ": " ++ d.flaw.message

/-- A diagnostic with the line that it is about. -/
def excerpt (index : LineIndex) (d : Diagnostic) : Except Fault String :=
  index.excerpt d.span d.label d.flaw.message

def countOf (severity : Severity) (ds : List Diagnostic) : Nat :=
  ds.countP (·.flaw.severity = severity)

/-- All diagnostics with their lines, and how many there are. -/
def excerpts (index : LineIndex) (ds : List Diagnostic) : Except Fault String := do
  let parts ← ds.mapM fun d => do return (← d.excerpt index) ++ "\n"
  return String.join parts ++ toString (countOf .error ds) ++ " error(s), " ++
    toString (countOf .warning ds) ++ " warning(s)\n"

end Diagnostic

end Strata
