import Strata.Decimal.Shortest
import Strata.Json.Basic
import Strata.Report.Stamp
import Strata.Run.Notices

/-!
# Reports for programs

The outcome of a run as a JSON document: every step with its tokens and their places, the
diagnostics, and the numbers. What sets one report apart from another of the same run is given.

* `Outcome.report`: the report of a run;
* `Outcome.summaryJson`: the numbers of a run.
-/

namespace Strata

def Span.toJson (s : Span) : Json := .object [("start", .nat s.start), ("end", .nat s.stop)]

def Diagnostic.toJson (d : Diagnostic) : Json := .object [
  ("kind", .string d.flaw.label),
  ("severity", .string d.flaw.severity.label),
  ("code", .string d.flaw.code),
  ("message", .string d.flaw.message),
  ("stage", .string d.layer.name),
  ("span", d.span.toJson),
  ("line", .nat d.line),
  ("column", .nat d.column)]

def LayerSummary.toJson (s : LayerSummary) : Json := .object [
  ("stage", .string s.layer.name),
  ("tokens", .nat s.tokens),
  ("found", .nat s.found),
  ("output_len", .nat s.outputLen)]

def Tally.toJson (t : Tally) : Json := .object [
  ("counts", .object (t.rows.map fun (kind, count) => (kind.label, .nat count))),
  ("total_tokens", .nat t.total),
  ("longest_lexeme", .ofString? (t.longest.map String.ofList)),
  ("comment_bytes_removed", .nat t.commentBytes)]

namespace Passage

/-- A token of a step as JSON, with its place in the raw text. -/
def tokenJson (p : Passage) (index : LineIndex) (t : Token) : Except Fault Json := do
  let rawSpan := p.rawSpan t
  let position ← index.positionAt rawSpan.start
  return .object [
    ("kind", .string t.kind.label),
    ("lexeme", .string (String.ofList t.lexeme)),
    ("span", t.span.toJson),
    ("source_span", rawSpan.toJson),
    ("line", .nat position.line),
    ("column", .nat position.column)]

def toJson (p : Passage) (index : LineIndex) : Except Fault Json := do
  let tokens ← p.sweep.tokens.mapM (p.tokenJson index)
  return .object [
    ("stage", .string p.layer.name),
    ("title", .string p.layer.title),
    ("input", .string (String.ofList p.input)),
    ("output", .string (String.ofList p.sweep.text)),
    ("tokens", .array tokens),
    ("duration_us", .nat (p.nanos / 1000))]

end Passage

namespace Outcome

def summaryJson (o : Outcome) : Json := .object [
  ("stages", .array (o.summary.map (·.toJson))),
  ("total_tokens", .nat o.totalTokens),
  ("errors", .nat o.errorCount),
  ("warnings", .nat o.warningCount),
  ("duration_ms", .number (millisOf o.nanos).toJsonText)]

/-- The report of a run, with all of its steps or with one of them. -/
def report (o : Outcome) (stamp : Stamp) (only : Option Layer) : Except Fault Json := do
  let steps ← (o.shown only).mapM (·.toJson o.lineIndex)
  return .object [
    ("run_id", .string stamp.runId),
    ("generated_at", .string stamp.generatedAt),
    ("source_path", .ofString? o.path),
    ("profile", .string o.profileName),
    ("stages", .array steps),
    ("diagnostics", .array (o.diagnostics.map (·.toJson))),
    ("summary", o.summaryJson),
    ("metrics", o.tally.toJson)]

end Outcome

end Strata
