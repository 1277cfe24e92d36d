import Strata.Decimal.Duration
import Strata.Decimal.Fixed
import Strata.Log.Journal
import Strata.Run.Outcome
import Strata.Settings.Preferences

/-!
# What a run says

The notices of a run: each step between two layers, each diagnostic, and the number of tokens of
each kind. Steps and numbers are reported if the user wants it.

* `Outcome.notices`: everything that a run over a text says;
* `Outcome.finished`: what is said when a file has been run over.
-/

namespace Strata

/-- A step, reported as a success. -/
def Passage.notice (p : Passage) : Notice :=
  .success "I020" "Stage complete" [
    ("stage", p.layer.name),
    ("tokens", toString p.sweep.tokens.length),
    ("output_bytes", toString (byteLen p.sweep.text)),
    ("duration_us", toString (p.nanos / 1000))]

/-- A diagnostic as an error with its span, or as a warning. -/
def Diagnostic.notice (d : Diagnostic) : Notice :=
  let facts := [("line", toString d.line), ("column", toString d.column), ("stage", d.layer.name)]
  match d.flaw.severity with
  | .error => ⟨.error, d.flaw.code, d.flaw.message, some d.span, facts⟩
  | .warning => ⟨.warning, d.flaw.code, d.flaw.message, none, facts⟩

/-- The numbers of tokens, one notice for each kind that occurs. -/
def Tally.notices (t : Tally) : List Notice :=
  t.rows.map fun (kind, count) =>
    .debug "Token count" [("kind", kind.label), ("count", toString count)]

namespace Outcome

def notices (o : Outcome) (preferences : RunPreferences) : List Notice :=
  (if preferences.reportsSteps then o.passages.map (·.notice) else []) ++
    o.diagnostics.map (·.notice) ++
    (if preferences.reportsCounts then o.tally.notices else [])

/-- What is said when a file has been run over. -/
def finished (o : Outcome) : Notice :=
  .success "I030" "Lexical pipeline complete" [
    ("duration_ms", (millisOf o.nanos).fixed 3),
    ("file", o.path.getD "<memory>"),
    ("profile", o.profileName),
    ("tokens", toString o.tally.total),
    ("errors", toString o.errorCount),
    ("warnings", toString o.warningCount)]

end Outcome

end Strata
