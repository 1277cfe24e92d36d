import Strata.Batch.Basic
import Strata.Report.Screen

/-!
# Batches for readers

The outcome of a batch as plain text: one line for each file, and a summary.
-/

namespace Strata

/-- A file that was run over, on one line. -/
def Outcome.batchLine (o : Outcome) (path : String) : String :=
  "  " ++ padRight 6 (if o.hasErrors then "ERRORS" else "OK") ++ " " ++ path ++ " (" ++
    toString o.tally.total ++ " tokens, " ++ toString o.errorCount ++ " errors, " ++
    toString o.warningCount ++ " warnings)\n"

/-- A file that could not be run over, on one line. -/
def Failure.batchLine (f : Failure) (path : String) : String :=
  "  " ++ padRight 6 "FAILED" ++ " " ++ path ++ ": " ++ f.message ++ "\n"

/-- The files of a batch, first the ones that were run over. -/
def BatchOutcome.screen (b : BatchOutcome) : String :=
  "=== Batch Summary ===\n" ++
    String.join (b.succeeded.map fun (path, o) => o.batchLine path) ++
    String.join (b.failed.map fun (path, f) => f.batchLine path) ++ b.summary ++ "\n"

end Strata
