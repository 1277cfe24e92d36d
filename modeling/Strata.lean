import Strata.Main
import Strata.Proofs.Embedding
import Strata.Proofs.Symbols
import Strata.Token.Segments
import Strata.Proofs.LiteralTokens
import Strata.Proofs.Comments
import Strata.Proofs.Kept
import Strata.Proofs.Quoted
import Strata.Proofs.Restripped
import Strata.Proofs.Lines
import Strata.Proofs.Outcome
import Strata.Proofs.Sessions
import Strata.Proofs.Batch
import Strata.Proofs.Replaced
import Strata.Proofs.Coverage
import Strata.Proofs.Faultless
import Strata.Proofs.Alternation
import Strata.Proofs.Decomposed
import Strata.Proofs.Declared
import Strata.Proofs.Flaws
import Strata.Proofs.Listed
import Strata.Proofs.Composed
import Strata.Proofs.Removed
import Strata.Proofs.Fields
import Strata.Proofs.CoveredRuns
import Strata.Proofs.Underline
import Strata.Proofs.Verdict
import Strata.Proofs.Reserved
import Strata.Proofs.Newest
import Strata.Proofs.FilesSeen
import Strata.Proofs.Collected
import Strata.Proofs.Tallied
import Strata.Proofs.Interleaved
import Strata.Proofs.QuoteRules
