import Strata.Scan.Basic
import Strata.Text.OffsetMap

/-!
# Sweeps

A sweep goes over a text once. It finds tokens, and it leaves a text for the next sweep: the same
one, or one without some of the tokens. `Sweep.origin` says where each byte of the text left came
from.
-/

namespace Strata

structure Sweep where
  /-- The text for the next sweep. -/
  text : Text
  /-- The tokens, which stand in the text swept over. -/
  tokens : List Token
  /-- From the text left to the text swept over. -/
  origin : OffsetMap
deriving DecidableEq, Repr

namespace Sweep

/-- A sweep that finds tokens and leaves the text as it is. -/
def inPlace (text : Text) (tokens : List Token) : Sweep :=
  ⟨text, tokens, OffsetMap.identity (byteLen text)⟩

/-- The tokens that were classified. -/
def found (s : Sweep) : List Token := s.tokens.filter (·.kind ≠ .unknown)

/-- A sweep that leaves the text as it is, and whose scan must not be torn. -/
def ofScan (text : Text) (step : Place → Move) : Except Fault Sweep :=
  let pieces := scan step (Place.start text)
  match tornAt? pieces with
  | some target => .error (.offset target)
  | none => .ok (inPlace text (tokensOf pieces))

end Sweep

end Strata
