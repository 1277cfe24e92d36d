import Strata.Decimal.Fixed

/-!
# Sizes in bytes

A number of bytes as a reader wants to see it: in the largest unit of which there is at least one.
-/

namespace Strata

/-- Writes a number in the first of some units, or in a later one, each 1024 times the one before.
-/
def inUnits (size : Binary) (unit : String) : List String → String
  | [] => size.fixed 2 ++ " " ++ unit
  | larger :: units =>
    if 1024 * size.den ≤ size.num then
      inUnits ⟨size.mantissa, size.exponent - 10⟩ larger units
    else
      size.fixed 2 ++ " " ++ unit

/-- A number of bytes in bytes, or with two places in a larger unit. -/
def byteSize (bytes : Nat) : String :=
  if bytes < 1024 then
    toString bytes ++ " B"
  else
    inUnits ⟨(Binary.ofNat bytes).mantissa, (Binary.ofNat bytes).exponent - 10⟩ "KB" ["MB", "GB"]

end Strata
