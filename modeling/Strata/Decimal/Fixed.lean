import Strata.Decimal.Binary

/-!
# Decimals with a fixed number of places

A quotient written with a given number of decimal places, rounded to the nearest such decimal.
-/

namespace Strata

/-- `num / den` with `places` decimal places. -/
def fixedRatio (places num den : Nat) : String :=
  let units := roundDiv (num * tenTo places) den
  let whole := toString (units / tenTo places)
  if places = 0 then
    whole
  else
    let part := toString (units % tenTo places)
    whole ++ "." ++ String.ofList (List.replicate (places - part.length) '0') ++ part

def Binary.fixed (places : Nat) (b : Binary) : String := fixedRatio places b.num b.den

end Strata
