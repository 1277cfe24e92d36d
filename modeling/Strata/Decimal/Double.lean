import Strata.Decimal.Shortest

/-!
# Numbers of 64 bits

A decimal is read as the nearest number with 53 significant bits whose last bit is worth at least
`2 ^ -1074`. From `2 ^ 1024` on there are no such numbers, and a decimal is read as infinite.

* `Double.ofDecimal`: the number that a decimal is read as;
* `Double.render`: the shortest decimal that is read as a number, without an exponent.
-/

namespace Strata

/-- A number of 64 bits. -/
inductive Double where
  | finite (negative : Bool) (size : Binary)
  | infinite (negative : Bool)
  | undefined
deriving DecidableEq, Repr

namespace Binary

/-- The same number with a mantissa below `2 ^ 53`, for a mantissa that has been rounded up to
it. -/
def renormalize (b : Binary) : Binary :=
  if b.mantissa = twoTo 53 then ⟨twoTo 52, b.exponent + 1⟩ else b

/-- The number with at most 53 significant bits, none of them worth less than `2 ^ least`, that is
nearest to `num / den`. -/
def ofRatioFrom (least : Int) (num den : Nat) : Binary :=
  let b := ofRatio num den
  if b.exponent < least then
    let (n, d) := scaled num den least
    ⟨roundDiv n d, least⟩
  else
    b.renormalize

end Binary

namespace Double

/-- The number that a decimal is read as. Decimals far outside the range are told by the place of
their first digit. -/
def ofDecimal (negative : Bool) (d : Decimal) : Double :=
  let place : Int := (toString d.digits).length + d.exponent
  if d.digits = 0 ∨ place < -330 then
    .finite negative .zero
  else if 310 < place then
    .infinite negative
  else
    let b := Binary.ofRatioFrom (-1074) (d.digits * tenTo d.exponent.toNat)
      (tenTo (-d.exponent).toNat)
    if 972 ≤ b.exponent then .infinite negative else .finite negative b

/-- Every number of 64 bits has its digits in these places. -/
def plainStyle : DecimalStyle := ⟨400, 400⟩

/-- A number in decimal digits, with a point and without an exponent. -/
def render : Double → String
  | finite negative size => (if negative then "-" else "") ++ plainStyle.write size.shortest
  | infinite negative => if negative then "-inf" else "inf"
  | undefined => "NaN"

end Double

end Strata
