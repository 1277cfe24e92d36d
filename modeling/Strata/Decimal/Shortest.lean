import Strata.Decimal.Binary

/-!
# The shortest decimal that reads back

A number with 53 significant bits is written with the fewest digits from which it can be read
back. The numbers that are read as `b` lie between the middles to its two neighbours; the middles
belong to it if its mantissa is even. For one digit, two digits and so on, the decimals just below
and just above `b` are tried, and the first that lies in this range is taken, the nearer one of
two.

* `Binary.shortest`: the digits and the exponent of the shortest decimal;
* `DecimalStyle.write`: a decimal as digits, with or without an exponent.
-/

namespace Strata

/-- The number `digits * 10 ^ exponent`. -/
structure Decimal where
  digits : Nat
  exponent : Int
deriving DecidableEq, Repr

namespace Binary

/-- The fraction `num / den` compared with `digits * 10 ^ exponent`: whether it is no greater. -/
def ratioLe (num den : Nat) (d : Decimal) : Bool :=
  num * tenTo (-d.exponent).toNat ≤ d.digits * tenTo d.exponent.toNat * den

/-- Whether `digits * 10 ^ exponent` is no greater than the fraction `num / den`. -/
def leRatio (d : Decimal) (num den : Nat) : Bool :=
  d.digits * tenTo d.exponent.toNat * den ≤ num * tenTo (-d.exponent).toNat

/-- Whether a decimal is read as `b`. -/
def readsBack (b : Binary) (d : Decimal) : Bool :=
  -- in quarters of the last place
  let below := if b.mantissa = twoTo 52 then 1 else 2
  let unit : Binary := ⟨1, b.exponent - 2⟩
  let low := (4 * b.mantissa - below) * unit.num
  let high := (4 * b.mantissa + 2) * unit.num
  if b.mantissa % 2 = 0 then
    ratioLe low unit.den d && leRatio d high unit.den
  else
    !leRatio d low unit.den && !ratioLe high unit.den d

/-- The decimal of the form `digits * 10 ^ exponent` that is read as `b` and nearest to it. -/
def onGrid? (b : Binary) (exponent : Int) : Option Decimal :=
  let n := b.num * tenTo (-exponent).toNat
  let d := b.den * tenTo exponent.toNat
  let nearest := roundDiv n d
  let other := if nearest * d ≤ n then nearest + 1 else nearest - 1
  ([nearest, other].map fun digits => ⟨digits, exponent⟩).find? (b.readsBack ·)

/-- The largest exponent for which `10 ^ exponent` is no greater than `b`, or one more. -/
def decimalExponent (b : Binary) : Int :=
  let whole := b.num / b.den
  if 0 < whole then
    (toString whole).length - 1
  else
    -((toString (b.den / b.num)).length : Int)

/-- The first decimal that is read as `b` on finer and finer grids. -/
def shortestFrom (b : Binary) (exponent : Int) : Nat → Decimal
  | 0 => ⟨b.mantissa, 0⟩
  | more + 1 => (b.onGrid? exponent).getD (shortestFrom b (exponent - 1) more)

/-- The shortest decimal that is read as `b`. -/
def shortest (b : Binary) : Decimal :=
  if b.mantissa = 0 then ⟨0, 0⟩ else b.shortestFrom (b.decimalExponent + 1) 20

end Binary

/-- When a decimal is written without an exponent: the point may stand this many places behind the
first digit, or this many zeros before it. -/
structure DecimalStyle where
  maxWhole : Int
  maxZeros : Int

/-- JSON numbers have no exponent from a hundred-thousandth up to sixteen whole digits. -/
def jsonStyle : DecimalStyle := ⟨16, 4⟩

/-- A decimal in a style. A whole number ends in `.0`. -/
def DecimalStyle.write (style : DecimalStyle) (d : Decimal) : String :=
  let digits := (toString d.digits).toList
  let point : Int := digits.length + d.exponent
  let zeros (n : Int) : List Char := List.replicate n.toNat '0'
  String.ofList <|
    if d.digits = 0 then
      ['0', '.', '0']
    else if 0 ≤ d.exponent ∧ point ≤ style.maxWhole then
      digits ++ zeros d.exponent ++ ['.', '0']
    else if 0 < point ∧ point ≤ style.maxWhole then
      digits.take point.toNat ++ '.' :: digits.drop point.toNat
    else if -style.maxZeros ≤ point ∧ point ≤ 0 then
      ['0', '.'] ++ zeros (-point) ++ digits
    else
      let whole := digits.take 1
      let part := digits.drop 1
      whole ++ (if part = [] then [] else '.' :: part) ++ 'e' :: (toString (point - 1)).toList

def Binary.toJsonText (b : Binary) : String := jsonStyle.write b.shortest

end Strata
