/-!
# Rounding

Quotients rounded to the nearest integer or to the nearest number with 53 significant bits. A
quotient that lies in the middle goes to the even neighbour.

* `roundDiv`: the integer nearest to a quotient;
* `Binary.ofRatio`: the number with 53 bits nearest to a quotient;
* `Binary.add`, `Binary.mul`, `Binary.div`: exact results, rounded once.
-/

namespace Strata

/-- The integer nearest to `num / den`; of two, the even one. -/
def roundDiv (num den : Nat) : Nat :=
  let q := num / den
  let twice := 2 * (num % den)
  if den < twice ∨ (twice = den ∧ q % 2 = 1) then q + 1 else q

def twoTo (n : Nat) : Nat := Nat.pow 2 n

def tenTo (n : Nat) : Nat := Nat.pow 10 n

/-- The number `mantissa * 2 ^ exponent`. -/
structure Binary where
  mantissa : Nat
  exponent : Int
deriving DecidableEq, Repr

namespace Binary

def zero : Binary := ⟨0, 0⟩

/-- The numerator of a number written as a fraction. -/
def num (b : Binary) : Nat := b.mantissa * twoTo b.exponent.toNat

/-- The denominator of a number written as a fraction. -/
def den (b : Binary) : Nat := twoTo (-b.exponent).toNat

/-- The quotient `num / den` in units of `2 ^ exponent`, as a fraction. -/
def scaled (num den : Nat) (exponent : Int) : Nat × Nat :=
  (num * twoTo (-exponent).toNat, den * twoTo exponent.toNat)

/-- The number with at most 53 significant bits nearest to `num / den`. -/
def ofRatio (num den : Nat) : Binary :=
  if num = 0 then
    zero
  else
    let low : Int := (num.log2 : Int) - (den.log2 : Int) - 53
    let (n, d) := scaled num den low
    let exponent := if n / d < twoTo 53 then low else low + 1
    let (n, d) := scaled num den exponent
    ⟨roundDiv n d, exponent⟩

/-- The number with at most 53 significant bits nearest to `n`. -/
def ofNat (n : Nat) : Binary := ofRatio n 1

/-- The rounded sum. -/
def add (a b : Binary) : Binary := ofRatio (a.num * b.den + b.num * a.den) (a.den * b.den)

/-- The rounded product. -/
def mul (a b : Binary) : Binary := ofRatio (a.num * b.num) (a.den * b.den)

/-- The rounded quotient. -/
def div (a b : Binary) : Binary := ofRatio (a.num * b.den) (a.den * b.num)

end Binary

end Strata
