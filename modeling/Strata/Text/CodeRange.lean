/-!
# Sets of characters given by ranges

A property of characters that has no shorter rule is a list of ranges of code points.
-/

namespace Strata

/-- Ranges of code points, each with its first and last member, in ascending order. -/
abbrev CodeRanges := List (Nat × Nat)

/-- Whether one of the ranges holds the character. -/
def CodeRanges.holds (ranges : CodeRanges) (c : Char) : Bool :=
  ranges.any fun (first, last) => first ≤ c.toNat && c.toNat ≤ last

end Strata
