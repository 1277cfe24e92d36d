import Strata.Text.CodeRange

/-!
# White space

The table of the code points with the property `White_Space`, and the removal of white space from
the ends of a string. The layout characters of source text are fewer: see `isLayout`.
-/

namespace Strata

/-- The code points with the property `White_Space`. -/
def blankRanges : CodeRanges :=
    [(0x9, 0xD), (0x20, 0x20), (0x85, 0x85), (0xA0, 0xA0), (0x1680, 0x1680), (0x2000, 0x200A),
    (0x2028, 0x2029), (0x202F, 0x202F), (0x205F, 0x205F), (0x3000, 0x3000)]

def isBlank (c : Char) : Bool := blankRanges.holds c

def trimBlank (t : List Char) : List Char :=
  ((t.dropWhile isBlank).reverse.dropWhile isBlank).reverse

end Strata
