import Strata.Scan.Lexeme
import Strata.Sweep.Basic
import Strata.Text.SpanSet

/-!
# Finding literals

Which parts of a text are closed string and char literals, found once and looked up by every later
sweep. Two char literals with `..` between them are a range of characters; the literals of ranges
are also kept apart, since they are no constants of their own.
-/

namespace Strata

structure Literals where
  /-- Every closed string and char literal. -/
  all : SpanSet
  /-- The char literals that are the ends of a range. -/
  ranges : SpanSet
deriving DecidableEq, Repr, Inhabited

/-- Reports a closed literal. An empty pair of single quotes is stepped over whole, any other
character by itself. -/
def literalStep (here : Place) : Move :=
  match here.rest, quotedLen? here.rest with
  | '"' :: _, some len => .report .string len
  | _, some len => .report .char len
  | '\'' :: '\'' :: _, none => .pass 2
  | c :: _, none => .pass c.utf8Size
  | [], none => .pass 0

/-- Whether a text is `..` with layout around it, as it stands between the ends of a range. -/
def isRangeSign (t : Text) : Bool :=
  match t.dropWhile isLayout with
  | '.' :: '.' :: tail => tail.all isLayout
  | _ => false

/-- Whether the pieces `low`, `sign`, `high` are a range of characters. -/
def isCharRange (low sign high : Piece) : Bool :=
  low.mark = .token .char && sign.mark = .filler && isRangeSign sign.text &&
    high.mark = .token .char

/-- The ends of the ranges among gathered pieces. A literal that ends one range does not start
another. -/
def rangeEnds : List Piece → List Span
  | low :: sign :: high :: rest =>
    if isCharRange low sign high then
      low.span :: high.span :: rangeEnds rest
    else
      rangeEnds (sign :: high :: rest)
  | _ => []

def Literals.ofText (text : Text) : Literals :=
  let pieces := scan literalStep (Place.start text)
  ⟨.ofSpans ((tokensOf pieces).map (·.span)), .ofSpans (rangeEnds (gather pieces))⟩

end Strata
