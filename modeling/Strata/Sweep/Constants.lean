import Strata.Scan.Lexeme
import Strata.Sweep.Basic
import Strata.Text.SpanSet

/-!
# Finding constants

Every place of a text is tried against the rules for constants. A match that starts in the skip set
was accounted for elsewhere and is reported as unknown. Where no rule matches, a run of word
characters is stepped over whole, so that the `1F` of `x1F` is no number.
-/

namespace Strata

/-- The character ahead of a place, or the run of word characters that it starts. -/
def Place.passOver (here : Place) : Move :=
  match here.rest with
  | [] => .pass 0
  | c :: _ => .pass (if isIdentChar c then wordLen here.rest else c.utf8Size)

/-- Reports a constant, as unknown in `skip`; steps over words and other characters. -/
def constantStep (skip : SpanSet) (here : Place) : Move :=
  match matchConstant here with
  | some (rule, len) => .report (if skip.contains here.offset then .unknown else rule.kind) len
  | none => here.passOver

def tagConstants (text : Text) (skip : SpanSet) : Except Fault Sweep :=
  Sweep.ofScan text (constantStep skip)

end Strata
