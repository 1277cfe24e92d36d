import Strata.Grammar.Character
import Strata.Sweep.Basic

/-!
# Condensing layout

The second sweep leaves one space between two runs of other characters, and no layout at the ends of
the text. Every run of layout becomes a token. A space that is left comes from the first byte of the
run that it stands for.
-/

namespace Strata

/-- Reports a run of layout; steps over a run of other characters. -/
def layoutStep (here : Place) : Move :=
  if here.peek?.any isLayout then
    .report .whitespace (byteLen (here.rest.takeWhile isLayout))
  else
    .pass (byteLen (here.rest.takeWhile (!isLayout ·)))

/-- What is left of a piece of a text of `inLen` bytes: a run of layout between two other runs
becomes a space. -/
def Piece.condensed (inLen : Nat) (p : Piece) : Text :=
  match p.token? with
  | none => p.text
  | some t => if 0 < t.span.start ∧ t.span.stop < inLen then [' '] else []

/-- Leaves one space between two runs of other characters, and no layout at the ends. -/
def condenseLayout (text : Text) : Sweep :=
  let inLen := byteLen text
  let pieces := scan layoutStep (Place.start text)
  let left := pieces.flatMap (Piece.condensed inLen)
  let origin :=
    pieces.foldl (fun b p => b.copy p.start (byteLen (p.condensed inLen))) (OffsetMap.builder inLen)
  ⟨left, tokensOf pieces, origin.finish (byteLen left)⟩

end Strata
