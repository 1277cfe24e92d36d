import Strata.Scan.Lexeme
import Strata.Sweep.Basic

/-!
# Removing comments

The first sweep removes the comments of a text, and then the layout that is left at its end. Inside
a closed literal nothing starts a comment. What is removed becomes tokens: the text left is the text
swept over without its tokens.
-/

namespace Strata

/-- Reports a comment; steps over a closed literal whole, and over all else by one character. -/
def commentStep (here : Place) : Move :=
  match commentLen? here.rest with
  | some len => .report .comment len
  | none => .pass ((quotedLen? here.rest).getD ((here.peek?.map Char.utf8Size).getD 0))

/-- A piece of filler without its trailing layout, and that layout as a token. -/
def Piece.cutLayout (p : Piece) : List Piece :=
  let kept := (p.text.reverse.dropWhile isLayout).reverse
  let cut := (p.text.reverse.takeWhile isLayout).reverse
  (if kept = [] then [] else [{ p with text := kept }]) ++
    (if cut = [] then [] else [⟨.token .whitespace, p.start + byteLen kept, cut⟩])

/-- Cuts the layout that ends the text of the filler among the pieces, which come last piece
first. -/
def cutTrailingLayout : List Piece → List Piece
  | [] => []
  | p :: older =>
    if p.mark = .filler then
      if p.text.all isLayout then
        p.cutLayout.reverse ++ cutTrailingLayout older
      else
        p.cutLayout.reverse ++ older
    else
      p :: cutTrailingLayout older

/-- The text without the tokens among its pieces, which come in order. -/
def Sweep.removing (inLen : Nat) (pieces : List Piece) : Sweep :=
  let kept := pieces.filter (·.token?.isNone)
  let text := kept.flatMap Piece.text
  let origin := kept.foldl (fun b p => b.copy p.start (byteLen p.text)) (OffsetMap.builder inLen)
  ⟨text, tokensOf pieces, origin.finish (byteLen text)⟩

/-- Removes the comments of a text and the layout at its end. -/
def stripComments (text : Text) : Sweep :=
  let pieces := gather (scan commentStep (Place.start text))
  Sweep.removing (byteLen text) (cutTrailingLayout pieces.reverse).reverse

end Strata
