import Strata.Token.Basic

/-!
# Tokens and the gaps between them

A text with tokens in it is a sequence of segments: a token, or the text between two tokens. Where
the tokens are well formed, the segments put together are the text again.

* `segments`: the text and its tokens in one sequence;
* `reconstruct`: the segments put together;
* `wellFormed`: the tokens stand in order, do not overlap, are not empty, and say what the text says
  where they stand.
-/

namespace Strata

/-- A token, or the text between two tokens. -/
inductive Segment where
  | gap (text : Text)
  | token (token : Token)
deriving DecidableEq, Repr

def Segment.text : Segment → Text
  | gap t => t
  | token t => t.lexeme

/-- The segments of a text from offset `cursor` on. -/
def segmentsFrom (text : Text) (cursor : Nat) : List Token → Except Fault (List Segment)
  | [] =>
    if cursor < byteLen text then do
      let gap ← slice text ⟨cursor, byteLen text⟩
      return [.gap gap]
    else
      return []
  | t :: ts =>
    if cursor < t.span.start then do
      let gap ← slice text ⟨cursor, t.span.start⟩
      return .gap gap :: .token t :: (← segmentsFrom text t.span.stop ts)
    else do
      return .token t :: (← segmentsFrom text t.span.stop ts)

/-- A text as its tokens and the gaps around them. -/
def segments (text : Text) (tokens : List Token) : Except Fault (List Segment) :=
  segmentsFrom text 0 tokens

/-- The gaps and the lexemes put together. -/
def reconstruct (text : Text) (tokens : List Token) : Except Fault Text := do
  return (← segments text tokens).flatMap Segment.text

/-- Whether the tokens, from offset `cursor` on, stand in order and say what the text says. -/
def wellFormedFrom (text : Text) (cursor : Nat) : List Token → Bool
  | [] => true
  | t :: ts =>
    cursor ≤ t.span.start && !t.span.isEmpty &&
      (match slice text t.span with
        | .ok lexeme => lexeme == t.lexeme
        | .error _ => false) &&
      wellFormedFrom text t.span.stop ts

/-- Whether the tokens are in order, apart, non-empty, and say what the text says. -/
def wellFormed (text : Text) (tokens : List Token) : Bool := wellFormedFrom text 0 tokens

end Strata
