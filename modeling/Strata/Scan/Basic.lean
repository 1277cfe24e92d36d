import Strata.Text.Place
import Strata.Token.Basic

/-!
# Scanning a text into pieces

A scan goes through a text once, from left to right. At each place a *step* decides on a move: how
many bytes to take, and whether they are a token. The moves cut the text into pieces, and nothing
is lost: the pieces put together are the text.

* `scan`: the pieces that a step cuts a text into;
* `flatMap_text_scan`: they put together are the text;
* `gather`: the same pieces with neighbouring filler put together.

A move that takes nothing, or that ends inside a character or beyond the text, cannot be made. The
scan then stops with a *torn* piece, which holds what is left of the text; `tornAt?` finds it.
-/

namespace Strata

/-- What to do at a place: take `len` bytes, as a token of the given kind or as filler. -/
structure Move where
  kind : Option Kind
  len : Nat
deriving DecidableEq, Repr

/-- Takes `len` bytes as a token. -/
def Move.report (kind : Kind) (len : Nat) : Move := ⟨some kind, len⟩

/-- Steps over `len` bytes. -/
def Move.pass (len : Nat) : Move := ⟨none, len⟩

/-- What a piece of a text is. -/
inductive Mark where
  | filler
  | token (kind : Kind)
  /-- The rest of a text whose scan was to go on at an offset where no character starts. -/
  | torn (target : Nat)
deriving DecidableEq, Repr

/-- A part of a text. -/
structure Piece where
  mark : Mark
  /-- The offset of the piece in the text. -/
  start : Nat
  text : Text
deriving DecidableEq, Repr

namespace Piece

def span (p : Piece) : Span := Span.ofLen p.start (byteLen p.text)

/-- The token that a piece is, if it is one. -/
def token? (p : Piece) : Option Token :=
  match p.mark with
  | .token kind => some ⟨kind, p.text, p.span⟩
  | _ => none

/-- Where the scan was to go on, for a torn piece. -/
def target? (p : Piece) : Option Nat :=
  match p.mark with
  | .torn target => some target
  | _ => none

end Piece

/-- The pieces that the moves of `step` cut the text from `here` on into. -/
def scan (step : Place → Move) (here : Place) : List Piece :=
  if here.rest = [] then
    []
  else
    let move := step here
    match _hs : splitAt? move.len here.rest with
    | some (c :: front, back) =>
      ⟨move.kind.elim .filler .token, here.offset, c :: front⟩ ::
        scan step ⟨(c :: front).getLast?, here.offset + move.len, back⟩
    | _ => [⟨.torn (here.offset + move.len), here.offset, here.rest⟩]
  termination_by here.rest.length
  decreasing_by exact length_lt_of_splitAt? _hs

/-- A scan loses nothing. -/
theorem flatMap_text_scan (step : Place → Move) (here : Place) :
    (scan step here).flatMap Piece.text = here.rest := by
  fun_induction scan step here with
  | case1 here h => simp [h]
  | case2 here h move c front back hs ih =>
    simp only [List.flatMap_cons, ih]
    exact (splitAt?_eq_some.1 hs).1.symm
  | case3 here h move hs => simp

def tokensOf (pieces : List Piece) : List Token := pieces.filterMap Piece.token?

/-- Where a scan was torn. -/
def tornAt? (pieces : List Piece) : Option Nat := pieces.findSome? Piece.target?

/-- Puts neighbouring filler together. -/
def gather : List Piece → List Piece
  | [] => []
  | p :: ps =>
    match p.mark, gather ps with
    | .filler, q :: qs =>
      if q.mark = .filler then { p with text := p.text ++ q.text } :: qs else p :: q :: qs
    | _, qs => p :: qs

/-- Gathering loses nothing. -/
theorem flatMap_text_gather (pieces : List Piece) :
    (gather pieces).flatMap Piece.text = pieces.flatMap Piece.text := by
  fun_induction gather pieces with
  | case1 => rfl
  | case2 p ps q qs hg hp hq ih =>
    rw [hg] at ih
    simp only [List.flatMap_cons] at ih ⊢
    rw [← ih, List.append_assoc]
  | case3 p ps q qs hg hp hq ih =>
    rw [hg] at ih
    simp only [List.flatMap_cons] at ih ⊢
    rw [ih]
  | case4 p ps hg ih =>
    simp only [List.flatMap_cons]
    rw [ih]

end Strata
