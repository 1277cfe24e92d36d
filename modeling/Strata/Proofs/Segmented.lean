import Strata.Proofs.Advance
import Strata.Sweep.Comments
import Strata.Sweep.Layout

/-!
# The tokens of every sweep make up its text

Whatever a text looks like, the tokens that a sweep finds stand in order and apart, say what the
text says where they stand, and are the text again with the gaps between them. For the two sweeps
that change the text this follows from the tiling of their pieces; for the others it is also the
fact that their scans can always move.

* `Segmented`: tokens that make up a text;
* `tiled_cutTrailingLayout`: cutting the layout at the end leaves a tiling;
* `sweeps_segment`: every sweep gives such tokens.
-/

namespace Strata

variable {text : Text} {pieces : List Piece} {p : Piece} {offset : Nat}

/-! ## Cutting the layout at the end -/

theorem flatMap_text_cutLayout (p : Piece) : p.cutLayout.flatMap Piece.text = p.text := by
  have hparts : (p.text.reverse.dropWhile isLayout).reverse ++
      (p.text.reverse.takeWhile isLayout).reverse = p.text := by
    rw [← List.reverse_append, List.takeWhile_append_dropWhile, List.reverse_reverse]
  unfold Piece.cutLayout
  dsimp only
  generalize (p.text.reverse.dropWhile isLayout).reverse = kept at hparts ⊢
  generalize (p.text.reverse.takeWhile isLayout).reverse = cut at hparts ⊢
  split <;> split <;> simp_all

theorem tiled_cutLayout (hstart : p.start = offset) : Tiled offset p.cutLayout := by
  unfold Piece.cutLayout
  dsimp only
  generalize (p.text.reverse.dropWhile isLayout).reverse = kept
  generalize (p.text.reverse.takeWhile isLayout).reverse = cut
  split <;> split <;> simp_all

/-- Cutting the layout at the end loses nothing. -/
theorem flatMap_text_cutTrailingLayout (ps : List Piece) :
    (cutTrailingLayout ps).reverse.flatMap Piece.text = ps.reverse.flatMap Piece.text := by
  fun_induction cutTrailingLayout ps with
  | case1 => rfl
  | case2 p older _ _ ih => simp [List.flatMap_append, ih, flatMap_text_cutLayout]
  | case3 p older _ _ => simp [List.flatMap_append, flatMap_text_cutLayout]
  | case4 p older _ ih => simp [List.flatMap_append, ih]

/-- Cutting the layout at the end leaves pieces that stand side by side. -/
theorem tiled_cutTrailingLayout {ps : List Piece} (h : Tiled offset ps.reverse) :
    Tiled offset (cutTrailingLayout ps).reverse := by
  fun_induction cutTrailingLayout ps with
  | case1 => exact h
  | case2 p older _ _ ih =>
    rw [List.reverse_cons, tiled_append] at h
    rw [List.reverse_append, List.reverse_reverse, tiled_append, flatMap_text_cutTrailingLayout]
    exact ⟨ih h.1, tiled_cutLayout h.2.1⟩
  | case3 p older _ _ =>
    rw [List.reverse_cons, tiled_append] at h
    rw [List.reverse_append, List.reverse_reverse, tiled_append]
    exact ⟨h.1, tiled_cutLayout h.2.1⟩
  | case4 p older _ ih =>
    rw [List.reverse_cons, tiled_append] at h
    rw [List.reverse_cons, tiled_append, flatMap_text_cutTrailingLayout]
    exact ⟨ih h.1, h.2⟩

/-- The pieces that the first sweep cuts a text into. -/
def strippedPieces (text : Text) : List Piece :=
  (cutTrailingLayout (gather (scan commentStep (Place.start text))).reverse).reverse

/-- The pieces of the first sweep cover the text without a gap. -/
theorem tiled_strippedPieces (text : Text) : Tiled 0 (strippedPieces text) := by
  apply tiled_cutTrailingLayout
  rw [List.reverse_reverse]
  exact tiled_gather (tiled_scan commentStep (Place.start text))

/-- The pieces of the first sweep say what the text says. -/
theorem flatMap_text_strippedPieces (text : Text) :
    (strippedPieces text).flatMap Piece.text = text := by
  rw [strippedPieces, flatMap_text_cutTrailingLayout, List.reverse_reverse, flatMap_text_gather,
    flatMap_text_scan]
  rfl

/-! ## Tokens that make up a text -/

/-- Well-formed tokens stand apart and say what the text says where they stand. -/
theorem apart_of_wellFormedFrom {cursor : Nat} {tokens : List Token}
    (h : wellFormedFrom text cursor tokens = true) :
    tokens.Pairwise (fun s t => s.span.stop ≤ t.span.start) ∧ ∀ t ∈ tokens,
      cursor ≤ t.span.start ∧ t.span.start < t.span.stop ∧ slice text t.span = .ok t.lexeme := by
  induction tokens generalizing cursor with
  | nil => exact ⟨List.Pairwise.nil, fun _ h => (List.not_mem_nil h).elim⟩
  | cons t ts ih =>
    rcases wellFormedFrom_cons.1 h with ⟨hcursor, hlt, hslice, hrest⟩
    rcases ih hrest with ⟨hpairwise, hlater⟩
    constructor
    · exact List.pairwise_cons.2 ⟨fun u hu => (hlater u hu).1, hpairwise⟩
    · intro u hu
      rcases List.mem_cons.1 hu with rfl | hu
      · exact ⟨hcursor, hlt, hslice⟩
      · rcases hlater u hu with ⟨hstart, hfull⟩
        exact ⟨by omega, hfull⟩

/-- The tokens stand in order and apart, none is empty, and each says what the text says where it
stands. -/
structure Sliced (text : Text) (tokens : List Token) : Prop where
  apart : tokens.Pairwise fun s t => s.span.stop ≤ t.span.start
  slices : ∀ t ∈ tokens, t.span.start < t.span.stop ∧ slice text t.span = .ok t.lexeme

/-- Tokens that are left out leave the others as they stand. -/
theorem Sliced.filter {tokens : List Token} (h : Sliced text tokens) (ok : Token → Bool) :
    Sliced text (tokens.filter ok) where
  apart := h.apart.filter ok
  slices := fun t ht => h.slices t (List.mem_filter.1 ht).1

/-- The tokens are slices of the text in order, and with the gaps between them they are the text. -/
structure Segmented (text : Text) (tokens : List Token) : Prop extends Sliced text tokens where
  wellFormed : wellFormed text tokens = true
  reconstruct : reconstruct text tokens = .ok text

/-- The tokens among the pieces of a text are its segments, with the gaps between them. -/
theorem segmented_tokensOf (htiled : Tiled 0 pieces)
    (htext : pieces.flatMap Piece.text = text) : Segmented text (tokensOf pieces) := by
  have hwell := wellFormed_tokensOf htiled htext
  rcases apart_of_wellFormedFrom hwell with ⟨hapart, hslices⟩
  exact ⟨⟨hapart, fun t ht => (hslices t ht).2⟩, hwell, reconstruct_tokensOf htiled htext⟩

theorem segmented_stripComments (text : Text) : Segmented text (stripComments text).tokens :=
  segmented_tokensOf (tiled_strippedPieces text) (flatMap_text_strippedPieces text)

theorem segmented_condenseLayout (text : Text) : Segmented text (condenseLayout text).tokens :=
  segmented_tokensOf (tiled_scan layoutStep (Place.start text))
    (flatMap_text_scan layoutStep (Place.start text))

/-- A scan that can always move gives tokens that make up the text. -/
theorem segmented_ofScan {step : Place → Move} (hadv : Advances step text) :
    ∃ sweep, Sweep.ofScan text step = .ok sweep ∧ Segmented text sweep.tokens :=
  ⟨_, ofScan_eq_ok hadv, segmented_tokensOf (tiled_scan step (Place.start text))
    (flatMap_text_scan step (Place.start text))⟩

/-- Each of the sweeps over a text finds tokens that make it up. -/
structure SweepsSegment (text : Text) (keywords : KeywordTable) (symbols : SymbolTable)
    (skip : SpanSet) : Prop where
  comments : Segmented text (stripComments text).tokens
  layout : Segmented text (condenseLayout text).tokens
  constants : ∃ sweep, tagConstants text skip = .ok sweep ∧ Segmented text sweep.tokens
  words : ∃ sweep, tagWords text skip keywords = .ok sweep ∧ Segmented text sweep.tokens
  symbols : ∃ sweep, tagSymbols text skip symbols = .ok sweep ∧ Segmented text sweep.tokens

/-- Every sweep finds tokens that make up its text, whatever it is to step over, as long as that
ends between characters. -/
theorem sweeps_segment (text : Text) (keywords : KeywordTable) (symbols : List SymbolEntry)
    (skip : SpanSet) (hskip : ∀ s ∈ skip.spans, isBoundary text s.stop = true) :
    SweepsSegment text keywords (.ofList symbols) skip where
  comments := segmented_stripComments text
  layout := segmented_condenseLayout text
  constants := segmented_ofScan (advances_constantStep text skip)
  words := segmented_ofScan (advances_wordStep keywords hskip)
  symbols := segmented_ofScan (advances_symbolStep symbols hskip)

/-- What is stepped over here starts inside a character and ends behind an accented one. -/
theorem sweeps_segment_accented :
    (∀ s ∈ (⟨[⟨1, 5⟩]⟩ : SpanSet).spans,
        isBoundary ['→', 'é', '.', '5', '+'] s.stop = true) ∧
      SweepsSegment ['→', 'é', '.', '5', '+'] .cpp (.ofList [⟨['+'], .operator⟩]) ⟨[⟨1, 5⟩]⟩ :=
  ⟨by decide +kernel, sweeps_segment _ _ _ _ (by decide +kernel)⟩

end Strata
