import Mathlib.Data.List.Basic
import Strata.Proofs.Kept
import Strata.Text.Utf8

/-!
# What the first sweep removes

What the first sweep leaves of a text is the text without the bytes of its tokens. The layout that
ends what is left is cut piece by piece, across the comments that stand between the pieces, and yet
the outcome is that of one cut: without the comments alone, the text ends in layout, and that layout
is what is cut. Each byte left came from the byte that the map of the sweep leads it to, so that all
behind the last of these is in tokens.

* `removeTokens`: bytes without those of some tokens;
* `filter_zipIdx_of_tiled`: removing some of the pieces that a text is cut into;
* `Removes`, `removes_stripComments`: what the first sweep removes from a text.
-/

namespace Strata

variable {text : Text} {pieces : List Piece} {offset : Nat}

/-! ## Without the bytes of some tokens -/

/-- Whether a byte is in none of some tokens. -/
def isOutsideTokens (tokens : List Token) (i : Nat) : Bool := !tokens.any (·.span.contains i)

/-- The bytes without those of some tokens. -/
def removeTokens (tokens : List Token) (bytes : List UInt8) : List UInt8 :=
  (bytes.zipIdx.filter fun x => isOutsideTokens tokens x.2).map (·.1)

/-- The bytes of tiled pieces, with their offsets, of which some pieces are left out. -/
theorem filter_zipIdx_of_tiled {ok : Nat → Bool} {keep : Piece → Bool}
    (htiled : Tiled offset pieces)
    (hok : ∀ p ∈ pieces, ∀ i, p.span.contains i = true → ok i = keep p) :
    ((encodeUtf8 (pieces.flatMap Piece.text)).zipIdx offset).filter (fun x => ok x.2) =
      (pieces.filter keep).flatMap fun p => (encodeUtf8 p.text).zipIdx p.start := by
  induction pieces generalizing offset with
  | nil => rfl
  | cons p ps ih =>
    rcases htiled with ⟨hstart, -, hps⟩
    have hlater := ih hps fun q hq => hok q (List.mem_cons_of_mem p hq)
    have hfirst : ((encodeUtf8 p.text).zipIdx offset).filter (fun x => ok x.2) =
        ((encodeUtf8 p.text).zipIdx offset).filter fun _ => keep p := by
      apply List.filter_congr
      intro x hx
      apply hok p List.mem_cons_self
      have hle := List.le_snd_of_mem_zipIdx hx
      have hlt := List.snd_lt_of_mem_zipIdx hx
      rw [length_encodeUtf8] at hlt
      have hstop : p.span.stop = p.start + byteLen p.text := rfl
      rw [Span.contains_eq_true]
      exact ⟨Nat.le_trans (Nat.le_of_eq hstart) hle, by omega⟩
    rw [List.flatMap_cons, encodeUtf8_append, List.zipIdx_append, length_encodeUtf8,
      List.filter_append, hlater, hfirst]
    cases hkeep : keep p with
    | true => simp [hkeep, hstart]
    | false => simp [hkeep]

theorem isOutsideTokens_of_tiled (htiled : Tiled offset pieces) {p : Piece} (hp : p ∈ pieces)
    {i : Nat} (hi : p.span.contains i = true) :
    isOutsideTokens (tokensOf pieces) i = p.token?.isNone := by
  have hany := htiled.any_tokensOf hp hi fun _ => true
  simp only [Bool.true_and] at hany
  rw [isOutsideTokens, hany]
  cases p.token? <;> rfl

/-- Without the bytes of the tokens, the bytes of the other pieces are left. -/
theorem removeTokens_tokensOf (htiled : Tiled 0 pieces) :
    removeTokens (tokensOf pieces) (encodeUtf8 (pieces.flatMap Piece.text)) =
      encodeUtf8 ((pieces.filter (·.token?.isNone)).flatMap Piece.text) := by
  rw [removeTokens, filter_zipIdx_of_tiled htiled fun p hp i hi =>
    isOutsideTokens_of_tiled htiled hp hi, List.map_flatMap]
  simp only [List.zipIdx_map_fst]
  rw [encodeUtf8, List.flatMap_assoc]
  rfl

/-- The offsets left are those of the pieces left. -/
theorem filter_range_of_tiled (htiled : Tiled 0 pieces) :
    (List.range (byteLen (pieces.flatMap Piece.text))).filter (isOutsideTokens (tokensOf pieces)) =
      (pieces.filter (·.token?.isNone)).flatMap fun p => List.range' p.start (byteLen p.text) := by
  have hpieces := congrArg (List.map (·.2)) (filter_zipIdx_of_tiled htiled fun p hp i hi =>
    isOutsideTokens_of_tiled htiled hp hi)
  have hfilter : (fun x : UInt8 × Nat => isOutsideTokens (tokensOf pieces) x.2) =
      isOutsideTokens (tokensOf pieces) ∘ (·.2) := rfl
  rw [hfilter, ← List.filter_map, List.map_flatMap] at hpieces
  simpa only [List.zipIdx_map_snd, length_encodeUtf8, List.range_eq_range'] using hpieces

/-! ## The tokens of the first sweep -/

/-- What is cut from the end of filler is layout. -/
theorem layout_of_mem_cutLayout {p q : Piece} (hp : p.mark = .filler) (hq : q ∈ p.cutLayout) :
    q.mark = .filler ∨ q.mark = .token .whitespace ∧ q.text.all isLayout = true := by
  unfold Piece.cutLayout at hq
  rcases List.mem_append.1 hq with hq | hq
  · split at hq
    · cases hq
    · rw [List.mem_singleton.1 hq]
      exact Or.inl hp
  · split at hq
    · cases hq
    · rw [List.mem_singleton.1 hq, List.all_reverse]
      exact Or.inr ⟨rfl, List.all_takeWhile⟩

/-- Cutting the layout at the end adds pieces of layout to filler and comments. -/
theorem mark_of_mem_cutTrailingLayout {ps : List Piece} {q : Piece}
    (h : ∀ p ∈ ps, p.mark = .filler ∨ p.mark = .token .comment) (hq : q ∈ cutTrailingLayout ps) :
    q.mark = .filler ∨ q.mark = .token .comment ∨
      q.mark = .token .whitespace ∧ q.text.all isLayout = true := by
  fun_induction cutTrailingLayout ps with
  | case1 => cases hq
  | case2 p older hmark _ ih =>
    rcases List.mem_append.1 hq with hq | hq
    · exact (layout_of_mem_cutLayout hmark (List.mem_reverse.1 hq)).imp_right Or.inr
    · exact ih (fun p' hp' => h p' (List.mem_cons_of_mem p hp')) hq
  | case3 p older hmark _ =>
    rcases List.mem_append.1 hq with hq | hq
    · exact (layout_of_mem_cutLayout hmark (List.mem_reverse.1 hq)).imp_right Or.inr
    · exact (h q (List.mem_cons_of_mem p hq)).imp_right Or.inl
  | case4 p older _ ih =>
    rcases List.mem_cons.1 hq with rfl | hq
    · exact (h q List.mem_cons_self).imp_right Or.inl
    · exact ih (fun p' hp' => h p' (List.mem_cons_of_mem p hp')) hq

/-- The tokens of the first sweep are comments and layout. -/
theorem kind_of_mem_stripComments {k : Token} (hk : k ∈ (stripComments text).tokens) :
    k.kind = .comment ∨ k.kind = .whitespace ∧ k.lexeme.all isLayout = true := by
  have htokens : (stripComments text).tokens = tokensOf (strippedPieces text) := rfl
  rw [htokens] at hk
  rcases List.mem_filterMap.1 hk with ⟨p, hp, htoken⟩
  rcases Piece.token?_eq_some htoken with ⟨hmark, hlexeme, -⟩
  have hmarks := mark_of_mem_cutTrailingLayout
    (fun q hq => mark_of_mem_comments (List.mem_reverse.1 hq)) (List.mem_reverse.1 hp)
  rw [hmark] at hmarks
  rcases hmarks with hfiller | hcomment | ⟨hlayout, hall⟩
  · cases hfiller
  · exact Or.inl (Mark.token.inj hcomment)
  · exact Or.inr ⟨Mark.token.inj hlayout, hlexeme ▸ hall⟩

/-- Each comment is what the text from its start on starts with. -/
theorem commentEnd_of_mem_stripComments {k : Token} (hk : k ∈ (stripComments text).tokens)
    (hkind : k.kind = .comment) :
    ∃ front rest, text = front ++ rest ∧ byteLen front = k.span.start ∧
      CommentEnd rest k.lexeme := by
  rcases mem_comments.1 ⟨hk, hkind⟩ with ⟨p, p', hvisits, hreports⟩
  rcases hvisits.isIn (Place.isIn_start text) with ⟨front, htext, hoffset, -⟩
  exact ⟨front, p.rest, htext, by rw [hreports.span_eq, hoffset], hreports.commentEnd⟩

/-! ## What is left -/

/-- Without its comments alone, a text is what is kept before the layout at the end is cut. -/
theorem removeTokens_comments (text : Text) :
    removeTokens ((stripComments text).tokens.filter (·.kind = .comment)) (encodeUtf8 text) =
      encodeUtf8 ((keptFrom (Place.start text)).map (·.2)) := by
  have htiled := tiled_scan commentStep (Place.start text)
  have hremoved := removeTokens_tokensOf htiled
  rw [flatMap_text_scan] at hremoved
  have hkept : (scan commentStep (Place.start text)).filter (·.token?.isNone) =
      (scan commentStep (Place.start text)).filter Piece.isOutside := by
    apply List.filter_congr
    intro p hp
    rcases exists_of_mem_scan (advances_commentStep text) (Place.isIn_start text) hp with
      ⟨here, front, rfl⟩
    cases hcomment : commentLen? here.rest with
    | none => simp [pieceAt, commentStep, hcomment, Piece.token?, Piece.isOutside, Move.pass]
    | some len => simp [pieceAt, commentStep, hcomment, Piece.token?, Piece.isOutside, Move.report]
  rw [hkept] at hremoved
  rw [comments_stripComments, keptFrom, List.map_flatMap]
  simp only [map_snd_located]
  exact hremoved

/-- The map of the first sweep leads the bytes left to the bytes in no token, in order. -/
theorem map_toSource_stripComments (text : Text) :
    (List.range (byteLen (stripComments text).text)).map (stripComments text).origin.toSource =
      (List.range (byteLen text)).filter (isOutsideTokens (stripComments text).tokens) := by
  have hsources := (copies_stripComments text).traces.map_toSource
  have htrail : trailBytes (strippedTrail text) =
      ((strippedPieces text).filter (·.token?.isNone)).flatMap
        fun p => List.range' p.start (byteLen p.text) := by
    rw [strippedTrail, trailBytes, List.flatMap_assoc]
    exact List.flatMap_congr fun p _ => trailBytes_located p.start p.text
  have hoffsets := filter_range_of_tiled (tiled_strippedPieces text)
  rw [flatMap_text_strippedPieces] at hoffsets
  rw [htrail, ← hoffsets] at hsources
  exact hsources

/-- A sweep over a text removes its comments and the layout at its end. -/
structure Removes (text : Text) (s : Sweep) : Prop where
  sliced : Sliced text s.tokens
  kinds : ∀ k ∈ s.tokens, k.kind = .comment ∨ k.kind = .whitespace ∧ k.lexeme.all isLayout = true
  comments : ∀ k ∈ s.tokens, k.kind = .comment → ∃ front rest, text = front ++ rest ∧
    byteLen front = k.span.start ∧ CommentEnd rest k.lexeme
  /-- What is left is the text without its tokens. -/
  left : encodeUtf8 s.text = removeTokens s.tokens (encodeUtf8 text)
  /-- What is left is the text without its comments, but for the layout that then ends it. -/
  trimmed : ∃ uncommented : Text, s.text = uncommented.rdropWhile isLayout ∧
    encodeUtf8 uncommented = removeTokens (s.tokens.filter (·.kind = .comment)) (encodeUtf8 text)
  ends : ∀ c ∈ s.text.getLast?, isLayout c = false
  origins : (List.range (byteLen s.text)).map s.origin.toSource =
    (List.range (byteLen text)).filter (isOutsideTokens s.tokens)
  /-- Behind the last byte left, all is in tokens. -/
  behind : ∀ i < byteLen text, (∀ j < byteLen s.text, s.origin.toSource j < i) →
    ∃ k ∈ s.tokens, k.span.contains i = true

/-- The first sweep removes the comments of a text and the layout at its end, and nothing else. -/
theorem removes_stripComments (text : Text) : Removes text (stripComments text) where
  sliced := (segmented_stripComments text).toSliced
  kinds := fun _ hk => kind_of_mem_stripComments hk
  comments := fun _ hk hkind => commentEnd_of_mem_stripComments hk hkind
  left := by
    have hremoved := removeTokens_tokensOf (tiled_strippedPieces text)
    rw [flatMap_text_strippedPieces] at hremoved
    exact hremoved.symm
  trimmed := ⟨_, text_stripComments_eq_rdropWhile text, (removeTokens_comments text).symm⟩
  ends := by
    intro c hc
    rw [text_stripComments_eq_rdropWhile, List.rdropWhile, List.getLast?_reverse] at hc
    exact eq_false_of_mem_head?_dropWhile hc
  origins := map_toSource_stripComments text
  behind := by
    intro i hi hbehind
    by_contra hnone
    have houtside : isOutsideTokens (stripComments text).tokens i = true := by
      simpa [isOutsideTokens] using hnone
    have hmem := List.mem_filter.2 ⟨List.mem_range.2 hi, houtside⟩
    rw [← map_toSource_stripComments] at hmem
    rcases List.mem_map.1 hmem with ⟨j, hj, hsource⟩
    have := hbehind j (List.mem_range.1 hj)
    omega

/-- The layout between the comments at the end goes with them. -/
example : (stripComments "x /*/ */ \n// y".toList).text = ['x'] := by decide +kernel

end Strata
