import Mathlib.Data.List.DropRight
import Mathlib.Data.List.Induction
import Strata.Proofs.Comments

/-!
# What is left without comments

What the first sweep leaves are the characters outside the comments without the layout that comes
last. From any place of the scan for comments on, these characters are told by the moves behind it:
a comment adds nothing, and each other move adds what it takes.

* `keptFrom`: the characters outside the comments, from a place on;
* `strippedTrail_eq_rdropWhile`: the layout that comes last is cut, and nothing else;
* `byteLen_stripComments`: a text is as long as what is left of it and its tokens;
* `stripComments_of_no_comment`: without comments, a text that the sweep has left stays as it is.
-/

namespace Strata

variable {text front back : Text} {here there : Place} {pieces : List Piece} {offset len : Nat}

/-! ## The characters outside the comments -/

/-- From a place of the scan for comments on, the characters outside the comments. -/
def keptFrom (here : Place) : List (Nat × Char) :=
  ((scan commentStep here).filter Piece.isOutside).flatMap fun p => located id p.start p.text

theorem keptFrom_nil (h : here.rest = []) : keptFrom here = [] := by
  rw [keptFrom, scan_eq_nil h]
  rfl

/-- Of a comment, nothing is kept. -/
theorem keptFrom_comment (hmove : MovesTo commentStep here there)
    (h : commentLen? here.rest = some len) : keptFrom here = keptFrom there := by
  rcases scan_eq_cons_of_movesTo hmove with ⟨front, -, -, -, hscan⟩
  have hmark : (pieceAt commentStep here front).isOutside = false := by
    simp [pieceAt, commentStep, h, Piece.isOutside, Move.report]
  rw [keptFrom, hscan, List.filter_cons_of_neg (by simp [hmark])]
  rfl

/-- Of what is no comment, all is kept. -/
theorem keptFrom_other (hcomment : commentLen? here.rest = none) (hne : front ≠ [])
    (hrest : here.rest = front ++ back) (hlen : byteLen front = (commentStep here).len) :
    keptFrom here = located id here.offset front ++ keptFrom (here.past front back) := by
  have hmark : (pieceAt commentStep here front).isOutside = true := by
    simp [pieceAt, commentStep, hcomment, Piece.isOutside, Move.pass]
  rw [keptFrom, scan_eq_cons hne hrest hlen, List.filter_cons_of_pos hmark, List.flatMap_cons]
  rfl

/-- If no comment is ahead, all that is ahead is kept. -/
theorem keptFrom_of_no_comment (h : tokensOf (scan commentStep here) = []) :
    keptFrom here = located id here.offset here.rest := by
  have hall : (scan commentStep here).filter Piece.isOutside = scan commentStep here := by
    apply List.filter_eq_self.2
    intro p hp
    simp only [Piece.isOutside, decide_eq_true_eq]
    intro hmark
    have htoken : p.token? = some ⟨.comment, p.text, p.span⟩ := by simp [Piece.token?, hmark]
    have := List.filterMap_eq_nil_iff.1 h p hp
    rw [htoken] at this
    cases this
  rw [keptFrom, hall, flatMap_located_of_tiled (tiled_scan commentStep here), flatMap_text_scan]

/-! ## Cutting the layout -/

theorem rdropWhile_append {α : Type} (p : α → Bool) (as bs : List α) :
    (as ++ bs).rdropWhile p =
      if bs.rdropWhile p = [] then as.rdropWhile p else as ++ bs.rdropWhile p := by
  simp only [List.rdropWhile, List.reverse_append, List.dropWhile_append, List.isEmpty_iff,
    List.reverse_eq_nil_iff]
  split <;> simp

/-- Located characters are cut where the characters are. -/
theorem rdropWhile_located (p : Char → Bool) (t : Text) :
    (located id offset t).rdropWhile (fun x => p x.2) = located id offset (t.rdropWhile p) := by
  induction t using List.reverseRecOn with
  | nil => rfl
  | append_singleton t c ih =>
    rw [located_append, located_cons, located_nil]
    by_cases hc : p c = true
    · rw [List.rdropWhile_concat_pos (fun x : Nat × Char => p x.2) _ _ hc,
        List.rdropWhile_concat_pos p _ _ hc, ih]
    · rw [List.rdropWhile_concat_neg (fun x : Nat × Char => p x.2) _ _ hc,
        List.rdropWhile_concat_neg p _ _ hc, located_append, located_cons, located_nil]

/-- Filler put together keeps the same characters. -/
theorem flatMap_located_gather (h : Tiled offset pieces) :
    ((gather pieces).filter Piece.isOutside).flatMap (fun p => located id p.start p.text) =
      (pieces.filter Piece.isOutside).flatMap fun p => located id p.start p.text := by
  rw [flatMap_filter_eq, flatMap_filter_eq]
  fun_induction gather pieces generalizing offset with
  | case1 => rfl
  | case2 p ps q qs hg hp hq ih =>
    rcases h with ⟨hstart, hne, hps⟩
    have htiled := tiled_gather hps
    rw [hg] at htiled ih
    have hout : ∀ r : Piece, r.mark = .filler → r.isOutside = true := by
      intro r hr
      simp [Piece.isOutside, hr]
    rw [List.flatMap_cons, List.flatMap_cons, ← ih hps, List.flatMap_cons, if_pos (hout p hp),
      if_pos (hout q hq), if_pos (hout { p with text := p.text ++ q.text } hp), located_append,
      List.append_assoc, htiled.1, hstart, List.map_id]
  | case3 p ps q qs hg hp hq ih =>
    have hps := ih h.2.2
    rw [hg] at hps
    rw [List.flatMap_cons, hps, List.flatMap_cons]
  | case4 p ps hg ih => rw [List.flatMap_cons, List.flatMap_cons, ih h.2.2]

/-- Of filler, what stands before its layout is left. -/
theorem flatMap_located_cutLayout {p : Piece} (h : p.mark = .filler) :
    (p.cutLayout.filter (·.token?.isNone)).flatMap (fun q => located id q.start q.text) =
      located id p.start (p.text.rdropWhile isLayout) := by
  have hkept : ∀ t : Text, ({ p with text := t } : Piece).token? = none := by
    intro t
    simp [Piece.token?, h]
  have hcut : ∀ (start : Nat) (t : Text),
      (⟨.token .whitespace, start, t⟩ : Piece).token?.isNone = false := fun _ _ => rfl
  have hwhole : (p.text.reverse.dropWhile isLayout).reverse = p.text.rdropWhile isLayout := rfl
  unfold Piece.cutLayout
  dsimp only
  rw [hwhole, List.filter_append, List.flatMap_append]
  generalize (p.text.reverse.takeWhile isLayout).reverse = cut
  have hnothing : (List.filter (·.token?.isNone) (if cut = [] then [] else
      [(⟨.token .whitespace, p.start + byteLen (p.text.rdropWhile isLayout), cut⟩ : Piece)])) =
        [] := by
    split <;> simp [hcut]
  rw [hnothing, List.flatMap_nil, List.append_nil]
  split
  · rename_i hnil
    rw [hnil]
    rfl
  · simp [hkept]

/-- Of pieces that come last piece first, the characters left are those outside the comments
without the layout at their end. -/
theorem flatMap_located_cutTrailingLayout {ps : List Piece}
    (h : ∀ p ∈ ps, p.mark = .filler ∨ p.mark = .token .comment) :
    ((cutTrailingLayout ps).reverse.filter (·.token?.isNone)).flatMap
        (fun p => located id p.start p.text) =
      ((ps.reverse.filter Piece.isOutside).flatMap
        fun p => located id p.start p.text).rdropWhile fun x => isLayout x.2 := by
  fun_induction cutTrailingLayout ps with
  | case1 => rfl
  | case2 p older hmark hall ih =>
    -- the last piece is all layout, so nothing of it is left
    have hnil : p.text.rdropWhile isLayout = [] :=
      List.rdropWhile_eq_nil_iff.2 fun c hc => List.all_eq_true.1 hall c hc
    rw [List.reverse_append, List.reverse_reverse, List.filter_append, List.flatMap_append,
      flatMap_located_cutLayout hmark, hnil, ih fun q hq => h q (List.mem_cons_of_mem p hq),
      List.reverse_cons, List.filter_append, List.flatMap_append, rdropWhile_append]
    simp [Piece.isOutside, hmark, rdropWhile_located, hnil]
  | case3 p older hmark hall =>
    -- the last piece keeps some text, so all that comes before it is left
    have hne : p.text.rdropWhile isLayout ≠ [] := by
      intro hnil
      exact hall (List.all_eq_true.2 (List.rdropWhile_eq_nil_iff.1 hnil))
    have holder : older.reverse.filter (·.token?.isNone) =
        older.reverse.filter Piece.isOutside := by
      apply List.filter_congr
      intro q hq
      rcases h q (List.mem_cons_of_mem p (List.mem_reverse.1 hq)) with hq | hq
      · simp [Piece.isOutside, Piece.token?, hq]
      · simp [Piece.isOutside, Piece.token?, hq]
    have hlocated : located id p.start (p.text.rdropWhile isLayout) ≠ [] := by
      intro hnil
      have hlength := congrArg List.length hnil
      rw [length_located] at hlength
      exact hne (List.length_eq_zero_iff.1 hlength)
    rw [List.reverse_append, List.reverse_reverse, List.filter_append, List.flatMap_append,
      flatMap_located_cutLayout hmark, holder, List.reverse_cons, List.filter_append,
      List.flatMap_append, rdropWhile_append]
    simp [Piece.isOutside, hmark, rdropWhile_located, hlocated]
  | case4 p older hmark ih =>
    have hcomment : p.mark = .token .comment := (h p List.mem_cons_self).resolve_left hmark
    rw [List.reverse_cons, List.filter_append, List.flatMap_append,
      ih fun q hq => h q (List.mem_cons_of_mem p hq), List.reverse_cons, List.filter_append,
      List.flatMap_append]
    simp [Piece.isOutside, Piece.token?, hcomment]

/-- The characters that the first sweep leaves are those outside the comments, without the layout
that comes last. -/
theorem strippedTrail_eq_rdropWhile (text : Text) :
    strippedTrail text = (keptFrom (Place.start text)).rdropWhile fun x => isLayout x.2 := by
  have hmarks : ∀ p ∈ (gather (scan commentStep (Place.start text))).reverse,
      p.mark = .filler ∨ p.mark = .token .comment := by
    intro p hp
    exact mark_of_mem_comments (List.mem_reverse.1 hp)
  rw [strippedTrail, strippedPieces, flatMap_located_cutTrailingLayout hmarks,
    List.reverse_reverse, flatMap_located_gather (tiled_scan commentStep (Place.start text))]
  rfl

/-- What is left of a text is what is kept, without the layout at the end. -/
theorem text_stripComments_eq_rdropWhile (text : Text) :
    (stripComments text).text =
      ((keptFrom (Place.start text)).map (·.2)).rdropWhile isLayout := by
  rw [text_stripComments, strippedTrail_eq_rdropWhile, List.rdropWhile, List.rdropWhile,
    ← List.map_reverse, List.dropWhile_map, List.map_reverse]
  rfl

/-! ## What is left and what is removed -/

/-- Pieces are as long as the tokens among them and the other pieces. -/
theorem byteLen_flatMap_text (pieces : List Piece) :
    byteLen (pieces.flatMap Piece.text) =
      byteLen ((pieces.filter (·.token?.isNone)).flatMap Piece.text) +
        byteLen ((tokensOf pieces).flatMap Token.lexeme) := by
  induction pieces with
  | nil => rfl
  | cons p ps ih =>
    unfold tokensOf at ih ⊢
    cases htoken : p.token? with
    | none =>
      rw [List.filterMap_cons_none htoken, List.filter_cons_of_pos (by simp [htoken]),
        byteLen_flatMap_cons, byteLen_flatMap_cons, ih, Nat.add_assoc]
    | some t =>
      rcases Piece.token?_eq_some htoken with ⟨-, hlexeme, -⟩
      rw [List.filterMap_cons_some htoken, List.filter_cons_of_neg (by simp [htoken]),
        byteLen_flatMap_cons, byteLen_flatMap_cons, ih, hlexeme]
      omega

/-- A text is as long as what the first sweep leaves of it and the tokens that it removes. -/
theorem byteLen_stripComments (text : Text) :
    byteLen text = byteLen (stripComments text).text +
      byteLen ((stripComments text).tokens.flatMap Token.lexeme) := by
  have hpieces := byteLen_flatMap_text (strippedPieces text)
  rw [flatMap_text_strippedPieces] at hpieces
  exact hpieces

/-- A text that stays as it is has no tokens. -/
theorem tokens_stripComments_eq_nil (h : (stripComments text).text = text) :
    (stripComments text).tokens = [] := by
  have hlen := byteLen_stripComments text
  rw [h] at hlen
  have hlexemes : (stripComments text).tokens.flatMap Token.lexeme = [] :=
    byteLen_eq_zero.1 (by omega)
  apply List.eq_nil_iff_forall_not_mem.2
  intro t ht
  rcases (segmented_stripComments text).slices t ht with ⟨hlt, hslice⟩
  rcases slice_eq_ok.1 hslice with ⟨-, -, -, -, hstop⟩
  have hnil : t.lexeme = [] := List.flatMap_eq_nil_iff.1 hlexemes t ht
  rw [hnil, byteLen_nil] at hstop
  omega

/-- Without comments, a text that the first sweep has left stays as it is. -/
theorem stripComments_of_no_comment
    (h : ∀ k ∈ (stripComments (stripComments text).text).tokens, k.kind ≠ .comment) :
    (stripComments (stripComments text).text).tokens = [] ∧
      (stripComments (stripComments text).text).text = (stripComments text).text := by
  have hnone : tokensOf (scan commentStep (Place.start (stripComments text).text)) = [] := by
    rw [← comments_stripComments, List.filter_eq_nil_iff]
    intro k hk
    simpa using h k hk
  have hsame : (stripComments (stripComments text).text).text = (stripComments text).text := by
    rw [text_stripComments_eq_rdropWhile (stripComments text).text, keptFrom_of_no_comment hnone,
      map_snd_located, text_stripComments_eq_rdropWhile text]
    exact List.rdropWhile_idempotent _ _
  exact ⟨tokens_stripComments_eq_nil hsame, hsame⟩

end Strata
