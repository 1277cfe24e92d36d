import Mathlib.Data.List.Basic
import Mathlib.Data.List.TakeWhile
import Strata.Proofs.OffsetMap
import Strata.Proofs.Segmented
import Strata.Proofs.Trail

/-!
# What the first sweep leaves

The first sweep cuts a text into comments, other text and the layout at its end. What it leaves is
the trail of the other text: all characters outside the comments, but for the layout that comes
last.

* `strippedTrail`: the characters left, with their offsets;
* `text_stripComments`, `copies_stripComments`: the text and the map of the sweep, by the trail;
* `exists_filter_eq_strippedTrail`: the trail, by the comments.
-/

namespace Strata

variable {text : Text} {here : Place} {step : Place → Move} {pieces : List Piece} {offset len : Nat}

/-! ## The scan for comments -/

theorem exists_append_of_blockLen (t : Text) : ∃ a b, t = a ++ b ∧ byteLen a = blockLen t := by
  fun_induction blockLen t with
  | case1 => exact ⟨[], [], rfl, rfl⟩
  | case2 t => exact ⟨['*', '/'], t, rfl, rfl⟩
  | case3 c t _ ih =>
    rcases ih with ⟨a, b, ht, hlen⟩
    exact ⟨c :: a, b, by rw [ht]; rfl, by rw [byteLen_cons, hlen]⟩

theorem canPass_of_commentLen? (h : commentLen? here.rest = some len) : here.CanPass len := by
  unfold commentLen? at h
  split at h
  · rename_i t hrest
    cases h
    refine ⟨'/' :: '/' :: t.takeWhile (· ≠ '\n'), t.dropWhile (· ≠ '\n'), by simp, ?_, ?_⟩
    · rw [hrest, List.cons_append, List.cons_append, List.takeWhile_append_dropWhile]
    · have hsize : ('/' : Char).utf8Size = 1 := rfl
      rw [byteLen_cons, byteLen_cons, hsize]
      omega
  · rename_i t hrest
    cases h
    rcases exists_append_of_blockLen t with ⟨a, b, ht, hlen⟩
    refine ⟨'/' :: '*' :: a, b, by simp, ?_, ?_⟩
    · rw [hrest, ht]
      simp
    · have hslash : ('/' : Char).utf8Size = 1 := rfl
      have hstar : ('*' : Char).utf8Size = 1 := rfl
      rw [byteLen_cons, byteLen_cons, hslash, hstar, hlen]
      omega
  · cases h

theorem canPass_commentStep {c : Char} {t : Text} (h : here.rest = c :: t) :
    here.CanPass (commentStep here).len := by
  unfold commentStep
  split
  · rename_i len hlen
    exact canPass_of_commentLen? hlen
  · cases hquoted : quotedLen? here.rest with
    | some len => exact canPass_of_quotedLen? hquoted
    | none =>
      rw [Place.peek?, h]
      exact canPass_char h

/-- The scan for comments never stops before the end. -/
theorem advances_commentStep (text : Text) : Advances commentStep text := by
  intro here _ hahead
  rcases List.exists_cons_of_ne_nil hahead with ⟨c, t, hrest⟩
  exact (canPass_commentStep hrest).exists_movesTo

/-- Each piece of a scan that can always move is cut off by a move. -/
theorem exists_of_mem_scan (hadv : Advances step text) (hin : here.IsIn text) {p : Piece}
    (h : p ∈ scan step here) : ∃ q front, p = pieceAt step q front := by
  induction here using MovesTo.induction step with
  | next here ih =>
    by_cases hahead : here.rest = []
    · rw [scan_eq_nil hahead] at h
      cases h
    · rcases hadv here hin hahead with ⟨there, hmove⟩
      rcases scan_eq_cons_of_movesTo hmove with ⟨front, -, -, -, hscan⟩
      rw [hscan] at h
      rcases List.mem_cons.1 h with rfl | h
      · exact ⟨here, front, rfl⟩
      · exact ih there hmove (hmove.isIn hin) h

/-- Gathering filler makes no new kind of piece. -/
theorem exists_mark_eq_of_mem_gather {p : Piece} (h : p ∈ gather pieces) :
    ∃ q ∈ pieces, q.mark = p.mark := by
  fun_induction gather pieces with
  | case1 => cases h
  | case2 p' ps q qs hg hp hq ih =>
    rw [hg] at ih
    rcases List.mem_cons.1 h with rfl | h
    · exact ⟨p', List.mem_cons_self, rfl⟩
    · rcases ih (List.mem_cons_of_mem q h) with ⟨r, hr, hmark⟩
      exact ⟨r, List.mem_cons_of_mem p' hr, hmark⟩
  | case3 p' ps q qs hg hp hq ih =>
    rw [hg] at ih
    rcases List.mem_cons.1 h with rfl | h
    · exact ⟨p, List.mem_cons_self, rfl⟩
    · rcases ih h with ⟨r, hr, hmark⟩
      exact ⟨r, List.mem_cons_of_mem p' hr, hmark⟩
  | case4 p' ps hg ih =>
    rcases List.mem_cons.1 h with rfl | h
    · exact ⟨p, List.mem_cons_self, rfl⟩
    · rcases ih h with ⟨r, hr, hmark⟩
      exact ⟨r, List.mem_cons_of_mem p' hr, hmark⟩

/-- The scan for comments finds comments and other text, and is not torn. -/
theorem mark_of_mem_comments {p : Piece} (h : p ∈ gather (scan commentStep (Place.start text))) :
    p.mark = .filler ∨ p.mark = .token .comment := by
  rcases exists_mark_eq_of_mem_gather h with ⟨q, hq, hmark⟩
  rcases exists_of_mem_scan (advances_commentStep text) (Place.isIn_start text) hq with
    ⟨r, front, rfl⟩
  rw [← hmark, pieceAt, commentStep]
  split
  · exact Or.inr rfl
  · exact Or.inl rfl

/-! ## What is left and what is cut -/

theorem token?_eq_none_of_filler {p : Piece} (h : p.mark = .filler) : p.token?.isNone = true := by
  simp [Piece.token?, h]

theorem token?_isSome_of_token {p : Piece} {kind : Kind} (h : p.mark = .token kind) :
    p.token?.isNone = false := by
  simp [Piece.token?, h]

/-- Filler is cut into filler and the layout at its end. -/
theorem exists_append_of_cutLayout {p : Piece} (h : p.mark = .filler) :
    ∃ kept cut, p.cutLayout = kept ++ cut ∧ (∀ q ∈ kept, q.mark = .filler) ∧
      (∀ q ∈ cut, q.mark = .token .whitespace) ∧ (p.text.all isLayout = true → kept = []) := by
  unfold Piece.cutLayout
  refine ⟨_, _, rfl, ?_, ?_, ?_⟩
  · intro q hq
    split at hq
    · cases hq
    · rw [List.mem_singleton.1 hq]
      exact h
  · intro q hq
    split at hq
    · cases hq
    · rw [List.mem_singleton.1 hq]
  · intro hall
    have hnil : (p.text.reverse.dropWhile isLayout).reverse = [] := by
      rw [List.reverse_eq_nil_iff, List.dropWhile_eq_nil_iff]
      intro c hc
      exact List.all_eq_true.1 hall c (List.mem_reverse.1 hc)
    rw [if_pos hnil]

/-- Whether a piece is no comment. -/
def Piece.isOutside (p : Piece) : Bool := p.mark ≠ .token .comment

theorem filter_eq_self_of_filler {qs : List Piece} (h : ∀ q ∈ qs, q.mark = .filler) :
    qs.filter Piece.isOutside = qs ∧ qs.filter (·.token?.isNone) = qs := by
  constructor
  · apply List.filter_eq_self.2
    intro q hq
    simp [Piece.isOutside, h q hq]
  · apply List.filter_eq_self.2
    intro q hq
    exact token?_eq_none_of_filler (h q hq)

theorem filter_of_whitespace {qs : List Piece} (h : ∀ q ∈ qs, q.mark = .token .whitespace) :
    qs.filter Piece.isOutside = qs ∧ qs.filter (·.token?.isNone) = [] := by
  constructor
  · apply List.filter_eq_self.2
    intro q hq
    simp [Piece.isOutside, h q hq]
  · apply List.filter_eq_nil_iff.2
    intro q hq
    simp [token?_isSome_of_token (h q hq)]

/-- The pieces that are no comments are the ones left, followed by the layout that is cut. -/
theorem exists_filter_cutTrailingLayout {ps : List Piece}
    (h : ∀ p ∈ ps, p.mark = .filler ∨ p.mark = .token .comment) :
    ∃ cuts, (cutTrailingLayout ps).reverse.filter Piece.isOutside =
      (cutTrailingLayout ps).reverse.filter (·.token?.isNone) ++ cuts := by
  fun_induction cutTrailingLayout ps with
  | case1 => exact ⟨[], rfl⟩
  | case2 p older hmark hall ih =>
    -- the last piece is all layout, so what comes before it is cut as well
    rcases ih fun q hq => h q (List.mem_cons_of_mem p hq) with ⟨cuts, hcuts⟩
    rcases exists_append_of_cutLayout hmark with ⟨kept, cut, hp, -, hcut, hnone⟩
    rw [hnone hall, List.nil_append] at hp
    rcases filter_of_whitespace hcut with ⟨hcutall, hcutnone⟩
    refine ⟨cuts ++ cut, ?_⟩
    rw [List.reverse_append, List.reverse_reverse, List.filter_append, List.filter_append, hp,
      hcutall, hcutnone, hcuts, List.append_nil, List.append_assoc]
  | case3 p older hmark hall =>
    -- the last piece keeps some text, so cutting ends here
    rcases exists_append_of_cutLayout hmark with ⟨kept, cut, hp, hkept, hcut, -⟩
    have holder : older.reverse.filter Piece.isOutside =
        older.reverse.filter (·.token?.isNone) := by
      apply List.filter_congr
      intro q hq
      rcases h q (List.mem_cons_of_mem p (List.mem_reverse.1 hq)) with hq | hq
      · simp [Piece.isOutside, Piece.token?, hq]
      · simp [Piece.isOutside, Piece.token?, hq]
    rcases filter_of_whitespace hcut with ⟨hcutall, hcutnone⟩
    rcases filter_eq_self_of_filler hkept with ⟨hkeptall, hkeptfiller⟩
    refine ⟨cut, ?_⟩
    rw [List.reverse_append, List.reverse_reverse, hp]
    simp only [List.filter_append]
    rw [holder, hkeptall, hkeptfiller, hcutall, hcutnone, List.append_nil, List.append_assoc]
  | case4 p older hmark ih =>
    rcases ih fun q hq => h q (List.mem_cons_of_mem p hq) with ⟨cuts, hcuts⟩
    -- a comment at the end stands aside
    have hcomment : p.mark = .token .comment := by
      rcases h p List.mem_cons_self with hp | hp
      · exact absurd hp hmark
      · exact hp
    refine ⟨cuts, ?_⟩
    rw [List.reverse_cons, List.filter_append, List.filter_append, hcuts]
    simp [Piece.isOutside, Piece.token?, hcomment]

/-! ## The trail of what is left -/

/-- The characters that the first sweep leaves, with their offsets. -/
def strippedTrail (text : Text) : List (Nat × Char) :=
  ((strippedPieces text).filter (·.token?.isNone)).flatMap fun p => located id p.start p.text

/-- The bytes of the characters of a trail. -/
def trailBytes (trail : List (Nat × Char)) : List Nat :=
  trail.flatMap fun x => List.range' x.1 x.2.utf8Size

theorem trailBytes_located (offset : Nat) (t : Text) :
    trailBytes (located id offset t) = List.range' offset (byteLen t) := by
  induction t generalizing offset with
  | nil => rfl
  | cons c t ih =>
    have hcons : trailBytes (located id offset (c :: t)) =
        List.range' offset c.utf8Size ++ trailBytes (located id (offset + c.utf8Size) t) := rfl
    rw [hcons, ih, List.range'_append_1, byteLen_cons]

theorem length_trailBytes (trail : List (Nat × Char)) :
    (trailBytes trail).length = byteLen (trail.map (·.2)) := by
  induction trail with
  | nil => rfl
  | cons x trail ih =>
    have hcons : trailBytes (x :: trail) = List.range' x.1 x.2.utf8Size ++ trailBytes trail := rfl
    rw [hcons, List.length_append, List.length_range', ih, List.map_cons, byteLen_cons]

/-- A map that leads along a trail leads the bytes of a character to those of one character. -/
theorem OffsetMap.Traces.toSource_of_located {m : OffsetMap} {trail : List (Nat × Char)}
    {inLen : Nat} (h : m.Traces (trailBytes trail) inLen) {z : Nat × Nat × Char}
    (hz : z ∈ located (fun x => x.2) 0 trail) {j : Nat} (hj : j < z.2.2.utf8Size) :
    m.toSource (z.1 + j) = z.2.1 + j := by
  have hstop := (bounds_of_mem_located hz).2
  have hsource := h.toSource (z.1 + j) (by rw [length_trailBytes]; omega)
  rw [trailBytes, getElem?_flatMap_of_located (fun x => List.length_range') hz hj,
    List.getElem?_range' hj] at hsource
  have := Option.some.inj hsource
  omega

/-- The text that is left is made from the characters of a trail. -/
theorem text_stripComments (text : Text) :
    (stripComments text).text = (strippedTrail text).map (·.2) := by
  change ((strippedPieces text).filter (·.token?.isNone)).flatMap Piece.text = _
  rw [strippedTrail, List.map_flatMap]
  simp only [map_snd_located]

/-- The map of the first sweep leads along the trail of what it leaves. -/
theorem copies_stripComments (text : Text) :
    (stripComments text).origin.Copies (trailBytes (strippedTrail text)) (byteLen text) := by
  have hbuilt := (OffsetMap.Builder.copies_builder (byteLen text)).foldl_copy Piece.start
    (fun p => byteLen p.text) ((strippedPieces text).filter (·.token?.isNone))
  have hbytes : ((strippedPieces text).filter (·.token?.isNone)).flatMap
      (fun p => List.range' p.start (byteLen p.text)) = trailBytes (strippedTrail text) := by
    rw [strippedTrail, trailBytes, List.flatMap_assoc]
    congr 1
    funext p
    exact (trailBytes_located p.start p.text).symm
  rw [List.nil_append, hbytes] at hbuilt
  apply hbuilt.finish
  rw [length_trailBytes, ← text_stripComments]
  rfl

/-! ## The trail and the comments -/

/-- The located characters of tiled pieces are those of the text. -/
theorem flatMap_located_of_tiled (htiled : Tiled offset pieces) :
    pieces.flatMap (fun p => located id p.start p.text) =
      located id offset (pieces.flatMap Piece.text) := by
  induction pieces generalizing offset with
  | nil => rfl
  | cons p ps ih =>
    rcases htiled with ⟨hstart, -, hps⟩
    rw [List.flatMap_cons, List.flatMap_cons, located_append, ih hps, hstart, List.map_id]

theorem Tiled.le_start (htiled : Tiled offset pieces) : ∀ p ∈ pieces, offset ≤ p.start := by
  induction pieces generalizing offset with
  | nil =>
    intro p hp
    cases hp
  | cons q ps ih =>
    intro p hp
    rcases htiled with ⟨hstart, -, hps⟩
    rcases List.mem_cons.1 hp with rfl | hp
    · exact Nat.le_of_eq hstart.symm
    · have := ih hps p hp
      omega

/-- Tiled pieces that hold one byte are one piece. -/
theorem Tiled.eq_of_contains {p q : Piece} {i : Nat} (htiled : Tiled offset pieces)
    (hp : p ∈ pieces) (hq : q ∈ pieces) (hpi : p.span.contains i = true)
    (hqi : q.span.contains i = true) : p = q := by
  rw [Span.contains_eq_true] at hpi hqi
  induction pieces generalizing offset with
  | nil => cases hp
  | cons s ps ih =>
    rcases htiled with ⟨hstart, -, hps⟩
    have hstop : s.span.stop = offset + byteLen s.text := by rw [← hstart]; rfl
    -- a piece behind the first starts where the first has ended
    rcases List.mem_cons.1 hp with rfl | hp'
    · rcases List.mem_cons.1 hq with rfl | hq'
      · rfl
      · have : offset + byteLen p.text ≤ q.span.start := hps.le_start q hq'
        omega
    · rcases List.mem_cons.1 hq with rfl | hq'
      · have : offset + byteLen q.text ≤ p.span.start := hps.le_start p hp'
        omega
      · exact ih hps hp' hq'

/-- A byte of a piece is in a token exactly if the piece is that token. -/
theorem Tiled.any_tokensOf {p : Piece} {i : Nat} (htiled : Tiled offset pieces) (hp : p ∈ pieces)
    (hi : p.span.contains i = true) (ok : Token → Bool) :
    ((tokensOf pieces).any fun t => ok t && t.span.contains i) = p.token?.any ok := by
  rw [Bool.eq_iff_iff, List.any_eq_true, Option.any_eq_true]
  constructor
  · rintro ⟨t, ht, hcontains⟩
    rw [Bool.and_eq_true] at hcontains
    rcases List.mem_filterMap.1 ht with ⟨q, hq, htoken⟩
    rcases Piece.token?_eq_some htoken with ⟨-, -, hspan⟩
    have heq : p = q := htiled.eq_of_contains hp hq hi (hspan ▸ hcontains.2)
    exact ⟨t, heq ▸ htoken, hcontains.1⟩
  · rintro ⟨t, htoken, hok⟩
    rcases Piece.token?_eq_some htoken with ⟨-, -, hspan⟩
    refine ⟨t, List.mem_filterMap.2 ⟨p, hp, htoken⟩, ?_⟩
    rw [hspan, hi, hok]
    rfl

/-- Whether a byte is in no comment of a text. -/
def isOutsideComments (text : Text) (offset : Nat) : Bool :=
  !(stripComments text).tokens.any fun k => k.kind = .comment && k.span.contains offset

/-- A byte is outside the comments if no comment covers it. -/
theorem isOutsideComments_eq_true {i : Nat} : isOutsideComments text i = true ↔
    ∀ k ∈ (stripComments text).tokens, k.kind = .comment → k.span.contains i = false := by
  simp [isOutsideComments]

/-- A byte of a piece is in no comment exactly if the piece is none. -/
theorem isOutsideComments_iff {p : Piece} {i : Nat} (hp : p ∈ strippedPieces text)
    (hi : p.span.contains i = true) : isOutsideComments text i = p.isOutside := by
  have hany : (stripComments text).tokens.any (fun k => k.kind = .comment && k.span.contains i) =
      p.token?.any fun k => k.kind = .comment :=
    (tiled_strippedPieces text).any_tokensOf hp hi fun k => k.kind = .comment
  rw [isOutsideComments, hany, Piece.isOutside, Piece.token?]
  cases p.mark with
  | filler => rfl
  | token kind => simp
  | torn target => rfl

theorem contains_of_mem_located {p : Piece} {x : Nat × Char}
    (hx : x ∈ located id p.start p.text) {j : Nat} (hj : j < x.2.utf8Size) :
    p.span.contains (x.1 + j) = true := by
  have hbounds := bounds_of_mem_located hx
  rw [List.map_id] at hbounds
  rw [Span.contains_eq_true]
  have hstart : p.span.start = p.start := rfl
  have hstop : p.span.stop = p.start + byteLen p.text := rfl
  simp only [id_eq] at hbounds
  omega

/-- No byte of the trail is in a comment. -/
theorem isOutsideComments_of_mem_strippedTrail {x : Nat × Char} (hx : x ∈ strippedTrail text)
    {j : Nat} (hj : j < x.2.utf8Size) : isOutsideComments text (x.1 + j) = true := by
  rcases List.mem_flatMap.1 hx with ⟨p, hp, hxp⟩
  rcases List.mem_filter.1 hp with ⟨hp, htoken⟩
  rw [isOutsideComments_iff hp (contains_of_mem_located hxp hj)]
  simp only [Piece.isOutside, decide_eq_true_eq]
  intro hmark
  rw [token?_isSome_of_token hmark] at htoken
  cases htoken

/-- The characters outside the comments are those of the pieces that are no comments. -/
theorem filter_located_of_mem_strippedPieces {p : Piece} (hp : p ∈ strippedPieces text) :
    (located id p.start p.text).filter (fun x => isOutsideComments text x.1) =
      if p.isOutside then located id p.start p.text else [] := by
  have hsame : ∀ x ∈ located id p.start p.text, isOutsideComments text x.1 = p.isOutside := by
    intro x hx
    exact isOutsideComments_iff hp (contains_of_mem_located hx x.2.utf8Size_pos)
  rw [List.filter_congr hsame]
  cases p.isOutside with
  | true => simp
  | false => simp

theorem flatMap_filter_eq {α β : Type} (keep : α → Bool) (f : α → List β) (as : List α) :
    (as.filter keep).flatMap f = as.flatMap fun a => if keep a then f a else [] := by
  induction as with
  | nil => rfl
  | cons a as ih =>
    cases hkeep : keep a with
    | true => simp [hkeep, ih]
    | false => simp [hkeep, ih]

/-- What the first sweep leaves are the characters outside the comments, but for the last ones. -/
theorem exists_filter_eq_strippedTrail (text : Text) :
    ∃ cut, (located id 0 text).filter (fun x => isOutsideComments text x.1) =
      strippedTrail text ++ cut := by
  have hpieces : ∀ p ∈ (gather (scan commentStep (Place.start text))).reverse,
      p.mark = .filler ∨ p.mark = .token .comment := by
    intro p hp
    exact mark_of_mem_comments (List.mem_reverse.1 hp)
  rcases exists_filter_cutTrailingLayout hpieces with ⟨cuts, hcuts⟩
  have hlocated := flatMap_located_of_tiled (tiled_strippedPieces text)
  rw [flatMap_text_strippedPieces] at hlocated
  refine ⟨cuts.flatMap fun p => located id p.start p.text, ?_⟩
  calc (located id 0 text).filter (fun x => isOutsideComments text x.1)
    _ = (strippedPieces text).flatMap fun p =>
          (located id p.start p.text).filter fun x => isOutsideComments text x.1 := by
        rw [← hlocated, List.filter_flatMap]
    _ = (strippedPieces text).flatMap fun p =>
          if p.isOutside then located id p.start p.text else [] :=
        List.flatMap_congr fun p hp => filter_located_of_mem_strippedPieces hp
    _ = ((strippedPieces text).filter Piece.isOutside).flatMap fun p =>
          located id p.start p.text := (flatMap_filter_eq _ _ _).symm
    _ = ((strippedPieces text).filter (·.token?.isNone) ++ cuts).flatMap fun p =>
          located id p.start p.text := by
        exact congrArg (·.flatMap fun p => located id p.start p.text) hcuts
    _ = strippedTrail text ++ cuts.flatMap fun p => located id p.start p.text := by
        rw [strippedTrail, List.flatMap_append]

end Strata
