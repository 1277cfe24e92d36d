import Strata.Proofs.Advance
import Strata.Sweep.Literals

/-!
# Literals are where constants start with a quote

The scan for literals goes by single characters where the scan for constants steps over numbers and
words. It comes to every place that the other one comes to, and at a quote the two make the same
move. So the literals of a text are the closed literals that the scan for constants reports, and
what is looked up among them is known from that scan alone.

* `visits_literalStep`: the scan for literals comes to the places of the scan for constants;
* `mem_literalSpans`: the literals, by the places of the scan for constants;
* `contains_literals`, `spanAt?_literals`, `contains_literals_of_ranges`: what is looked up;
* `contains_literals_iff`, `contains_ranges_iff`: what is looked up in the bytes of one move.
-/

namespace Strata

variable {skip : SpanSet} {here there : Place} {text : Text} {c : Char} {t : Text} {len : Nat}

/-! ## The moves of the scan for literals -/

/-- A closed literal is taken as a whole. -/
theorem literalStep_literal (h : quotedLen? here.rest = some len) :
    (literalStep here).len = len ∧ (literalStep here).kind.isSome = true := by
  unfold literalStep
  split <;> simp_all [Move.report]

/-- An empty pair of quotes is stepped over. -/
theorem literalStep_emptyPair (h : here.rest = '\'' :: '\'' :: t) : literalStep here = .pass 2 := by
  have hquoted : quotedLen? here.rest = none := by
    rw [h]
    exact quotedLen?_pair t
  unfold literalStep
  split <;> simp_all

/-- Any other character is stepped over alone. -/
theorem literalStep_other (h : here.rest = c :: t) (hquoted : quotedLen? here.rest = none)
    (hpair : c = '\'' → t.head? ≠ some '\'') : literalStep here = .pass c.utf8Size := by
  unfold literalStep
  split
  · simp_all
  · simp_all
  · rename_i t' hrest _
    rw [h] at hrest
    obtain ⟨rfl, rfl⟩ : c = '\'' ∧ t = '\'' :: t' := by simpa using hrest
    exact absurd rfl (hpair rfl)
  · simp_all
  · simp_all

theorem kind_literalStep (h : (literalStep here).kind.isSome = true) :
    ∃ len, quotedLen? here.rest = some len := by
  cases hquoted : quotedLen? here.rest with
  | some len => exact ⟨len, rfl⟩
  | none =>
    unfold literalStep at h
    split at h <;> simp_all [Move.pass]

/-! ## The two scans side by side -/

/-- Over text without quotes, the scan for literals goes by single characters. -/
theorem visits_literalStep_of_unquoted {front back : Text} (hrest : here.rest = front ++ back)
    (hunquoted : ∀ c ∈ front, c ≠ '"' ∧ c ≠ '\'') :
    Visits literalStep here (here.past front back) := by
  induction front generalizing here with
  | nil =>
    rw [List.nil_append] at hrest
    rw [← hrest, Place.past_nil]
    exact Visits.refl
  | cons c front ih =>
    have hc := hunquoted c List.mem_cons_self
    have hquoted : quotedLen? here.rest = none := by
      rw [hrest]
      exact quotedLen?_eq_none hc.1 hc.2
    have hmove : literalStep here = .pass c.utf8Size :=
      literalStep_other hrest hquoted fun hsingle => absurd hsingle hc.2
    have hstep : MovesTo literalStep here (here.past [c] (front ++ back)) :=
      movesTo_past (by simp) hrest (by simp [hmove, Move.pass])
    have hlater := ih (Place.past_rest here [c] (front ++ back))
      fun d hd => hunquoted d (List.mem_cons_of_mem c hd)
    rw [Place.past_past] at hlater
    exact Visits.head hstep hlater

/-- No number holds a quote. -/
theorem ConstantAt.unquoted {rule : ConstantRule} {there : Place} {front : Text}
    (h : ConstantAt here rule len there front) (hkind : rule.kind.isNumber = true) :
    ∀ c ∈ front, c ≠ '"' ∧ c ≠ '\'' := by
  intro c hc
  have hreads := h.reading.reads c hc
  rcases reads_quote_of_isNumber h.mem hkind with ⟨hdouble, hsingle⟩
  constructor
  · rintro rfl
    rw [hdouble] at hreads
    cases hreads
  · rintro rfl
    rw [hsingle] at hreads
    cases hreads

/-- No literal starts where a number does. -/
theorem ConstantAt.quotedLen?_eq_none {rule : ConstantRule} {there : Place} {front : Text}
    (h : ConstantAt here rule len there front) (hkind : rule.kind.isNumber = true) :
    quotedLen? here.rest = none := by
  rcases List.exists_cons_of_ne_nil h.ne_nil with ⟨d, tail, rfl⟩
  have hd := h.unquoted hkind d List.mem_cons_self
  rw [h.rest_eq]
  exact Strata.quotedLen?_eq_none hd.1 hd.2

/-- No word holds a quote. -/
theorem unquoted_word (t : Text) : ∀ c ∈ t.takeWhile isIdentChar, c ≠ '"' ∧ c ≠ '\'' := by
  intro c hc
  have hident : isIdentChar c = true := List.all_eq_true.1 List.all_takeWhile c hc
  constructor
  · rintro rfl
    revert hident
    decide
  · rintro rfl
    revert hident
    decide

/-- A move of the scan for constants over text without quotes, or one that the scan for literals
makes as well. -/
theorem MovesTo.unquoted_or_same (h : MovesTo (constantStep skip) here there) :
    (∃ front, here.rest = front ++ there.rest ∧ there = here.past front there.rest ∧
        ∀ c ∈ front, c ≠ '"' ∧ c ≠ '\'') ∨
      MovesTo literalStep here there := by
  rcases h.exists_head with ⟨c, t, hhead⟩
  have hmoves := h
  rcases h with ⟨front, hne, hrest, hlen, hthere⟩
  -- a front of the same length is the front of the move
  have hfront : ∀ f b, here.rest = f ++ b → byteLen f = (constantStep skip here).len →
      front = f := by
    intro f b hf hflen
    exact (append_inj_of_byteLen (hrest.symm.trans hf) (hlen.trans hflen.symm)).1
  have hmove : ConstantMove skip here := constantStep_cases hhead
  cases hmove with
  | literal hquoted hkind hstep =>
    right
    exact hmoves.of_len_eq (by rw [(literalStep_literal hquoted).1, hstep, Move.report])
  | emptyPair hpair hstep =>
    right
    exact hmoves.of_len_eq (by rw [literalStep_emptyPair hpair, hstep, Move.report, Move.pass])
  | number hnumber hat hkind hstep =>
    left
    refine ⟨front, hrest, hthere, ?_⟩
    rw [hfront _ _ hat.rest_eq (by rw [hstep, Move.report, hat.byteLen_eq])]
    exact hat.unquoted hkind
  | truth _ hletter hstart hstep =>
    left
    refine ⟨front, hrest, hthere, ?_⟩
    rw [hfront _ _ List.takeWhile_append_dropWhile.symm (by rw [hstep]; rfl)]
    exact unquoted_word here.rest
  | word _ hident hnumber hstep =>
    left
    refine ⟨front, hrest, hthere, ?_⟩
    rw [hfront _ _ List.takeWhile_append_dropWhile.symm (by rw [hstep]; rfl)]
    exact unquoted_word here.rest
  | other hhead' hident hnumber hquoted hpair hstep =>
    right
    exact hmoves.of_len_eq (by rw [literalStep_other hhead' hquoted hpair, hstep])

/-- The scan for literals comes to every place that the scan for constants comes to. -/
theorem visits_literalStep (h : Visits (constantStep skip) here there) :
    Visits literalStep here there := by
  induction h with
  | refl => exact Visits.refl
  | tail _ hmove ih =>
    rcases hmove.unquoted_or_same with ⟨front, hrest, hthere, hunquoted⟩ | hsame
    · rw [hthere]
      exact Relation.ReflTransGen.trans ih (visits_literalStep_of_unquoted hrest hunquoted)
    · exact ih.tail hsame

/-- Where the scan for literals makes a move at a quote, the scan for constants makes one, too. -/
theorem visits_constantStep_of_quote (skip : SpanSet)
    (h : Visits literalStep (Place.start text) here) (hmove : MovesTo literalStep here there)
    (hhead : here.rest = c :: t) (hquote : c = '"' ∨ c = '\'') :
    Visits (constantStep skip) (Place.start text) here := by
  have hin : here.IsIn text := h.isIn (Place.isIn_start text)
  rcases exists_visits_over (advances_constantStep text skip) hin hhead with
    ⟨p, p', a, b, hp, hpm, hcovers, hrest, -, -⟩
  rcases hpm.unquoted_or_same with ⟨front, hfront, -, hunquoted⟩ | hsame
  · -- the quote would stand in the text passed
    have hmem : c ∈ front := by
      rw [List.append_cancel_right (hfront.symm.trans hrest)]
      simp
    have := hunquoted c hmem
    rcases hquote with rfl | rfl
    · exact absurd rfl this.1
    · exact absurd rfl this.2
  · have heq : p = here := Visits.eq_of_covers (Place.isIn_start text) (visits_literalStep hp) h
      hsame hmove hcovers ⟨Nat.le_refl _, hmove.offset_lt⟩
    rw [← heq]
    exact hp

/-! ## The literals -/

/-- Where the literals of a text stand. -/
def literalSpans (text : Text) : List Span :=
  (tokensOf (scan literalStep (Place.start text))).map (·.span)

theorem all_ofText (text : Text) : (Literals.ofText text).all = .ofSpans (literalSpans text) := rfl

/-- The literals of a text are the closed literals that the scan for constants comes to. -/
theorem mem_literalSpans (skip : SpanSet) {s : Span} :
    s ∈ literalSpans text ↔ ∃ p p', Visits (constantStep skip) (Place.start text) p ∧
      MovesTo (constantStep skip) p p' ∧ (∃ len, quotedLen? p.rest = some len) ∧
      s = ⟨p.offset, p'.offset⟩ := by
  unfold literalSpans
  rw [List.mem_map]
  constructor
  · rintro ⟨token, htoken, rfl⟩
    rcases mem_tokensOf_scan.1 htoken with ⟨p, p', hp, hreports⟩
    have hkind : (literalStep p).kind.isSome = true := by rw [hreports.kind_eq]; rfl
    rcases kind_literalStep hkind with ⟨len, hquoted⟩
    have hsame : MovesTo (constantStep skip) p p' := by
      apply hreports.moves.of_len_eq
      rw [len_constantStep_literal hquoted, (literalStep_literal hquoted).1]
    refine ⟨p, p', ?_, hsame, ⟨len, hquoted⟩, hreports.span_eq⟩
    -- the literal starts at a quote, where the scan for constants comes to as well
    rcases hsame.exists_head with ⟨c, t, hhead⟩
    exact visits_constantStep_of_quote skip hp hreports.moves hhead
      (quote_of_quotedLen? hhead hquoted)
  · rintro ⟨p, p', hp, hmove, ⟨len, hquoted⟩, rfl⟩
    have hsame : MovesTo literalStep p p' := by
      apply hmove.of_len_eq
      rw [len_constantStep_literal hquoted, (literalStep_literal hquoted).1]
    rcases tokensOf_scan_of_movesTo hsame with ⟨hnone, -⟩ | ⟨token, hreports, -⟩
    · have := (literalStep_literal hquoted).2
      rw [hnone] at this
      cases this
    · exact ⟨token, mem_tokensOf_scan.2 ⟨p, p', visits_literalStep hp, hreports⟩, hreports.span_eq⟩

theorem forward_literalSpans {s : Span} (h : s ∈ literalSpans text) : s.start ≤ s.stop := by
  rcases (mem_literalSpans SpanSet.empty).1 h with ⟨p, p', -, hmove, -, rfl⟩
  exact Nat.le_of_lt hmove.offset_lt

/-- The offsets inside literals are those that the scan for constants passes in a closed literal. -/
theorem contains_literals (skip : SpanSet) {offset : Nat} :
    (Literals.ofText text).all.contains offset = true ↔
      ∃ p p', Visits (constantStep skip) (Place.start text) p ∧
        MovesTo (constantStep skip) p p' ∧ (∃ len, quotedLen? p.rest = some len) ∧
        p.offset ≤ offset ∧ offset < p'.offset := by
  rw [all_ofText, SpanSet.contains_ofSpans fun _ => forward_literalSpans]
  constructor
  · rintro ⟨s, hs, hcontains⟩
    rcases (mem_literalSpans skip).1 hs with ⟨p, p', hp, hmove, hquoted, rfl⟩
    exact ⟨p, p', hp, hmove, hquoted, Span.contains_eq_true.1 hcontains⟩
  · rintro ⟨p, p', hp, hmove, hquoted, hcovers⟩
    exact ⟨_, (mem_literalSpans skip).2 ⟨p, p', hp, hmove, hquoted, rfl⟩,
      Span.contains_eq_true.2 hcovers⟩

/-- No literal starts a text that does not start with a quote. -/
theorem spanAt?_literals_zero (hdouble : c ≠ '"') (hsingle : c ≠ '\'') :
    (Literals.ofText (c :: t)).all.spanAt? 0 = none := by
  rw [SpanSet.spanAt?_eq_none, ← Bool.not_eq_true, contains_literals SpanSet.empty]
  rintro ⟨p, p', hp, -, ⟨len, hquoted⟩, hle, -⟩
  have hpstart : p = Place.start (c :: t) := by
    apply (hp.isIn (Place.isIn_start _)).eq_of_offset (Place.isIn_start _)
    exact Nat.le_zero.1 hle
  rw [hpstart] at hquoted
  rcases quote_of_quotedLen? (c := c) (t := t) rfl hquoted with hquote | hquote
  · exact hdouble hquote
  · exact hsingle hquote

/-- What is stepped over as literals ends at a place that the scan for constants comes to, and is
literals throughout. -/
theorem spanAt?_literals (skip : SpanSet) {offset : Nat} {s : Span}
    (h : (Literals.ofText text).all.spanAt? offset = some s) :
    offset < s.stop ∧
      (∃ p, Visits (constantStep skip) (Place.start text) p ∧ p.offset = s.stop) ∧
      ∀ o, offset ≤ o → o < s.stop → (Literals.ofText text).all.contains o = true := by
  rcases SpanSet.spanAt?_ofSpans (fun _ => forward_literalSpans) h with ⟨hlt, ⟨u, hu, hstop⟩, hall⟩
  rcases (mem_literalSpans skip).1 hu with ⟨p, p', hp, hmove, -, rfl⟩
  exact ⟨hlt, ⟨p', hp.tail hmove, hstop⟩, hall⟩

/-- The bytes that a move of the scan for constants passes are inside literals exactly if the move
takes one. -/
theorem contains_literals_iff (h : Visits (constantStep skip) (Place.start text) here)
    (hmove : MovesTo (constantStep skip) here there) {offset : Nat}
    (hcovers : here.offset ≤ offset ∧ offset < there.offset) :
    (Literals.ofText text).all.contains offset = true ↔
      ∃ len, quotedLen? here.rest = some len := by
  rw [contains_literals skip]
  constructor
  · rintro ⟨p, p', hp, hpm, hquoted, hpcovers⟩
    have heq : p = here :=
      Visits.eq_of_covers (Place.isIn_start text) hp h hpm hmove hpcovers hcovers
    rwa [heq] at hquoted
  · intro hquoted
    exact ⟨here, there, h, hmove, hquoted, hcovers⟩

/-- The literals of a text end within the text. -/
theorem endsIn_literals (text : Text) : (Literals.ofText text).all.EndsIn text := by
  intro s hs
  rcases SpanSet.exists_stop_eq_of_mem_ofSpans hs with ⟨u, hu, hstop⟩
  rcases (mem_literalSpans SpanSet.empty).1 hu with ⟨p, p', hp, hmove, -, rfl⟩
  have hin : p'.IsIn text := (hp.tail hmove).isIn (Place.isIn_start text)
  rw [← hstop]
  exact hin.isBoundary

/-! ## The ends of ranges -/

theorem mem_rangeEnds {pieces : List Piece} {s : Span} (h : s ∈ rangeEnds pieces) :
    ∃ p ∈ pieces, p.mark = .token .char ∧ p.span = s := by
  fun_induction rangeEnds pieces with
  | case1 low sign high rest hrange ih =>
    simp only [isCharRange, Bool.and_eq_true, decide_eq_true_eq] at hrange
    rcases List.mem_cons.1 h with rfl | h
    · exact ⟨low, by simp, hrange.1.1.1, rfl⟩
    · rcases List.mem_cons.1 h with rfl | h
      · exact ⟨high, by simp, hrange.2, rfl⟩
      · rcases ih h with ⟨p, hp, hmark⟩
        exact ⟨p, by simp [hp], hmark⟩
  | case2 low sign high rest _ ih =>
    rcases ih h with ⟨p, hp, hmark⟩
    exact ⟨p, List.mem_cons_of_mem low hp, hmark⟩
  | case3 => cases h

/-- Gathering filler leaves the tokens alone. -/
theorem tokensOf_gather (pieces : List Piece) : tokensOf (gather pieces) = tokensOf pieces := by
  unfold tokensOf
  fun_induction gather pieces with
  | case1 => rfl
  | case2 p ps q qs hg hp hq ih =>
    rw [hg] at ih
    have hpn : p.token? = none := by simp [Piece.token?, hp]
    have hqn : q.token? = none := by simp [Piece.token?, hq]
    rw [List.filterMap_cons_none hqn] at ih
    rw [List.filterMap_cons_none (by simp [Piece.token?, hp]), ih, List.filterMap_cons_none hpn]
  | case3 p ps q qs hg hp hq ih =>
    rw [hg] at ih
    rw [List.filterMap_cons, ih, List.filterMap_cons (l := ps)]
  | case4 p ps hg ih => rw [List.filterMap_cons, ih, List.filterMap_cons (l := ps)]

/-- Where the ends of the ranges of a text stand. -/
def rangeSpans (text : Text) : List Span :=
  rangeEnds (gather (scan literalStep (Place.start text)))

theorem ranges_ofText (text : Text) : (Literals.ofText text).ranges = .ofSpans (rangeSpans text) :=
  rfl

/-- The ends of ranges are literals. -/
theorem mem_literalSpans_of_mem_rangeSpans {s : Span} (h : s ∈ rangeSpans text) :
    s ∈ literalSpans text := by
  rcases mem_rangeEnds h with ⟨p, hp, hmark, rfl⟩
  have htoken : p.token? = some ⟨.char, p.text, p.span⟩ := by simp [Piece.token?, hmark]
  have hmem : (⟨.char, p.text, p.span⟩ : Token) ∈
      tokensOf (gather (scan literalStep (Place.start text))) :=
    List.mem_filterMap.2 ⟨p, hp, htoken⟩
  rw [tokensOf_gather] at hmem
  exact List.mem_map.2 ⟨_, hmem, rfl⟩

/-- An offset is in the ranges of a text if it is in an end of one. -/
theorem contains_ranges {offset : Nat} : (Literals.ofText text).ranges.contains offset = true ↔
    ∃ s ∈ rangeSpans text, s.contains offset = true := by
  rw [ranges_ofText]
  exact SpanSet.contains_ofSpans fun s hs =>
    forward_literalSpans (mem_literalSpans_of_mem_rangeSpans hs)

/-- What the ends of ranges cover is inside literals. -/
theorem contains_literals_of_ranges {offset : Nat}
    (h : (Literals.ofText text).ranges.contains offset = true) :
    (Literals.ofText text).all.contains offset = true := by
  rcases contains_ranges.1 h with ⟨s, hs, hcontains⟩
  rw [all_ofText]
  exact (SpanSet.contains_ofSpans fun _ => forward_literalSpans).2
    ⟨s, mem_literalSpans_of_mem_rangeSpans hs, hcontains⟩

/-- Nothing but a closed literal is the end of a range. -/
theorem ranges_contains_eq_false (h : Visits (constantStep skip) (Place.start text) here)
    (hmove : MovesTo (constantStep skip) here there) (hquoted : quotedLen? here.rest = none) :
    (Literals.ofText text).ranges.contains here.offset = false := by
  rw [← Bool.not_eq_true]
  intro hcontains
  have hcovers : here.offset ≤ here.offset ∧ here.offset < there.offset :=
    ⟨Nat.le_refl _, hmove.offset_lt⟩
  rcases (contains_literals_iff h hmove hcovers).1 (contains_literals_of_ranges hcontains) with
    ⟨len, hlen⟩
  rw [hquoted] at hlen
  cases hlen

/-- The bytes that a move of the scan for constants passes are inside the end of a range exactly if
the move takes one. -/
theorem contains_ranges_iff (h : Visits (constantStep skip) (Place.start text) here)
    (hmove : MovesTo (constantStep skip) here there) {offset : Nat}
    (hcovers : here.offset ≤ offset ∧ offset < there.offset) :
    (Literals.ofText text).ranges.contains offset = true ↔
      ⟨here.offset, there.offset⟩ ∈ rangeSpans text := by
  rw [contains_ranges]
  constructor
  · rintro ⟨s, hs, hcontains⟩
    rcases (mem_literalSpans skip).1 (mem_literalSpans_of_mem_rangeSpans hs) with
      ⟨p, p', hp, hpm, -, rfl⟩
    have heq : p = here := Visits.eq_of_covers (Place.isIn_start text) hp h hpm hmove
      (Span.contains_eq_true.1 hcontains) hcovers
    subst heq
    rwa [movesTo_unique hpm hmove] at hs
  · intro hs
    exact ⟨_, hs, Span.contains_eq_true.2 hcovers⟩

end Strata
