import Strata.Proofs.Literals

/-!
# Scans that keep up with the scan for constants

The scans for words and for symbols step over literals as they were looked up, and go by single
quotes where the scan for constants takes an empty pair of them at once. Apart from that they come
to the same places. `InStep` is what their moves preserve.

* `InStep.of_spanAt?`, `InStep.of_quote`, `InStep.of_same_len`: the moves that preserve it;
* `InStep.visits`: away from quotes, both scans are at the same place.
-/

namespace Strata

variable {skip : SpanSet} {step : Place → Move} {here there : Place} {text : Text} {c : Char}
  {t : Text}

/-- The scan for constants comes to the place, or steps over it between two single quotes. -/
inductive InStep (skip : SpanSet) (text : Text) (here : Place) : Prop
  | same (h : Visits (constantStep skip) (Place.start text) here)
  | paired {p : Place} {t : Text} (hp : Visits (constantStep skip) (Place.start text) p)
      (hrest : p.rest = '\'' :: '\'' :: t) (hhere : here = p.past ['\''] ('\'' :: t))

theorem inStep_start : InStep skip text (Place.start text) := .same Visits.refl

/-- A place that is in step is a place of the text. -/
theorem InStep.isIn (h : InStep skip text here) : here.IsIn text := by
  cases h with
  | same h => exact h.isIn (Place.isIn_start text)
  | paired hp hrest hhere =>
    rw [hhere]
    exact (hp.isIn (Place.isIn_start text)).past hrest

/-- Away from quotes, both scans are at the same place. -/
theorem InStep.visits (h : InStep skip text here) (hhead : here.rest = c :: t)
    (hsingle : c ≠ '\'') : Visits (constantStep skip) (Place.start text) here := by
  cases h with
  | same h => exact h
  | paired hp hrest hhere =>
    rw [hhere] at hhead
    have hc : '\'' = c := by simpa using congrArg List.head? hhead
    exact absurd hc.symm hsingle

/-- Between two single quotes, the scan for constants is one byte further on. -/
theorem movesTo_emptyPair (skip : SpanSet) {p : Place}
    (hrest : p.rest = '\'' :: '\'' :: t) :
    MovesTo (constantStep skip) p (p.past ['\'', '\''] t) ∧
      constantStep skip p = .report .unknown 2 := by
  have hmatch : matchConstant p = some (ConstantRule.emptyChar, 2) := by
    rw [matchConstant_singleQuote hrest, hrest, quotedLen?_pair]
    simp
  have hstep : constantStep skip p = .report .unknown 2 := by
    rw [constantStep_of_match hmatch]
    simp [SpanSet.demoted, ConstantRule.emptyChar]
  exact ⟨movesTo_past (by simp) hrest (by rw [hstep]; rfl), hstep⟩

/-- Outside the literals, no closed literal starts where the scan for constants comes to. -/
theorem quotedLen?_eq_none_of_visits (h : Visits (constantStep skip) (Place.start text) here)
    (houtside : (Literals.ofText text).all.contains here.offset = false) :
    quotedLen? here.rest = none := by
  cases hquoted : quotedLen? here.rest with
  | none => rfl
  | some len =>
    have hcan : here.CanPass (constantStep skip here).len := by
      rw [len_constantStep_literal hquoted]
      exact canPass_of_quotedLen? hquoted
    rcases hcan.exists_movesTo with ⟨there, hmove⟩
    have hinside := (contains_literals skip).2
      ⟨here, there, h, hmove, ⟨len, hquoted⟩, Nat.le_refl _, hmove.offset_lt⟩
    rw [houtside] at hinside
    cases hinside

/-- At a quote that starts no closed literal, the scan for constants takes an empty pair of single
quotes or goes by the quote. -/
theorem constantStep_quote (hhead : here.rest = c :: t) (hquote : c = '"' ∨ c = '\'')
    (hquoted : quotedLen? here.rest = none) :
    (c = '\'' ∧ ∃ t', t = '\'' :: t') ∨ constantStep skip here = .pass c.utf8Size := by
  have hident : isIdentChar c = false := by rcases hquote with rfl | rfl <;> decide
  have hmove : ConstantMove skip here := constantStep_cases hhead
  cases hmove with
  | literal hsome _ _ =>
    rw [hquoted] at hsome
    cases hsome
  | emptyPair hrest _ =>
    obtain ⟨hc, ht⟩ := List.cons.inj (hhead.symm.trans hrest)
    exact Or.inl ⟨hc, _, ht⟩
  | number _ hat hkind _ =>
    -- no number holds a quote
    rcases List.exists_cons_of_ne_nil hat.ne_nil with ⟨d, front, rfl⟩
    have hd := hat.unquoted hkind d List.mem_cons_self
    rw [← Place.head_unique hhead hat.rest_eq] at hd
    rcases hquote with rfl | rfl
    · exact absurd rfl hd.1
    · exact absurd rfl hd.2
  | truth hrest hletter _ _ =>
    have := isIdentChar_of_isIdentStart hletter
    rw [← Place.head_unique hhead hrest, hident] at this
    cases this
  | word hrest hword _ _ =>
    rw [← Place.head_unique hhead hrest, hident] at hword
    cases hword
  | other hrest _ _ _ _ hstep =>
    rw [← Place.head_unique hhead hrest] at hstep
    exact Or.inr hstep

/-! ## Moves that keep up -/

/-- Stepping over literals leads to the end of one. -/
theorem InStep.of_spanAt? {s : Span} (h : InStep skip text here)
    (hs : (Literals.ofText text).all.spanAt? here.offset = some s)
    (hmove : MovesTo step here there) (hlen : (step here).len = s.stop - here.offset) :
    InStep skip text there := by
  rcases spanAt?_literals skip hs with ⟨hlt, ⟨p, hp, hstop⟩, -⟩
  have hoffset : p.offset = there.offset := by
    rw [hmove.offset_eq, hlen]
    omega
  rw [← (hp.isIn (Place.isIn_start text)).eq_of_offset (hmove.isIn h.isIn) hoffset]
  exact .same hp

/-- Going by one quote outside the literals. -/
theorem InStep.of_quote (h : InStep skip text here)
    (houtside : (Literals.ofText text).all.contains here.offset = false)
    (hhead : here.rest = c :: t) (hquote : c = '"' ∨ c = '\'')
    (hmove : MovesTo step here there) (hlen : (step here).len = 1) : InStep skip text there := by
  have hsize : c.utf8Size = 1 := by rcases hquote with rfl | rfl <;> rfl
  have hthere : there = here.past [c] t := by
    have hpast : MovesTo step here (here.past [c] t) :=
      movesTo_past (by simp) hhead (by simp [hlen, hsize])
    exact movesTo_unique hmove hpast
  cases h with
  | same h =>
    have hquoted := quotedLen?_eq_none_of_visits h houtside
    rcases constantStep_quote hhead hquote hquoted with ⟨rfl, t', rfl⟩ | hstep
    · exact .paired h hhead hthere
    · exact .same (h.tail (hmove.of_len_eq (by rw [hstep, hlen, Move.pass, hsize])))
  | @paired p t' hp hrest hhere =>
    have ht : t = t' := by
      rw [hhere] at hhead
      have := (List.cons.inj hhead).2
      exact this.symm
    have hend : there = p.past ['\'', '\''] t' := by
      have hc : c = '\'' := by
        rw [hhere] at hhead
        exact (List.cons.inj hhead).1.symm
      rw [hthere, hhere, Place.past_past, hc, ht]
      rfl
    rw [hend]
    exact .same (hp.tail (movesTo_emptyPair _ hrest).1)

/-- A move away from quotes that is as long as the one of the scan for constants. -/
theorem InStep.of_same_len (h : InStep skip text here) (hhead : here.rest = c :: t)
    (hsingle : c ≠ '\'') (hmove : MovesTo step here there)
    (hlen : (step here).len = (constantStep skip here).len) : InStep skip text there :=
  .same ((h.visits hhead hsingle).tail (hmove.of_len_eq hlen.symm))

end Strata
