import Strata.Proofs.Coverage
import Strata.Proofs.Faultless
import Strata.Proofs.Kept

/-!
# What the first two sweeps leave as it is

A text goes through the first two sweeps unchanged exactly if it holds no comment and its layout is
single spaces between other characters. Everything else makes it shorter, or turns layout into a
space.

* `SingleSpaced`: layout that the second sweep leaves as it is;
* `text_condenseLayout_eq_iff`: the texts that the second sweep leaves as they are;
* `textAt_condensed_eq_iff`: the texts that both leave as they are.
-/

namespace Strata

variable {text : Text} {here there q : Place} {p : Piece} {c : Char}

/-- All layout of a text is single spaces with other characters on both sides. -/
def SingleSpaced (text : Text) : Prop :=
  ∀ front c back, text = front ++ c :: back → isLayout c = true →
    c = ' ' ∧ front ≠ [] ∧ ∃ d tail, back = d :: tail ∧ isLayout d = false

/-! ## The runs of a text -/

/-- A piece is the run from one place to another. -/
structure Piece.RunsFrom (p : Piece) (q there : Place) : Prop where
  isRun : p.IsRun
  start_eq : p.start = q.offset
  rest_eq : q.rest = p.text ++ there.rest
  next : p.mark = .token .whitespace → there.rest.head?.any isLayout = false

/-- Each piece is the run from a place that the scan comes to. -/
theorem exists_runsFrom_of_mem (h : p ∈ scan layoutStep here) :
    ∃ q there, Visits layoutStep here q ∧ p.RunsFrom q there := by
  induction here using MovesTo.induction layoutStep with
  | next here ih =>
    by_cases hahead : here.rest = []
    · rw [scan_eq_nil hahead] at h
      cases h
    · rcases exists_run_of_scan hahead with
        ⟨r, there, hrun, hstart, hrest, hmove, hscan, hnext, -⟩
      rw [hscan] at h
      rcases List.mem_cons.1 h with rfl | h
      · exact ⟨here, there, Visits.refl, hrun, hstart, hrest, hnext⟩
      · rcases ih there hmove h with ⟨q, there', hvisits, hp⟩
        exact ⟨q, there', Visits.head hmove hvisits, hp⟩

/-- From each place that the scan comes to, it cuts off a run. -/
theorem exists_mem_of_visits (h : Visits layoutStep here q) (hmove : MovesTo layoutStep q there) :
    ∃ p ∈ scan layoutStep here, p.RunsFrom q there := by
  induction h using Relation.ReflTransGen.head_induction_on with
  | refl =>
    have hahead : q.rest ≠ [] := by
      rcases hmove.exists_head with ⟨c, t, hhead⟩
      simp [hhead]
    rcases exists_run_of_scan hahead with ⟨p, there', hrun, hstart, hrest, hmove', hscan, hnext, -⟩
    obtain rfl : there' = there := movesTo_unique hmove' hmove
    exact ⟨p, hscan ▸ List.mem_cons_self, hrun, hstart, hrest, hnext⟩
  | @head here mid hfirst _ ih =>
    rcases ih with ⟨p, hp, hruns⟩
    have hahead : here.rest ≠ [] := by
      rcases hfirst.exists_head with ⟨c, t, hhead⟩
      simp [hhead]
    rcases exists_run_of_scan hahead with ⟨first, mid', -, -, -, hmove', hscan, -, -⟩
    obtain rfl : mid' = mid := movesTo_unique hmove' hfirst
    exact ⟨p, hscan ▸ List.mem_cons_of_mem _ hp, hruns⟩

/-! ## Condensing -/

/-- What is left of a piece is no longer than the piece. -/
theorem Piece.IsRun.byteLen_condensed_le (h : p.IsRun) (inLen : Nat) :
    byteLen (p.condensed inLen) ≤ byteLen p.text := by
  cases h with
  | layout hmark hne _ =>
    have hpos := byteLen_pos hne
    have hone : byteLen [' '] = 1 := rfl
    simp only [Piece.condensed, Piece.token?, hmark]
    split
    · omega
    · exact Nat.zero_le _
  | other hmark _ _ => simp [Piece.condensed, Piece.token?, hmark]

/-- Parts that are no longer than others and put together are the same are the same one by one. -/
theorem eq_of_flatMap_eq {α : Type} {f g : α → Text} {as : List α}
    (hle : ∀ a ∈ as, byteLen (f a) ≤ byteLen (g a)) (h : as.flatMap f = as.flatMap g) :
    ∀ a ∈ as, f a = g a := by
  have hrest : ∀ bs : List α, (∀ b ∈ bs, byteLen (f b) ≤ byteLen (g b)) →
      byteLen (bs.flatMap f) ≤ byteLen (bs.flatMap g) := by
    intro bs hbs
    induction bs with
    | nil => exact Nat.le_refl _
    | cons b bs ih =>
      have hb := hbs b List.mem_cons_self
      have hlater := ih fun c hc => hbs c (List.mem_cons_of_mem b hc)
      rw [byteLen_flatMap_cons, byteLen_flatMap_cons]
      omega
  induction as with
  | nil => simp
  | cons a as ih =>
    have ha := hle a List.mem_cons_self
    have has := hrest as fun b hb => hle b (List.mem_cons_of_mem a hb)
    -- the first part is no longer and the others are not either, so both lengths are the same
    have hlen := congrArg byteLen h
    rw [byteLen_flatMap_cons, byteLen_flatMap_cons] at hlen
    rw [List.flatMap_cons, List.flatMap_cons] at h
    rcases append_inj_of_byteLen h (by omega) with ⟨hfirst, hlater⟩
    intro b hb
    rcases List.mem_cons.1 hb with rfl | hb
    · exact hfirst
    · exact ih (fun b hb => hle b (List.mem_cons_of_mem a hb)) hlater b hb

/-- A text stays as it is exactly if each of its runs does. -/
theorem text_condenseLayout_eq_iff_pieces : (condenseLayout text).text = text ↔
    ∀ p ∈ scan layoutStep (Place.start text), p.condensed (byteLen text) = p.text := by
  have htext : (scan layoutStep (Place.start text)).flatMap Piece.text = text :=
    flatMap_text_scan layoutStep (Place.start text)
  have hleft : (condenseLayout text).text =
      (scan layoutStep (Place.start text)).flatMap (Piece.condensed (byteLen text)) := rfl
  constructor
  · intro h
    rw [hleft] at h
    exact eq_of_flatMap_eq
      (fun p hp => (isRun_of_mem_scan hp).byteLen_condensed_le (byteLen text))
      (h.trans htext.symm)
  · intro h
    rw [hleft, List.flatMap_congr h, htext]

/-- A run of layout that stays as it is is a space inside the text. -/
theorem Piece.condensed_eq_text_iff {inLen : Nat} (hmark : p.mark = .token .whitespace)
    (hne : p.text ≠ []) : p.condensed inLen = p.text ↔
      p.text = [' '] ∧ 0 < p.start ∧ p.start + byteLen p.text < inLen := by
  have hspan : p.span = ⟨p.start, p.start + byteLen p.text⟩ := rfl
  simp only [Piece.condensed, Piece.token?, hmark, hspan]
  constructor
  · intro h
    split at h
    · rename_i hinner
      exact ⟨h.symm, hinner⟩
    · exact absurd h.symm hne
  · rintro ⟨hspace, hinner⟩
    rw [if_pos hinner, hspace]

/-- The second sweep leaves exactly those texts as they are that are single spaced. -/
theorem text_condenseLayout_eq_iff : (condenseLayout text).text = text ↔ SingleSpaced text := by
  rw [text_condenseLayout_eq_iff_pieces]
  constructor
  · intro hpieces front c back htext hc
    -- the run that holds the character is a space inside the text, so it is this character alone
    rcases exists_place_between htext with ⟨here, hin, hhead, hoffset, -⟩
    rcases exists_visits_over (advances_layoutStep text) hin hhead with
      ⟨q, there, a, b, hq, hmove, -, hrest, hlen, hhere⟩
    rcases exists_mem_of_visits hq hmove with ⟨p, hp, hruns⟩
    have hqin : q.IsIn text := hq.isIn (Place.isIn_start text)
    have hptext : p.text = a ++ c :: b :=
      List.append_cancel_right (hruns.rest_eq.symm.trans hrest)
    cases hruns.isRun with
    | other _ _ hall =>
      have hnot := hall c (by rw [hptext]; simp)
      rw [hc] at hnot
      cases hnot
    | layout hmark hne _ =>
      rcases (Piece.condensed_eq_text_iff hmark hne).1 (hpieces p hp) with
        ⟨hspace, hpos, hinner⟩
      obtain ⟨rfl, rfl, rfl⟩ : a = [] ∧ c = ' ' ∧ b = [] := by
        rw [hptext] at hspace
        rcases List.append_eq_singleton_iff.1 hspace with ⟨ha, hcb⟩ | ⟨-, hcb⟩
        · exact ⟨ha, by simpa using hcb⟩
        · cases hcb
      have hback : back = there.rest := by
        have h := congrArg Place.rest hhere
        rw [hhead, Place.past_rest] at h
        exact (List.cons.inj h).2
      refine ⟨rfl, ?_, ?_⟩
      · rintro rfl
        rw [hruns.start_eq] at hpos
        have h := congrArg Place.offset hhere
        rw [hoffset, Place.past_offset] at h
        simp at h
        omega
      · have hnext := hruns.next hmark
        rw [← hback] at hnext
        cases hcase : back with
        | nil =>
          have hend := hqin.offset_le
          rw [hrest, ← hback, hcase] at hend
          rw [hruns.start_eq, hptext] at hinner
          simp at hend hinner
          omega
        | cons d tail =>
          rw [hcase] at hnext
          exact ⟨d, tail, rfl, by simpa using hnext⟩
  · intro hspaced p hp
    rcases exists_runsFrom_of_mem hp with ⟨q, there, hq, hruns⟩
    rcases hq.isIn (Place.isIn_start text) with ⟨read, hread, hoffset, -⟩
    cases hruns.isRun with
    | other hmark _ _ => simp [Piece.condensed, Piece.token?, hmark]
    | layout hmark hne hall =>
      rcases List.exists_cons_of_ne_nil hne with ⟨c, cs, hcs⟩
      have hsplit : text = read ++ c :: (cs ++ there.rest) := by
        rw [hread, hruns.rest_eq, hcs]
        rfl
      rcases hspaced read c _ hsplit (hall c (by simp [hcs])) with ⟨rfl, hfront, d, tail, hback, hd⟩
      -- the run ends where other text starts, which is right behind the space
      have hnil : cs = [] := by
        cases cs with
        | nil => rfl
        | cons x xs =>
          have hx := hall x (by simp [hcs])
          rw [(List.cons.inj hback).1, hd] at hx
          cases hx
      rw [hnil] at hcs
      rw [hnil, List.nil_append] at hback
      refine (Piece.condensed_eq_text_iff hmark hne).2 ⟨hcs, ?_, ?_⟩
      · rw [hruns.start_eq, hoffset]
        exact byteLen_pos hfront
      · have hpos := d.utf8Size_pos
        rw [hruns.start_eq, hoffset, hsplit, hcs, hnil, hback]
        simp
        omega

/-! ## Both sweeps -/

theorem byteLen_le_of_sublist {s t : Text} (h : s.Sublist t) : byteLen s ≤ byteLen t := by
  induction h with
  | slnil => exact Nat.le_refl _
  | cons c _ ih =>
    rw [byteLen_cons]
    omega
  | cons_cons c _ ih =>
    rw [byteLen_cons, byteLen_cons]
    omega

/-- A part of a text that is no shorter is the text. -/
theorem eq_of_sublist_of_byteLen {s t : Text} (h : s.Sublist t) (hlen : byteLen t ≤ byteLen s) :
    s = t := by
  induction h with
  | slnil => rfl
  | cons c hst _ =>
    have hle := byteLen_le_of_sublist hst
    have hpos := c.utf8Size_pos
    rw [byteLen_cons] at hlen
    omega
  | cons_cons c _ ih =>
    rw [byteLen_cons, byteLen_cons] at hlen
    rw [ih (by omega)]

/-- The first sweep leaves a part of the text, in order. -/
theorem sublist_text_stripComments (text : Text) : (stripComments text).text.Sublist text := by
  have h := (sublist_strippedTrail text).map (·.2)
  rwa [← text_stripComments, map_snd_located] at h

/-- The second sweep makes no text longer. -/
theorem byteLen_condenseLayout_le (text : Text) :
    byteLen (condenseLayout text).text ≤ byteLen text := by
  have hsize : byteLen (condenseLayout text).text = byteLen ((condensedTrail text).map (·.2)) := by
    rw [text_condenseLayout]
    exact byteLen_map_shownAt .condensed (condensedTrail text)
  have h := byteLen_le_of_sublist ((sublist_condensedTrail text).map (·.2))
  rw [map_snd_located] at h
  rw [hsize]
  exact h

/-- The first sweep leaves a single spaced text as it is if there is no comment in it. -/
theorem text_stripComments_of_singleSpaced (h : SingleSpaced text)
    (hcomments : ∀ t ∈ (stripComments text).tokens, t.kind ≠ .comment) :
    (stripComments text).text = text := by
  have hnone : tokensOf (scan commentStep (Place.start text)) = [] := by
    rw [← comments_stripComments, List.filter_eq_nil_iff]
    intro t ht
    simpa using hcomments t ht
  rw [text_stripComments_eq_rdropWhile, keptFrom_of_no_comment hnone, map_snd_located]
  -- the sweep also cuts off layout at the end, where a single spaced text has none
  apply List.rdropWhile_eq_self_iff.2
  intro hne hlayout
  rcases h text.dropLast (text.getLast hne) [] (List.dropLast_append_getLast hne).symm hlayout with
    ⟨-, -, d, tail, hback, -⟩
  cases hback

/-- A text comes through both sweeps as it is exactly if it holds no comment and is single
spaced. -/
theorem textAt_condensed_eq_iff : textAt text .condensed = text ↔
    (∀ t ∈ (stripComments text).tokens, t.kind ≠ .comment) ∧ SingleSpaced text := by
  change (condenseLayout (stripComments text).text).text = text ↔ _
  constructor
  · intro h
    have hcondensed := byteLen_condenseLayout_le (stripComments text).text
    rw [h] at hcondensed
    -- neither sweep makes a text longer, so the first one left it as it is
    have hstripped := eq_of_sublist_of_byteLen (sublist_text_stripComments text) hcondensed
    rw [hstripped] at h
    refine ⟨?_, text_condenseLayout_eq_iff.1 h⟩
    rw [tokens_stripComments_eq_nil hstripped]
    simp
  · rintro ⟨hcomments, hspaced⟩
    rw [text_stripComments_of_singleSpaced hspaced hcomments]
    exact text_condenseLayout_eq_iff.2 hspaced

end Strata
