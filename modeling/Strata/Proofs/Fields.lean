import Mathlib.Data.List.Basic
import Strata.Proofs.Unchanged

/-!
# The fields of a text

The fields of a text are its runs of characters that are no layout. What the second sweep leaves are
the fields with one space between two of them: from any place of its scan on, what is left are the
fields ahead, with a space before them if layout is ahead and the text has started. So all other
characters are left as they were, and a space that is left comes from the start of a run of layout.

* `fields`: what stands between the layout of a text;
* `IsLayoutRun`, `mem_tokens_condenseLayout`: the tokens of the second sweep;
* `flatMap_condensed_scan`: what is left from a place on;
* `exists_origin_of_append`: where a character that is left comes from;
* `Condenses`, `condenses_condenseLayout`: what the second sweep makes of a text.
-/

namespace Strata

variable {text t front back run word rest : Text} {here there q : Place} {c : Char} {k : Token}

/-! ## Fields -/

/-- What stands between the layout of a text. -/
def fields (t : Text) : List Text := (t.splitOnP isLayout).filter (· ≠ [])

/-- Layout stands between fields. -/
theorem fields_append_layout (hc : isLayout c = true) (front back : Text) :
    fields (front ++ c :: back) = fields front ++ fields back := by
  rw [fields, List.splitOnP_append_cons front back hc, List.filter_append]
  rfl

/-- Layout ahead of a text adds no field. -/
theorem fields_run_append (hall : ∀ c ∈ run, isLayout c = true) (back : Text) :
    fields (run ++ back) = fields back := by
  induction run with
  | nil => rfl
  | cons c run ih =>
    have hfirst := fields_append_layout (hall c List.mem_cons_self) [] (run ++ back)
    rw [List.cons_append]
    rw [ih fun d hd => hall d (List.mem_cons_of_mem c hd)] at hfirst
    exact hfirst

/-- Other characters up to layout, or to the end, are a field. -/
theorem fields_word_append (hne : word ≠ []) (hall : ∀ c ∈ word, isLayout c = false)
    (hback : ∀ c ∈ back.head?, isLayout c = true) :
    fields (word ++ back) = word :: fields back := by
  have hword : fields word = [word] := by
    rw [fields, List.splitOnP_eq_singleton hall, List.filter_cons_of_pos (by simpa using hne)]
    rfl
  cases back with
  | nil =>
    rw [List.append_nil, hword]
    rfl
  | cons c back =>
    rw [fields_append_layout (hback c rfl), hword]
    exact congrArg (word :: ·) (fields_append_layout (hback c rfl) [] back).symm

/-- A text that starts with no layout holds a field, unless it is empty. -/
theorem fields_eq_nil (h : ∀ c ∈ t.head?, isLayout c = false) : fields t = [] ↔ t = [] := by
  constructor
  · intro hnil
    by_contra hne
    have hword : t.takeWhile (!isLayout ·) ≠ [] := by
      rcases List.exists_cons_of_ne_nil hne with ⟨c, u, rfl⟩
      simp [h c rfl]
    have hsplit : t.takeWhile (!isLayout ·) ++ t.dropWhile (!isLayout ·) = t :=
      List.takeWhile_append_dropWhile
    rw [← hsplit, fields_word_append hword] at hnil
    · cases hnil
    · intro c hc
      simpa using List.all_eq_true.1 List.all_takeWhile c hc
    · intro c hc
      simpa using eq_false_of_mem_head?_dropWhile hc
  · rintro rfl
    rfl

/-- No field is empty or holds layout. -/
theorem of_mem_fields (h : word ∈ fields t) : word ≠ [] ∧ ∀ c ∈ word, isLayout c = false := by
  rcases List.mem_filter.1 h with ⟨hmem, hne⟩
  refine ⟨by simpa using hne, ?_⟩
  clear h hne
  induction t generalizing word with
  | nil =>
    rw [List.splitOnP_nil, List.mem_singleton] at hmem
    simp [hmem]
  | cons c t ih =>
    rw [List.splitOnP_cons_eq_if_modifyHead] at hmem
    split at hmem
    · rcases List.mem_cons.1 hmem with rfl | hmem
      · simp
      · exact ih hmem
    · rename_i hc
      -- the character lengthens the first part of what is behind it
      rcases List.exists_cons_of_ne_nil (List.splitOnP_ne_nil isLayout t) with
        ⟨first, others, hsplit⟩
      rw [hsplit, List.modifyHead_cons] at hmem
      rw [hsplit] at ih
      rcases List.mem_cons.1 hmem with rfl | hmem
      · intro d hd
        rcases List.mem_cons.1 hd with rfl | hd
        · simpa using hc
        · exact ih List.mem_cons_self d hd
      · exact ih (List.mem_cons_of_mem first hmem)

/-- A word, a space and a single spaced text that starts with no layout are single spaced. -/
theorem SingleSpaced.word_append (hrest : SingleSpaced rest)
    (hhead : ∃ d tail, rest = d :: tail ∧ isLayout d = false) (hne : word ≠ [])
    (hall : ∀ c ∈ word, isLayout c = false) : SingleSpaced (word ++ ' ' :: rest) := by
  intro front c back htext hc
  have hword : c ∉ word := by
    intro hmem
    rw [hall c hmem] at hc
    cases hc
  rcases List.append_eq_append_iff.1 htext with
    ⟨_ | ⟨e, between⟩, hfront, hbetween⟩ | ⟨_ | ⟨e, behind⟩, hfront, hbehind⟩
  · obtain ⟨rfl, rfl⟩ := List.cons.inj hbetween
    exact ⟨rfl, by simp [hfront, hne], hhead⟩
  · obtain ⟨-, htail⟩ := List.cons.inj hbetween
    rcases hrest between c back htail hc with ⟨hspace, -, hnext⟩
    exact ⟨hspace, by simp [hfront], hnext⟩
  · obtain ⟨rfl, rfl⟩ := List.cons.inj hbehind
    rw [List.append_nil] at hfront
    exact ⟨rfl, hfront ▸ hne, hhead⟩
  · obtain ⟨rfl, -⟩ := List.cons.inj hbehind
    exact absurd (by simp [hfront]) hword

/-- Words with one space between two of them are single spaced. -/
theorem singleSpaced_intercalate {words : List Text}
    (h : ∀ word ∈ words, word ≠ [] ∧ ∀ c ∈ word, isLayout c = false) :
    SingleSpaced ([' '].intercalate words) := by
  induction words with
  | nil =>
    intro front c back htext
    cases front <;> cases htext
  | cons word words ih =>
    rcases h word List.mem_cons_self with ⟨hne, hall⟩
    have hwords := ih fun w hw => h w (List.mem_cons_of_mem word hw)
    cases words with
    | nil =>
      intro front c back htext hc
      rw [List.intercalate_singleton] at htext
      have hplain := hall c (by simp [htext])
      rw [hc] at hplain
      cases hplain
    | cons second words =>
      rcases h second (by simp) with ⟨hsecond, hplain⟩
      rcases List.exists_cons_of_ne_nil hsecond with ⟨d, second, rfl⟩
      rw [List.intercalate_cons_cons, List.append_assoc]
      refine hwords.word_append ?_ hne hall
      cases words with
      | nil => exact ⟨d, second, List.intercalate_singleton, hplain d List.mem_cons_self⟩
      | cons third words =>
        exact ⟨d, _, List.intercalate_cons_cons, hplain d List.mem_cons_self⟩

/-! ## The moves of the scan for layout -/

/-- The scan takes all characters ahead that are layout if the first one is. -/
theorem exists_run_of_movesTo (h : MovesTo layoutStep here there) (hrest : here.rest = c :: t) :
    ∃ run, run ≠ [] ∧ here.rest = run ++ there.rest ∧ there = here.past run there.rest ∧
      (∀ d ∈ run, isLayout d = isLayout c) ∧ ∀ d ∈ there.rest.head?, isLayout d = !isLayout c := by
  rcases h with ⟨run, hne, hsplit, hlen, hthere⟩
  refine ⟨run, hne, hsplit, hthere, ?_⟩
  cases hc : isLayout c with
  | true =>
    rw [layoutStep_layout hrest hc] at hlen
    exact byteLen_takeWhile_eq.1 (hsplit ▸ hlen.symm)
  | false =>
    rw [layoutStep_other hrest hc] at hlen
    have hrun := byteLen_takeWhile_eq.1 (hsplit ▸ hlen.symm)
    simpa using hrun

/-- What the scan reports is layout. -/
theorem kind_layoutStep {kind : Kind} (hrest : here.rest = c :: t) :
    (layoutStep here).kind = some kind ↔ isLayout c = true ∧ kind = .whitespace := by
  cases hc : isLayout c with
  | true =>
    rw [layoutStep_layout hrest hc]
    simp [Move.report, eq_comm]
  | false =>
    rw [layoutStep_other hrest hc]
    simp [Move.pass]

/-- The scan comes only to places where layout ends or starts. -/
theorem isLayout_before_of_visits (h : Visits layoutStep (Place.start text) q)
    (hrest : q.rest = c :: t) : ∀ d ∈ q.before, isLayout d = !isLayout c := by
  cases h using Relation.ReflTransGen.casesOn with
  | refl =>
    intro d hd
    cases hd
  | @tail p _ _ hmove =>
    rcases hmove.exists_head with ⟨e, u, hhead⟩
    rcases exists_run_of_movesTo hmove hhead with ⟨run, hne, -, hq, hrun, hnext⟩
    intro d hd
    rcases List.eq_nil_or_concat run with hnil | ⟨init, last, hlast⟩
    · exact absurd hnil hne
    · have hd : d = last := by
        rw [hq, Place.past, hlast] at hd
        simpa [eq_comm] using hd
      rw [hnext c (by rw [hrest]; rfl), Bool.not_not, hd]
      exact hrun last (by simp [hlast])

/-! ## The tokens -/

/-- A part of a text is a run of layout that goes on neither before it nor behind it. -/
structure IsLayoutRun (front run back : Text) : Prop where
  ne_nil : run ≠ []
  layout : ∀ c ∈ run, isLayout c = true
  before : ∀ c ∈ front.getLast?, isLayout c = false
  behind : ∀ c ∈ back.head?, isLayout c = false

/-- Only one run of layout starts at a place. -/
theorem IsLayoutRun.unique {front' run' back' : Text} (h : IsLayoutRun front run back)
    (h' : IsLayoutRun front' run' back') (heq : run ++ back = run' ++ back') : run = run' := by
  have hlen := byteLen_takeWhile_eq.2 ⟨h.layout, h.behind⟩
  have hlen' := byteLen_takeWhile_eq.2 ⟨h'.layout, h'.behind⟩
  rw [heq] at hlen
  exact (append_inj_of_byteLen heq (hlen.symm.trans hlen')).1

/-- The scan comes to the start of each run of layout. -/
theorem visits_of_isLayoutRun (hrun : IsLayoutRun front run back)
    (htext : text = front ++ (run ++ back)) :
    ∃ q there, Visits layoutStep (Place.start text) q ∧ MovesTo layoutStep q there ∧
      q.offset = byteLen front ∧ q.rest = run ++ back := by
  rcases List.exists_cons_of_ne_nil hrun.ne_nil with ⟨c, u, hcons⟩
  rcases exists_place_between htext with ⟨here, hin, hrest, hoffset, hbefore⟩
  have hhead : here.rest = c :: (u ++ back) := by
    rw [hrest, hcons]
    rfl
  rcases exists_visits_over (advances_layoutStep text) hin hhead with
    ⟨q, there, a, b, hq, hmove, -, hsplit, -, hpast⟩
  rcases hmove.exists_head with ⟨d, v, hqhead⟩
  rcases exists_run_of_movesTo hmove hqhead with ⟨taken, -, htaken, -, hall, -⟩
  obtain rfl : taken = a ++ c :: b := List.append_cancel_right (htaken.symm.trans hsplit)
  have hd : isLayout d = true := by
    rw [← hall c (by simp)]
    exact hrun.layout c (by simp [hcons])
  -- layout before the run would belong to it
  rcases List.eq_nil_or_concat a with rfl | ⟨init, last, rfl⟩
  · rw [List.nil_append] at hsplit
    obtain rfl : here = q := by
      rw [hpast, ← hsplit]
      exact Place.past_nil q
    exact ⟨here, there, hq, hmove, hoffset, hrest⟩
  · have hmem : last ∈ front.getLast? := by
      rw [← hbefore, hpast, Place.past]
      simp
    have hlayout := hall last (by simp)
    rw [hrun.before last hmem, hd] at hlayout
    cases hlayout

/-- The tokens of the second sweep are the runs of layout. -/
theorem mem_tokens_condenseLayout : k ∈ (condenseLayout text).tokens ↔
    ∃ front back, text = front ++ (k.lexeme ++ back) ∧ IsLayoutRun front k.lexeme back ∧
      k.kind = .whitespace ∧ k.span = Span.ofLen (byteLen front) (byteLen k.lexeme) := by
  have htokens : (condenseLayout text).tokens = tokensOf (scan layoutStep (Place.start text)) := rfl
  rw [htokens, mem_tokensOf_scan]
  constructor
  · rintro ⟨q, there, hq, hreports⟩
    rcases hq.isIn (Place.isIn_start text) with ⟨front, htext, hoffset, hbefore⟩
    rcases hreports.moves.exists_head with ⟨c, t, hhead⟩
    rcases (kind_layoutStep hhead).1 hreports.kind_eq with ⟨hc, hkind⟩
    rcases exists_run_of_movesTo hreports.moves hhead with ⟨run, hne, hsplit, hthere, hall, hnext⟩
    obtain rfl : k.lexeme = run := List.append_cancel_right (hreports.rest_eq.symm.trans hsplit)
    have hlast := isLayout_before_of_visits hq hhead
    rw [hbefore] at hlast
    rw [hc] at hall hnext hlast
    refine ⟨front, there.rest, hsplit ▸ htext, ⟨hne, hall, hlast, hnext⟩, hkind, ?_⟩
    rw [hreports.span_eq, hthere, Place.past_offset, hoffset]
    rfl
  · rintro ⟨front, back, htext, hrun, hkind, hspan⟩
    rcases visits_of_isLayoutRun hrun htext with ⟨q, there, hq, hmove, hoffset, hrest⟩
    rcases hmove.exists_head with ⟨c, t, hhead⟩
    rcases exists_run_of_movesTo hmove hhead with ⟨run, hne, hsplit, hthere, hall, hnext⟩
    have hc : isLayout c = true := by
      apply hrun.layout
      rcases List.exists_cons_of_ne_nil hrun.ne_nil with ⟨d, u, hcons⟩
      rw [hrest, hcons] at hhead
      rw [hcons, (List.cons.inj hhead).1]
      exact List.mem_cons_self
    rw [hc] at hall hnext
    -- the move takes a run of layout that starts where this one does
    obtain rfl : k.lexeme = run := hrun.unique ⟨hne, hall, hrun.before, hnext⟩
      (hrest.symm.trans hsplit)
    refine ⟨q, there, hq, hmove, (kind_layoutStep hhead).2 ⟨hc, hkind⟩, hsplit, ?_⟩
    rw [hspan, hthere, Place.past_offset, hoffset]
    rfl

/-! ## What is left -/

/-- What is left of a run of layout, by the places around it. -/
theorem Piece.condensed_layout {p : Piece} (hin : there.IsIn text)
    (hmark : p.mark = .token .whitespace) (hstart : p.start = here.offset)
    (hstop : there.offset = here.offset + byteLen p.text)
    (hnext : ∀ c ∈ there.rest.head?, isLayout c = false) : p.condensed (byteLen text) =
      if 0 < here.offset ∧ fields there.rest ≠ [] then [' '] else [] := by
  have hinner : p.span.stop < byteLen text ↔ fields there.rest ≠ [] := by
    have hend := hin.offset_le
    have hspan : p.span.stop = there.offset := by rw [hstop, ← hstart]; rfl
    rw [hspan, Ne, fields_eq_nil hnext]
    constructor
    · intro hlt hnil
      rw [hnil, byteLen_nil] at hend
      omega
    · intro hne
      have := byteLen_pos hne
      omega
  have hfirst : p.span.start = here.offset := hstart
  simp only [Piece.condensed, Piece.token?, hmark, hinner, hfirst]

/-- Behind a field, a space stands before the next one. -/
theorem append_intercalate_fields {offset : Nat} (hoffset : 0 < offset)
    (hback : ∀ c ∈ back.head?, isLayout c = true) (word : Text) :
    word ++
        ((if 0 < offset ∧ back.head?.any isLayout = true ∧ fields back ≠ [] then [' '] else []) ++
          [' '].intercalate (fields back)) =
      [' '].intercalate (word :: fields back) := by
  cases hfields : fields back with
  | nil => simp
  | cons second words =>
    have hlayout : back.head?.any isLayout = true := by
      cases hrest : back with
      | nil =>
        rw [hrest] at hfields
        cases hfields
      | cons d u => simpa [hrest] using hback
    simp [hlayout, hoffset]

/-- What is left from a place of the scan on are the fields ahead with one space between two of
them, and a space before them if there is layout between them and other text behind the place. -/
theorem flatMap_condensed_scan (hin : here.IsIn text) :
    (scan layoutStep here).flatMap (Piece.condensed (byteLen text)) =
      (if 0 < here.offset ∧ here.rest.head?.any isLayout = true ∧ fields here.rest ≠ [] then [' ']
        else []) ++ [' '].intercalate (fields here.rest) := by
  induction here using MovesTo.induction layoutStep with
  | next here ih =>
    by_cases hahead : here.rest = []
    · rw [scan_eq_nil hahead, hahead]
      simp [fields]
    · rcases exists_run_of_scan hahead with ⟨p, there, hrun, hstart, hsplit, hmove, hscan, -, -⟩
      rcases List.exists_cons_of_ne_nil hahead with ⟨c, t, hhead⟩
      rcases exists_run_of_movesTo hmove hhead with ⟨taken, hne, htaken, hthere, hall, hnext⟩
      obtain rfl : p.text = taken := List.append_cancel_right (hsplit.symm.trans htaken)
      have hstop : there.offset = here.offset + byteLen p.text := by rw [hthere, Place.past_offset]
      have hany : here.rest.head?.any isLayout = isLayout c := by simp [hhead]
      rw [hscan, List.flatMap_cons, ih there hmove (hmove.isIn hin), hany]
      have hmem : c ∈ p.text := by
        rcases List.exists_cons_of_ne_nil hne with ⟨d, u, hcons⟩
        rw [hsplit, hcons] at hhead
        rw [hcons, (List.cons.inj hhead).1]
        exact List.mem_cons_self
      cases hrun with
      | layout hmark _ hlayout =>
        -- what is behind the run starts with a field, so the space stands for the run alone
        have hc : isLayout c = true := hlayout c hmem
        have hfields : fields here.rest = fields there.rest :=
          hsplit ▸ fields_run_append hlayout there.rest
        simp only [hc, Bool.not_true] at hnext
        have hplain : there.rest.head?.any isLayout = false := by
          simpa [Option.any_eq_false] using hnext
        rw [Piece.condensed_layout (hmove.isIn hin) hmark hstart hstop hnext, hfields, hc, hplain]
        simp
      | other hmark _ hplain =>
        have hc : isLayout c = false := hplain c hmem
        simp only [hc, Bool.not_false] at hnext
        have hfields : fields here.rest = p.text :: fields there.rest :=
          hsplit ▸ fields_word_append hne hplain hnext
        have hcondensed : p.condensed (byteLen text) = p.text := by
          simp [Piece.condensed, Piece.token?, hmark]
        have hstarted : 0 < there.offset := by
          have := byteLen_pos hne
          omega
        rw [hcondensed, hfields, hc, append_intercalate_fields hstarted hnext]
        simp

/-- What the second sweep leaves are the fields of its text with one space between two of them. -/
theorem text_condenseLayout_eq_intercalate (text : Text) :
    (condenseLayout text).text = [' '].intercalate (fields text) := by
  have hleft := flatMap_condensed_scan (Place.isIn_start text)
  rw [if_neg fun h => Nat.lt_irrefl 0 h.1] at hleft
  exact hleft

/-! ## Where it comes from -/

/-- All characters that are no layout are left, where they stand. -/
theorem filter_condensedTrail (text : Text) :
    (condensedTrail text).filter (fun x => !isLayout x.2) =
      (located id 0 text).filter fun x => !isLayout x.2 := by
  have hlocated := flatMap_located_of_tiled (tiled_scan layoutStep (Place.start text))
  rw [flatMap_text_scan] at hlocated
  have htext : located id 0 text = (scan layoutStep (Place.start text)).flatMap
      fun p => located id p.start p.text := hlocated.symm
  rw [condensedTrail, htext, List.filter_flatMap, List.filter_flatMap]
  apply List.flatMap_congr
  intro p hp
  cases isRun_of_mem_scan hp with
  | layout hmark _ hall =>
    have hnone : (located id p.start p.text).filter (fun x => !isLayout x.2) = [] := by
      rw [List.filter_eq_nil_iff]
      intro x hx
      simp [hall x.2 (mem_text_of_located hx)]
    have hkept : (p.condensedTrail (byteLen text)).Sublist (located id p.start p.text) := by
      unfold Piece.condensedTrail
      split
      · exact List.Sublist.refl _
      · split
        · exact List.take_sublist 1 _
        · exact List.nil_sublist _
    have hsub := hkept.filter fun x => !isLayout x.2
    rw [hnone] at hsub
    rw [hnone, List.sublist_nil.1 hsub]
  | other hmark _ _ => simp [Piece.condensedTrail, Piece.token?, hmark]

/-- Layout that is left comes from where a run of it starts. -/
theorem exists_token_of_mem_condensedTrail {x : Nat × Char} (hx : x ∈ condensedTrail text)
    (hlayout : isLayout x.2 = true) : ∃ k ∈ (condenseLayout text).tokens, k.span.start = x.1 := by
  rcases List.mem_flatMap.1 hx with ⟨p, hp, hx⟩
  cases isRun_of_mem_scan hp with
  | layout hmark hne _ =>
    rcases List.exists_cons_of_ne_nil hne with ⟨c, t, hcons⟩
    have htoken : p.token? = some ⟨.whitespace, p.text, p.span⟩ := by simp [Piece.token?, hmark]
    refine ⟨_, List.mem_filterMap.2 ⟨p, hp, htoken⟩, ?_⟩
    rw [Piece.condensedTrail, htoken] at hx
    dsimp only at hx
    split at hx
    · rw [hcons, located_cons, List.take_succ_cons, List.take_zero, List.mem_singleton] at hx
      rw [hx]
      rfl
    · cases hx
  | other hmark _ hall =>
    rw [Piece.condensedTrail, Piece.token?, hmark] at hx
    rw [hall x.2 (mem_text_of_located hx)] at hlayout
    cases hlayout

/-- In a list in order, what comes before an element is less. -/
theorem filter_lt_of_pairwise {xs ys : List (Nat × Char)} {x : Nat × Char}
    (h : (xs ++ x :: ys).Pairwise fun a b => a.1 < b.1) :
    (xs ++ x :: ys).filter (fun y => y.1 < x.1) = xs := by
  rcases List.pairwise_append.1 h with ⟨-, hbehind, hacross⟩
  have hfront : xs.filter (fun y => y.1 < x.1) = xs := by
    apply List.filter_eq_self.2
    intro y hy
    simpa using hacross y hy x List.mem_cons_self
  have hback : (x :: ys).filter (fun y => y.1 < x.1) = [] := by
    apply List.filter_eq_nil_iff.2
    intro y hy
    rcases List.mem_cons.1 hy with rfl | hy
    · simp
    · have := (List.pairwise_cons.1 hbehind).1 y hy
      simp only [decide_eq_true_eq]
      omega
  rw [List.filter_append, hfront, hback, List.append_nil]

/-- Two lists in order that hold the same elements of a class hold the same ones before an element
of both. -/
theorem filter_front_eq {xs ys xs' ys' : List (Nat × Char)} {x : Nat × Char}
    {ok : Nat × Char → Bool} (hxs : (xs ++ x :: ys).Pairwise fun a b => a.1 < b.1)
    (hxs' : (xs' ++ x :: ys').Pairwise fun a b => a.1 < b.1)
    (h : (xs ++ x :: ys).filter ok = (xs' ++ x :: ys').filter ok) :
    xs.filter ok = xs'.filter ok := by
  calc xs.filter ok
    _ = ((xs ++ x :: ys).filter fun y => y.1 < x.1).filter ok := by rw [filter_lt_of_pairwise hxs]
    _ = ((xs ++ x :: ys).filter ok).filter fun y => y.1 < x.1 := List.filter_comm ..
    _ = ((xs' ++ x :: ys').filter ok).filter fun y => y.1 < x.1 := by rw [h]
    _ = ((xs' ++ x :: ys').filter fun y => y.1 < x.1).filter ok := List.filter_comm ..
    _ = xs'.filter ok := by rw [filter_lt_of_pairwise hxs']

theorem isLayout_spaced (c : Char) : isLayout (spaced c) = isLayout c := by
  unfold spaced
  split
  · rename_i h
    rw [h]
    decide
  · rfl

/-- Writing layout as spaces changes no other character. -/
theorem filter_map_spaced (trail : List (Nat × Char)) :
    (trail.map fun x => spaced x.2).filter (!isLayout ·) =
      (trail.filter fun x => !isLayout x.2).map (·.2) := by
  rw [List.filter_map]
  have hsame : ((!isLayout ·) ∘ fun x : Nat × Char => spaced x.2) = fun x => !isLayout x.2 := by
    funext x
    exact congrArg (!·) (isLayout_spaced x.2)
  rw [hsame]
  apply List.map_congr_left
  intro x hx
  have hplain := (List.mem_filter.1 hx).2
  unfold spaced
  rw [if_neg (by simpa using hplain)]

theorem filter_map_snd (trail : List (Nat × Char)) :
    (trail.map (·.2)).filter (!isLayout ·) = (trail.filter fun x => !isLayout x.2).map (·.2) :=
  List.filter_map

/-- The characters that are no layout are left, in order. -/
theorem filter_text_condenseLayout (text : Text) :
    (condenseLayout text).text.filter (!isLayout ·) = text.filter (!isLayout ·) := by
  have htext := filter_map_snd (located id 0 text)
  rw [map_snd_located] at htext
  rw [text_condenseLayout, filter_map_spaced, filter_condensedTrail, htext]

/-- Before a character that is left, the trail holds the other characters that the text does. -/
theorem filter_front_condensedTrail {xs ys : List (Nat × Char)} {x : Nat × Char}
    (htrail : condensedTrail text = xs ++ x :: ys) (htext : text = front ++ x.2 :: back)
    (hoffset : x.1 = byteLen front) :
    front.filter (!isLayout ·) = (xs.filter fun y => !isLayout y.2).map (·.2) := by
  have hall : located id 0 text =
      located id 0 front ++ x :: located id (x.1 + x.2.utf8Size) back := by
    rw [htext, located_append, List.map_id, Nat.zero_add, ← hoffset]
    rfl
  have hordered : (located id 0 text).Pairwise fun a b => a.1 < b.1 := pairwise_located
  have htrailordered := hordered.sublist (sublist_condensedTrail text)
  have hsame := filter_condensedTrail text
  rw [htrail] at hsame htrailordered
  rw [hall] at hsame hordered
  have hfront := filter_map_snd (located id 0 front)
  rw [map_snd_located] at hfront
  rw [hfront, filter_front_eq htrailordered hordered hsame]

/-- The map of the second sweep leads the bytes of a character that is left to where it stands in
the trail. -/
theorem toSource_condenseLayout {xs ys : List (Nat × Char)} {x : Nat × Char}
    (htrail : condensedTrail text = xs ++ x :: ys) {j : Nat} (hj : j < x.2.utf8Size) :
    (condenseLayout text).origin.toSource (byteLen (xs.map fun y => spaced y.2) + j) = x.1 + j := by
  have hlen : byteLen (xs.map fun y => spaced y.2) = byteLen (xs.map (·.2)) :=
    byteLen_map_shownAt .condensed xs
  have hlocated : (byteLen (xs.map (·.2)), x) ∈
      located (fun x => x.2) 0 (condensedTrail text) := by
    rw [htrail, located_append, Nat.zero_add]
    exact List.mem_append_right _ List.mem_cons_self
  rw [hlen]
  exact (copies_condenseLayout text).traces.toSource_of_located hlocated hj

/-- A character that is left comes from one behind the same other characters: from itself, or from
the start of a run of layout. -/
theorem exists_origin_of_append (htext : (condenseLayout text).text = front ++ c :: back) :
    ∃ front' d back', text = front' ++ d :: back' ∧
      front'.filter (!isLayout ·) = front.filter (!isLayout ·) ∧
      (∀ j < c.utf8Size,
        (condenseLayout text).origin.toSource (byteLen front + j) = byteLen front' + j) ∧
      (isLayout c = false → d = c) ∧
      (isLayout c = true → ∃ k ∈ (condenseLayout text).tokens, k.span.start = byteLen front') := by
  rw [text_condenseLayout] at htext
  rcases List.map_eq_append_iff.1 htext with ⟨xs, others, htrail, rfl, hothers⟩
  rcases List.map_eq_cons_iff.1 hothers with ⟨x, ys, rfl, rfl, -⟩
  have hmem : x ∈ condensedTrail text := by
    rw [htrail]
    exact List.mem_append_right xs List.mem_cons_self
  rcases mem_located ((sublist_condensedTrail text).subset hmem) with
    ⟨front', back', hsplit, hoffset⟩
  rw [List.map_id] at hoffset
  refine ⟨front', x.2, back', hsplit, ?_, ?_, ?_, ?_⟩
  · rw [filter_front_condensedTrail htrail hsplit hoffset, filter_map_spaced]
  · intro j hj
    rw [utf8Size_spaced] at hj
    rw [toSource_condenseLayout htrail hj, hoffset]
  · intro hplain
    rw [isLayout_spaced] at hplain
    rw [spaced, if_neg (by simp [hplain])]
  · intro hlayout
    rw [isLayout_spaced] at hlayout
    rcases exists_token_of_mem_condensedTrail hmem hlayout with ⟨k, hk, hstart⟩
    exact ⟨k, hk, hstart.trans hoffset⟩

/-! ## The second sweep -/

/-- A sweep over a text leaves its fields with one space between two of them, and its tokens are the
runs of layout. -/
structure Condenses (text : Text) (s : Sweep) : Prop where
  left : s.text = [' '].intercalate (fields text)
  singleSpaced : SingleSpaced s.text
  /-- The other characters are left as they are. -/
  others : s.text.filter (!isLayout ·) = text.filter (!isLayout ·)
  /-- What is left would stay as it is. -/
  stays : (condenseLayout s.text).text = s.text
  sliced : Sliced text s.tokens
  tokens : ∀ k, k ∈ s.tokens ↔ ∃ front back, text = front ++ (k.lexeme ++ back) ∧
    IsLayoutRun front k.lexeme back ∧ k.kind = .whitespace ∧
      k.span = Span.ofLen (byteLen front) (byteLen k.lexeme)
  /-- A character that is left comes from one behind the same other characters: from itself, byte by
  byte, or from the start of a run of layout. -/
  origins : ∀ front c back, s.text = front ++ c :: back → ∃ front' d back',
    text = front' ++ d :: back' ∧ front'.filter (!isLayout ·) = front.filter (!isLayout ·) ∧
      (∀ j < c.utf8Size, s.origin.toSource (byteLen front + j) = byteLen front' + j) ∧
      (isLayout c = false → d = c) ∧
      (isLayout c = true → ∃ k ∈ s.tokens, k.span.start = byteLen front')

/-- The second sweep leaves the fields of a text with one space between two of them. -/
theorem condenses_condenseLayout (text : Text) : Condenses text (condenseLayout text) := by
  have hspaced : SingleSpaced (condenseLayout text).text := by
    rw [text_condenseLayout_eq_intercalate]
    exact singleSpaced_intercalate fun word hword => of_mem_fields hword
  exact
    { left := text_condenseLayout_eq_intercalate text
      singleSpaced := hspaced
      others := filter_text_condenseLayout text
      stays := text_condenseLayout_eq_iff.2 hspaced
      sliced := (segmented_condenseLayout text).toSliced
      tokens := fun _ => mem_tokens_condenseLayout
      origins := fun _ _ _ htext => exists_origin_of_append htext }

end Strata
