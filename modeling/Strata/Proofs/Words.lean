import Mathlib.Data.List.Sort
import Strata.Proofs.Lockstep
import Strata.Proofs.Segmented

/-!
# Which words a text has

A word starts where a letter or underscore follows no character of a word, outside the literals and
outside the numbers that the scan for constants reports. The scan for words finds one token for each
such place, in order, and nothing else. It walks the text on its own; that the two scans agree about
the numbers between them is what `InStep` carries along.

* `inStep_wordStep`: the scan for words keeps up with the scan for constants;
* `visits_wordStep`: it comes to every place outside the literals that the other one comes to;
* `tokens_tagWords`: the words of a text.
-/

namespace Strata

variable {keywords : KeywordTable} {skip : SpanSet} {here there : Place} {text : Text} {c : Char}
  {t : Text}

/-! ## The moves of the scan for words -/

/-- A word starts at a place: a letter or underscore that follows no character of a word. -/
def startsWord (here : Place) : Bool := here.peek?.any isIdentStart && atWordStart here

/-- The word at a place, as a token. -/
def wordAt (keywords : KeywordTable) (here : Place) : Token :=
  let word := here.rest.takeWhile isIdentChar
  ⟨if keywords.contains word then .keyword else .identifier, word,
    Span.ofLen here.offset (byteLen word)⟩

/-- A word starts with a letter, and no character of a word stands before it. -/
theorem exists_head_of_startsWord (h : startsWord here = true) :
    ∃ c t, here.rest = c :: t ∧ isIdentStart c = true ∧ atWordStart here = true := by
  unfold startsWord at h
  rw [Bool.and_eq_true] at h
  rcases h with ⟨hpeek, hstart⟩
  cases hrest : here.rest with
  | nil => simp [Place.peek?, hrest] at hpeek
  | cons c t => exact ⟨c, t, rfl, by simpa [Place.peek?, hrest] using hpeek, hstart⟩

theorem len_wordStep_skip {s : Span} (hskip : skip.spanAt? here.offset = some s) :
    (wordStep skip keywords here).len = s.stop - here.offset := by
  unfold wordStep
  rw [hskip]
  rfl

/-- Outside what is stepped over, a word is reported. -/
theorem wordStep_word (hskip : skip.spanAt? here.offset = none) (h : startsWord here = true) :
    wordStep skip keywords here = .report (wordAt keywords here).kind (wordLen here.rest) := by
  unfold wordStep
  rw [hskip]
  unfold startsWord at h
  simp only [h, if_true]
  rfl

theorem wordStep_number {len : Nat} (hskip : skip.spanAt? here.offset = none)
    (h : startsWord here = false) (hnumber : numberLen? here = some len) :
    wordStep skip keywords here = .pass len := by
  unfold wordStep
  rw [hskip]
  unfold startsWord at h
  simp [h, hnumber]

theorem wordStep_passOver (hskip : skip.spanAt? here.offset = none) (h : startsWord here = false)
    (hnumber : numberLen? here = none) : wordStep skip keywords here = here.passOver := by
  unfold wordStep
  rw [hskip]
  unfold startsWord at h
  simp [h, hnumber]

/-- Only words are reported. -/
theorem startsWord_of_kind {kind : Kind} (h : (wordStep skip keywords here).kind = some kind) :
    skip.spanAt? here.offset = none ∧ startsWord here = true := by
  cases hskip : skip.spanAt? here.offset with
  | some s =>
    unfold wordStep at h
    rw [hskip] at h
    cases h
  | none =>
    refine ⟨rfl, ?_⟩
    cases hword : startsWord here with
    | true => rfl
    | false =>
      cases hnumber : numberLen? here with
      | some len =>
        rw [wordStep_number hskip hword hnumber] at h
        cases h
      | none =>
        rw [wordStep_passOver hskip hword hnumber] at h
        unfold Place.passOver at h
        split at h <;> cases h

/-- At a quote outside the literals, the scan for words goes by the quote. -/
theorem len_wordStep_quote (hskip : skip.spanAt? here.offset = none) (hhead : here.rest = c :: t)
    (hquote : c = '"' ∨ c = '\'') : (wordStep skip keywords here).len = 1 := by
  have hpeek : here.peek? = some c := Place.peek?_eq_some hhead
  have hident : isIdentChar c = false := by rcases hquote with rfl | rfl <;> decide
  have hnumber : numberLen? here = none := by
    rcases hquote with rfl | rfl <;> exact numberLen?_eq_none hpeek (by decide) (by decide)
  have hword : startsWord here = false := by
    unfold startsWord
    rw [hpeek]
    rcases hquote with rfl | rfl <;> rfl
  rw [wordStep_passOver hskip hword hnumber, passOver_other hhead hident]
  rcases hquote with rfl | rfl <;> rfl

/-- Elsewhere outside the literals, both scans make moves of the same length. -/
theorem len_wordStep_eq (ranges : SpanSet) (hskip : skip.spanAt? here.offset = none)
    (hhead : here.rest = c :: t) (hdouble : c ≠ '"') (hsingle : c ≠ '\'') :
    (wordStep skip keywords here).len = (constantStep ranges here).len := by
  have hpeek : here.peek? = some c := Place.peek?_eq_some hhead
  cases hword : startsWord here with
  | true =>
    rcases exists_head_of_startsWord hword with ⟨d, u, hrest, hletter, -⟩
    obtain ⟨rfl, rfl⟩ := List.cons.inj (hhead.symm.trans hrest)
    have hne := ne_of_isIdentStart hletter
    rw [wordStep_word hskip hword, len_constantStep_word hhead
      (isIdentChar_of_isIdentStart hletter) (numberLen?_eq_none hpeek hne.1 hne.2.1)]
    rfl
  | false =>
    cases hnumber : numberLen? here with
    | some len =>
      rw [wordStep_number hskip hword hnumber, len_constantStep_number hnumber]
      rfl
    | none =>
      rw [wordStep_passOver hskip hword hnumber]
      cases hident : isIdentChar c with
      | true =>
        rw [passOver_word hhead hident, len_constantStep_word hhead hident hnumber]
        rfl
      | false =>
        rw [passOver_other hhead hident, constantStep_other hhead hident hdouble hsingle hnumber]

/-! ## The two scans side by side -/

/-- Every move of the scan for words keeps up with the scan for constants. -/
theorem InStep.wordStep (ranges : SpanSet) (h : InStep ranges text here)
    (hmove : MovesTo (wordStep (Literals.ofText text).all keywords) here there) :
    InStep ranges text there := by
  cases hskip : (Literals.ofText text).all.spanAt? here.offset with
  | some s =>
    exact h.of_spanAt? hskip hmove (len_wordStep_skip hskip)
  | none =>
    have houtside := SpanSet.spanAt?_eq_none.1 hskip
    rcases hmove.exists_head with ⟨c, t, hhead⟩
    by_cases hquote : c = '"' ∨ c = '\''
    · exact h.of_quote houtside hhead hquote hmove (len_wordStep_quote hskip hhead hquote)
    · rw [not_or] at hquote
      exact h.of_same_len hhead hquote.2 hmove
        (len_wordStep_eq ranges hskip hhead hquote.1 hquote.2)

/-- Each place of the scan for words is one of the scan for constants, or stands between two single
quotes. -/
theorem inStep_wordStep (ranges : SpanSet)
    (h : Visits (wordStep (Literals.ofText text).all keywords) (Place.start text) here) :
    InStep ranges text here := by
  induction h with
  | refl => exact inStep_start
  | tail _ hmove ih => exact ih.wordStep ranges hmove

/-- The scan for words comes to every place outside the literals that the scan for constants comes
to. -/
theorem visits_wordStep (ranges : SpanSet) (keywords : KeywordTable)
    (h : Visits (constantStep ranges) (Place.start text) here) (hhead : here.rest = c :: t)
    (houtside : (Literals.ofText text).all.contains here.offset = false) :
    Visits (wordStep (Literals.ofText text).all keywords) (Place.start text) here := by
  have hin : here.IsIn text := h.isIn (Place.isIn_start text)
  rcases advances_constantStep text ranges here hin (by simp [hhead]) with ⟨there, hmove⟩
  rcases exists_visits_over (advances_wordStep keywords (endsIn_literals text)) hin hhead with
    ⟨p, p', _, _, hp, hpm, ⟨hle, hlt⟩, -⟩
  have hpin : p.IsIn text := hp.isIn (Place.isIn_start text)
  -- the move over the place starts there: each move away from literals is one that the scan for
  -- constants makes, too
  suffices heq : p = here by
    rw [← heq]
    exact hp
  cases hskip : (Literals.ofText text).all.spanAt? p.offset with
  | some s =>
    -- the place would be inside literals
    rcases spanAt?_literals ranges hskip with ⟨hltp, -, hall⟩
    have hlen : p'.offset = s.stop := by
      rw [hpm.offset_eq, len_wordStep_skip hskip]
      omega
    have hinside := hall here.offset hle (by omega)
    rw [houtside] at hinside
    cases hinside
  | none =>
    rcases hpm.exists_head with ⟨d, u, hpd⟩
    by_cases hquote : d = '"' ∨ d = '\''
    · -- a move of one byte
      apply hpin.eq_of_offset hin
      have := hpm.offset_eq
      rw [len_wordStep_quote hskip hpd hquote] at this
      omega
    · rw [not_or] at hquote
      have hpc := (inStep_wordStep ranges hp).visits hpd hquote.2
      have hpcm : MovesTo (constantStep ranges) p p' :=
        hpm.of_len_eq (len_wordStep_eq ranges hskip hpd hquote.1 hquote.2).symm
      exact Visits.eq_of_covers (Place.isIn_start text) hpc h hpcm hmove ⟨hle, hlt⟩
        ⟨Nat.le_refl _, hmove.offset_lt⟩

/-! ## Words and numbers -/

/-- Only numbers are reported as numbers. -/
theorem numberLen?_of_kind {kind : Kind} (hhead : here.rest = c :: t)
    (hkind : (constantStep skip here).kind = some kind) (hnumber : kind.isNumber = true) :
    ∃ len, numberLen? here = some len := by
  -- a constant inside `skip` is reported as unknown, which is no number either
  have hdemoted : ∀ k : Kind, k.isNumber = false →
      (skip.demoted here.offset k).isNumber = false := by
    intro k hk
    unfold SpanSet.demoted
    split
    · rfl
    · exact hk
  have hmove : ConstantMove skip here := constantStep_cases hhead
  cases hmove with
  | @literal k _ _ hk hstep =>
    rw [hstep] at hkind
    have heq : skip.demoted here.offset k = kind := by simpa [Move.report] using hkind
    have hnot := hdemoted k (by rcases hk with rfl | rfl <;> rfl)
    rw [heq, hnumber] at hnot
    cases hnot
  | emptyPair _ hstep =>
    rw [hstep] at hkind
    cases hkind
    cases hnumber
  | number hsome _ _ _ => exact ⟨_, hsome⟩
  | truth _ _ _ hstep =>
    rw [hstep] at hkind
    have heq : skip.demoted here.offset .bool = kind := by simpa [Move.report] using hkind
    have hnot := hdemoted .bool rfl
    rw [heq, hnumber] at hnot
    cases hnot
  | word _ _ _ hstep =>
    rw [hstep] at hkind
    cases hkind
  | other _ _ _ _ _ hstep =>
    rw [hstep] at hkind
    cases hkind

/-- No number is an end of a range of characters. -/
theorem ranges_contains_eq_false_of_number {len : Nat}
    (h : Visits (constantStep skip) (Place.start text) here) (hnumber : numberLen? here = some len)
    (hmove : MovesTo (constantStep skip) here there) :
    (Literals.ofText text).ranges.contains here.offset = false := by
  rcases exists_constantAt_of_numberLen? hnumber with ⟨rule, _, front, hat, hkind, -⟩
  exact ranges_contains_eq_false h hmove (hat.quotedLen?_eq_none hkind)

/-- A number that the scan for constants comes to is reported. -/
theorem exists_number_of_visits {len : Nat}
    (h : Visits (constantStep (Literals.ofText text).ranges) (Place.start text) here)
    (hnumber : numberLen? here = some len) :
    ∃ k ∈ tokensOf (scan (constantStep (Literals.ofText text).ranges) (Place.start text)),
      k.kind.isNumber = true ∧ k.span = ⟨here.offset, here.offset + len⟩ := by
  rcases exists_constantAt_of_numberLen? hnumber with ⟨rule, _, front, hat, hkind, hmatch⟩
  have hstep : constantStep (Literals.ofText text).ranges here =
      .report ((Literals.ofText text).ranges.demoted here.offset rule.kind) len :=
    constantStep_of_match hmatch
  have hmove : MovesTo (constantStep (Literals.ofText text).ranges) here (here.past front _) :=
    movesTo_past hat.ne_nil hat.rest_eq (by rw [hstep, hat.byteLen_eq]; rfl)
  have hnot := ranges_contains_eq_false_of_number h hnumber hmove
  rcases tokensOf_scan_of_movesTo hmove with ⟨hnone, -⟩ | ⟨k, hreports, -⟩
  · rw [hstep] at hnone
    cases hnone
  · refine ⟨k, mem_tokensOf_scan.2 ⟨here, _, h, hreports⟩, ?_, ?_⟩
    · have hk := hreports.kind_eq
      rw [hstep, SpanSet.demoted, hnot] at hk
      have hk : rule.kind = k.kind := by simpa [Move.report] using hk
      rw [← hk, hkind]
    · rw [hreports.span_eq, Place.past_offset, hat.byteLen_eq]

/-- Behind the first character of a run of word characters, no word starts. -/
theorem eq_nil_of_atWordStart {p : Place} {a b back : Text}
    (hrun : a ++ b = p.rest.takeWhile isIdentChar) (h : atWordStart (p.past a back) = true) :
    a = [] := by
  by_contra hne
  rcases Option.isSome_iff_exists.1 (List.getLast?_isSome.2 hne) with ⟨d, hd⟩
  have hmem : d ∈ p.rest.takeWhile isIdentChar := by
    rw [← hrun]
    exact List.mem_append_left b (List.mem_of_getLast? hd)
  have hident : isIdentChar d = true := List.all_eq_true.1 List.all_takeWhile d hmem
  simp [atWordStart, Place.past, hd, hident] at h

/-- The scan for constants comes to every place where a word starts, if that is inside neither a
literal nor a number. -/
theorem visits_constantStep_of_startsWord (hin : here.IsIn text) (hword : startsWord here = true)
    (houtside : (Literals.ofText text).all.contains here.offset = false)
    (hnumber : ∀ k ∈ tokensOf (scan (constantStep (Literals.ofText text).ranges)
      (Place.start text)), k.kind.isNumber = true → k.span.contains here.offset = false) :
    Visits (constantStep (Literals.ofText text).ranges) (Place.start text) here := by
  rcases exists_head_of_startsWord hword with ⟨c, t, hhead, hletter, hstart⟩
  rcases exists_visits_over (advances_constantStep text (Literals.ofText text).ranges) hin hhead
    with ⟨p, p', a, b, hp, hpm, hcovers, hrest, hlen, hhere⟩
  -- what the move over the place takes, by its length
  have hpassed : ∀ f u, p.rest = f ++ u →
      byteLen f = (constantStep (Literals.ofText text).ranges p).len → a ++ c :: b = f := by
    intro f u hf hflen
    exact (append_inj_of_byteLen (hrest.symm.trans hf) (hlen.trans hflen.symm)).1
  rw [hhere] at hstart
  -- the move starts at the place: what it takes before the place would hold a character of a word
  suffices hfirst : a = [] by
    subst hfirst
    have hahead : c :: b ++ p'.rest = p.rest := hrest.symm
    rw [hhere, hahead, Place.past_nil]
    exact hp
  rcases hpm.exists_head with ⟨d, u, hpd⟩
  have hmove : ConstantMove (Literals.ofText text).ranges p := constantStep_cases hpd
  cases hmove with
  | literal hquoted _ _ =>
    have := (contains_literals _).2 ⟨p, p', hp, hpm, ⟨_, hquoted⟩, hcovers⟩
    rw [houtside] at this
    cases this
  | emptyPair hpair hstep =>
    have hquotes : a ++ c :: b = ['\'', '\''] := hpassed _ _ hpair (by rw [hstep]; rfl)
    have hmem : c ∈ a ++ c :: b := by simp
    have hc : c = '\'' := by simpa [hquotes] using hmem
    exact absurd hc (ne_of_isIdentStart hletter).2.2.2
  | number hsome _ _ hstep =>
    rcases exists_number_of_visits hp hsome with ⟨k, hk, hkind, hspan⟩
    have hapart := hnumber k hk hkind
    have hoffset := hpm.offset_eq
    rw [len_constantStep_number hsome] at hoffset
    rw [hspan, ← hoffset, Span.contains_eq_true.2 hcovers] at hapart
    cases hapart
  | truth _ _ _ hstep =>
    have hrun := hpassed _ _ List.takeWhile_append_dropWhile.symm (by rw [hstep]; rfl)
    exact eq_nil_of_atWordStart hrun hstart
  | word _ _ _ hstep =>
    have hrun := hpassed _ _ List.takeWhile_append_dropWhile.symm (by rw [hstep]; rfl)
    exact eq_nil_of_atWordStart hrun hstart
  | @other e _ hother _ _ _ _ hstep =>
    have hsingle : a ++ c :: b = [e] := hpassed _ _ hother (by rw [hstep]; simp [Move.pass])
    cases a with
    | nil => rfl
    | cons x a => simp at hsingle

/-! ## The words of a text -/

/-- A word starts at a place, outside the literals and the numbers. -/
def isWordPlace (literals : SpanSet) (constants : List Token) (here : Place) : Bool :=
  startsWord here && !literals.contains here.offset &&
    !constants.any fun k => k.kind.isNumber && k.span.contains here.offset

theorem isWordPlace_eq_true {literals : SpanSet} {constants : List Token} :
    isWordPlace literals constants here = true ↔
      startsWord here = true ∧ literals.contains here.offset = false ∧
        ∀ k ∈ constants, k.kind.isNumber = true → k.span.contains here.offset = false := by
  simp [isWordPlace, and_assoc]

/-- At the start of a word, the scan for constants reports a truth value if anything. -/
theorem eq_bool_of_startsWord {kind : Kind} (hword : startsWord here = true)
    (hkind : (constantStep skip here).kind = some kind) (hconstant : kind.isConstant = true) :
    kind = .bool := by
  rcases exists_head_of_startsWord hword with ⟨c, t, hhead, hletter, -⟩
  rcases ne_of_isIdentStart hletter with ⟨hdigit, hdot, hdouble, hsingle⟩
  cases hmatch : matchConstant here with
  | none =>
    rw [constantStep_of_none hmatch, passOver_word hhead (isIdentChar_of_isIdentStart hletter)]
      at hkind
    cases hkind
  | some pair =>
    have hpeek : here.peek? = some c := Place.peek?_eq_some hhead
    rcases eq_bool_of_matchConstant hpeek hdigit hdot hdouble hsingle hmatch with ⟨-, hrule, -, -⟩
    rw [constantStep_of_match hmatch, hrule] at hkind
    have heq : skip.demoted here.offset .bool = kind := Option.some.inj hkind
    unfold SpanSet.demoted at heq
    split at heq
    · rw [← heq] at hconstant
      cases hconstant
    · exact heq.symm

/-- Outside what is stepped over, the scan for words reports the words. -/
theorem reports_wordAt (hskip : skip.spanAt? here.offset = none) (hword : startsWord here = true) :
    Reports (wordStep skip keywords) here
      (here.past (here.rest.takeWhile isIdentChar) (here.rest.dropWhile isIdentChar))
      (wordAt keywords here) where
  moves := by
    rcases exists_head_of_startsWord hword with ⟨c, t, hhead, hletter, -⟩
    refine movesTo_past ?_ List.takeWhile_append_dropWhile.symm ?_
    · simp [hhead, isIdentChar_of_isIdentStart hletter]
    · rw [wordStep_word hskip hword]
      rfl
  kind_eq := by
    rw [wordStep_word hskip hword]
    rfl
  rest_eq := List.takeWhile_append_dropWhile.symm
  span_eq := rfl

/-- Where the scan for words finds a word, no number covers it. -/
theorem apart_of_visits_wordStep
    (h : Visits (wordStep (Literals.ofText text).all keywords) (Place.start text) here)
    (hword : startsWord here = true) {k : Token}
    (hk : k ∈ tokensOf (scan (constantStep (Literals.ofText text).ranges) (Place.start text)))
    (hnumber : k.kind.isNumber = true) : k.span.contains here.offset = false := by
  by_contra hcontains
  rcases exists_head_of_startsWord hword with ⟨c, t, hhead, hletter, -⟩
  rcases ne_of_isIdentStart hletter with ⟨hdigit, hdot, -, hsingle⟩
  have hin : here.IsIn text := h.isIn (Place.isIn_start text)
  have hvisits := (inStep_wordStep (Literals.ofText text).ranges h).visits hhead hsingle
  rcases mem_tokensOf_scan.1 hk with ⟨q, q', hq, hreports⟩
  rw [Bool.not_eq_false, hreports.span_eq, Span.contains_eq_true] at hcontains
  rcases advances_constantStep text (Literals.ofText text).ranges here hin (by simp [hhead]) with
    ⟨there, hmove⟩
  have heq : q = here := Visits.eq_of_covers (Place.isIn_start text) hq hvisits hreports.moves hmove
    hcontains ⟨Nat.le_refl _, hmove.offset_lt⟩
  rw [heq] at hreports
  rcases numberLen?_of_kind hhead hreports.kind_eq hnumber with ⟨len, hlen⟩
  rcases digit_or_dot_of_numberLen? hhead hlen with h | h
  · rw [hdigit] at h
    cases h
  · exact hdot h

/-- The words are reported at the places where a word starts outside the literals and numbers. -/
theorem mem_words {token : Token} :
    token ∈ tokensOf (scan (wordStep (Literals.ofText text).all keywords) (Place.start text)) ↔
      ∃ p ∈ places text, isWordPlace (Literals.ofText text).all
        (tokensOf (scan (constantStep (Literals.ofText text).ranges) (Place.start text))) p = true ∧
        wordAt keywords p = token := by
  rw [mem_tokensOf_scan]
  constructor
  · rintro ⟨p, p', hp, hreports⟩
    rcases startsWord_of_kind hreports.kind_eq with ⟨hskip, hword⟩
    rcases exists_head_of_startsWord hword with ⟨c, t, hhead, -, -⟩
    have hin : p.IsIn text := hp.isIn (Place.isIn_start text)
    have houtside := SpanSet.spanAt?_eq_none.1 hskip
    refine ⟨p, mem_places.2 ⟨hin, by simp [hhead]⟩, ?_, ?_⟩
    · exact isWordPlace_eq_true.2
        ⟨hword, houtside, fun k hk hnumber => apart_of_visits_wordStep hp hword hk hnumber⟩
    · exact (reports_wordAt hskip hword).unique hreports
  · rintro ⟨p, hp, hplace, rfl⟩
    rcases mem_places.1 hp with ⟨hin, -⟩
    rcases isWordPlace_eq_true.1 hplace with ⟨hword, houtside, hnumber⟩
    rcases exists_head_of_startsWord hword with ⟨c, t, hhead, -, -⟩
    have hpc := visits_constantStep_of_startsWord hin hword houtside hnumber
    have hpw := visits_wordStep (Literals.ofText text).ranges keywords hpc hhead houtside
    exact ⟨p, _, hpw, reports_wordAt (SpanSet.spanAt?_eq_none.2 houtside) hword⟩

/-- Well-formed tokens come in the order of where they start. -/
theorem Segmented.pairwise_start {tokens : List Token} (h : Segmented text tokens) :
    tokens.Pairwise fun s t => s.span.start < t.span.start := by
  refine List.Pairwise.imp_of_mem ?_ h.apart
  intro s t hs _ hle
  have := (h.slices s hs).1
  omega

/-- Lists of tokens in the order of where they start are equal if they hold the same tokens. -/
theorem eq_of_pairwise_start {l l' : List Token}
    (hl : l.Pairwise fun s t => s.span.start < t.span.start)
    (hl' : l'.Pairwise fun s t => s.span.start < t.span.start) (h : ∀ t, t ∈ l ↔ t ∈ l') :
    l = l' := by
  have : Std.Antisymm fun s t : Token => s.span.start < t.span.start :=
    ⟨fun s t hst hts => absurd hst (Nat.lt_asymm hts)⟩
  have : Std.Irrefl fun s t : Token => s.span.start < t.span.start :=
    ⟨fun s => Nat.lt_irrefl _⟩
  exact hl.eq_of_mem_iff hl' h

/-- The words of a text are the maximal runs of word characters that start at a letter or an
underscore, outside the literals and the numbers, each a keyword exactly if the table lists it. They
share bytes with no constants but truth values. -/
theorem tokens_tagWords (text : Text) (keywords : KeywordTable) :
    ∃ constants words, tagConstants text (Literals.ofText text).ranges = .ok constants ∧
      tagWords text (Literals.ofText text).all keywords = .ok words ∧
      words.tokens =
        ((places text).filter (isWordPlace (Literals.ofText text).all constants.tokens)).map
          (wordAt keywords) ∧
      ∀ w ∈ words.tokens, ∀ k ∈ constants.tokens, k.kind.isConstant = true →
        w.span.overlaps k.span = true → k.kind = .bool := by
  refine ⟨_, _, ofScan_eq_ok (advances_constantStep text _),
    ofScan_eq_ok (advances_wordStep keywords (endsIn_literals text)), ?_, ?_⟩
  · -- both lists are in the order of where words start, so it is enough that they hold the same
    apply eq_of_pairwise_start
    · have htiled := tiled_scan (wordStep (Literals.ofText text).all keywords) (Place.start text)
      have hsegmented := segmented_tokensOf htiled (flatMap_text_scan _ (Place.start text))
      exact hsegmented.pairwise_start
    · exact List.pairwise_map.2 ((Place.pairwise_onwards none 0 text).filter _)
    · intro token
      rw [Sweep.inPlace, mem_words, List.mem_map]
      simp only [List.mem_filter, and_assoc]
      rfl
  · intro w hw k hk hconstant hoverlaps
    rcases mem_tokensOf_scan.1 hw with ⟨p, p', hp, hreports⟩
    rcases mem_tokensOf_scan.1 hk with ⟨q, q', hq, hqreports⟩
    rcases startsWord_of_kind hreports.kind_eq with ⟨hskip, hword⟩
    rcases exists_head_of_startsWord hword with ⟨c, t, hhead, hletter, -⟩
    rcases ne_of_isIdentStart hletter with ⟨-, -, hdouble, hsingle⟩
    have hpc := (inStep_wordStep (Literals.ofText text).ranges hp).visits hhead hsingle
    have hpm : MovesTo (constantStep (Literals.ofText text).ranges) p p' :=
      hreports.moves.of_len_eq (len_wordStep_eq _ hskip hhead hdouble hsingle).symm
    -- the two tokens share a byte, so they come from one move
    have heq : p = q := by
      rw [hreports.span_eq, hqreports.span_eq] at hoverlaps
      simp only [Span.overlaps, Bool.and_eq_true, decide_eq_true_eq] at hoverlaps
      have hplt := hpm.offset_lt
      have hqlt := hqreports.moves.offset_lt
      have hpcovers : p.offset ≤ max p.offset q.offset ∧ max p.offset q.offset < p'.offset := by
        omega
      exact Visits.eq_of_covers (Place.isIn_start text) hpc hq hpm hqreports.moves hpcovers
        (by omega)
    rw [← heq] at hqreports
    exact eq_bool_of_startsWord hword hqreports.kind_eq hconstant

end Strata
