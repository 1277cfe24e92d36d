import Strata.Proofs.LiteralTokens
import Strata.Proofs.Outcome
import Strata.Proofs.Quoted
import Strata.Proofs.Symbols

/-!
# What no sweep reports

The sweeps for constants, words and symbols step over what they leave to one another. A literal is
always a token of the first of them, and a character that is neither layout nor in a word is a
symbol or unknown to the last one. But each of the three steps over a run of word characters that
starts with a digit and is no number, as `12ab`, and over what goes on right behind a number, as the
`89` of `0789`. Behind `...` before a digit the sweep for symbols has lost step, and may take for a
number what the sweep for constants does not: of `...5.` the first reports `.5`, the last steps over
`5.`, and the last point is no token at all.

* `isCovered_of_visits`: a byte is covered exactly if the move over it reports a token;
* `holdsStray_iff`: the word characters that nothing covers;
* `isMisread_iff`: the other characters that nothing covers;
* `IsMisread.eq_of_isIdentChar`: they are points and signs;
* `IsMisread.exists_points`: they stand behind `...` before a digit.
-/

namespace Strata

variable {text t : Text} {here there p p' : Place} {c d : Char} {offset : Nat} {token : Token}
  {step : Place → Move} {skip ranges : SpanSet} {keywords : KeywordTable}

/-! ## Covered bytes -/

/-- Whether one of the tokens covers a byte. -/
def isCovered (tokens : List Token) (offset : Nat) : Bool := tokens.any (·.span.contains offset)

theorem isCovered_eq_true {tokens : List Token} :
    isCovered tokens offset = true ↔ ∃ t ∈ tokens, t.span.contains offset = true := by
  simp [isCovered]

/-- A byte is covered exactly if the move over it reports a token. -/
theorem isCovered_of_visits (h : Visits step (Place.start text) p) (hmove : MovesTo step p p')
    (hcovers : p.offset ≤ offset ∧ offset < p'.offset) :
    isCovered (tokensOf (scan step (Place.start text))) offset = (step p).kind.isSome := by
  rcases tokensOf_scan_of_movesTo hmove with ⟨hnone, -⟩ | ⟨token, hreports, -⟩
  · rw [hnone, Option.isSome_none, ← Bool.not_eq_true, isCovered_eq_true]
    rintro ⟨token, htoken, hcontains⟩
    rcases mem_tokensOf_scan.1 htoken with ⟨q, q', hq, hreports⟩
    have heq : p = q := Visits.eq_of_covers (Place.isIn_start text) h hq hmove hreports.moves
      hcovers (hreports.contains_iff.1 hcontains)
    rw [heq, hreports.kind_eq] at hnone
    cases hnone
  · rw [hreports.kind_eq, Option.isSome_some, isCovered_eq_true]
    exact ⟨token, mem_tokensOf_scan.2 ⟨p, p', h, hreports⟩, hreports.contains_iff.2 hcovers⟩

/-- A token that covers a character holds it. -/
theorem Reports.mem_lexeme (h : Reports step p p' token) (hp : p.IsIn text) (hin : here.IsIn text)
    (hhead : here.rest = c :: t) (hcontains : token.span.contains here.offset = true) :
    c ∈ token.lexeme := by
  rw [h.contains_iff] at hcontains
  have hlt : here.offset < p.offset + byteLen token.lexeme := by
    rw [h.byteLen_lexeme, ← h.moves.offset_eq]
    exact hcontains.2
  rcases hp.exists_inside hin h.rest_eq hcontains.1 hlt with ⟨a, b, hb, hlexeme, hhere⟩
  rcases List.exists_cons_of_ne_nil hb with ⟨d, b, rfl⟩
  rw [hhere, Place.past_rest] at hhead
  rw [hlexeme, ← (List.cons.inj hhead).1]
  exact List.mem_append_right a List.mem_cons_self

/-- The place between two parts of a text. -/
theorem exists_place_between {front back : Text} (htext : text = front ++ back) :
    ∃ here : Place, here.IsIn text ∧ here.rest = back ∧ here.offset = byteLen front ∧
      here.before = front.getLast? :=
  ⟨⟨front.getLast?, byteLen front, back⟩, ⟨front, htext, rfl, rfl⟩, rfl, rfl, rfl⟩

/-! ## What words and symbols are made of -/

theorem eq_singleton_of_byteLen {front back : Text} (hrest : p.rest = front ++ back)
    (hhead : p.rest = c :: t) (hlen : byteLen front = c.utf8Size) : front = [c] := by
  have hsplit : front ++ back = [c] ++ t := hrest.symm.trans hhead
  exact (append_inj_of_byteLen hsplit (by simpa using hlen)).1

/-- A word that is reported goes on as far as the characters of words do. -/
theorem Reports.lexeme_eq_takeWhile (h : Reports (wordStep skip keywords) p p' token) :
    token.lexeme = p.rest.takeWhile isIdentChar ∧ startsWord p = true := by
  rcases startsWord_of_kind h.kind_eq with ⟨hskip, hword⟩
  rw [h.unique (reports_wordAt hskip hword)]
  exact ⟨rfl, hword⟩

theorem isIdentChar_of_mem_takeWhile (h : c ∈ t.takeWhile isIdentChar) : isIdentChar c = true :=
  List.all_eq_true.1 List.all_takeWhile c h

/-- No word covers a character that is in none. -/
theorem isCovered_words_eq_false (hin : here.IsIn text) (hhead : here.rest = c :: t)
    (hc : isIdentChar c = false) :
    isCovered (tokensOf (scan (wordStep skip keywords) (Place.start text))) here.offset =
      false := by
  rw [← Bool.not_eq_true, isCovered_eq_true]
  rintro ⟨token, htoken, hcontains⟩
  rcases mem_tokensOf_scan.1 htoken with ⟨q, q', hq, hreports⟩
  have hmem := hreports.mem_lexeme (hq.isIn (Place.isIn_start text)) hin hhead hcontains
  rw [hreports.lexeme_eq_takeWhile.1] at hmem
  rw [isIdentChar_of_mem_takeWhile hmem] at hc
  cases hc

/-- Symbols of C++ and unknown characters are no word characters. -/
theorem isIdentChar_of_mem_symbol (h : Reports (symbolStep skip .cpp) p p' token)
    (hd : d ∈ token.lexeme) : isIdentChar d = false := by
  rcases h.moves.exists_head with ⟨c, t, hhead⟩
  have hkind := h.kind_eq
  have hlen := h.byteLen_lexeme
  cases hskip : skip.spanAt? p.offset with
  | some s =>
    rw [symbolStep_skip _ hskip] at hkind
    cases hkind
  | none =>
    have hcases : SymbolMove skip .cpp p c := symbolStep_cases hskip hhead
    cases hcases with
    | layout _ hstep | number _ hstep | word _ _ hstep =>
      rw [hstep] at hkind
      cases hkind
    | @symbol e _ hmatch hstep =>
      rcases SymbolTable.longestMatch_eq_some hmatch with ⟨hmem, back, hback⟩
      have hlexeme : token.lexeme = e.text := by
        rw [hstep] at hlen
        exact (append_inj_of_byteLen (h.rest_eq.symm.trans hback) hlen).1
      rw [hlexeme] at hd
      exact ((apart_of_mem_cpp hmem).1 d hd).1
    | unknown hident _ hstep =>
      rw [hstep] at hlen
      rw [eq_singleton_of_byteLen h.rest_eq hhead hlen, List.mem_singleton] at hd
      rw [hd]
      exact hident

/-- No symbol of C++ covers a word character. -/
theorem isCovered_symbols_eq_false (hin : here.IsIn text) (hhead : here.rest = c :: t)
    (hc : isIdentChar c = true) :
    isCovered (tokensOf (scan (symbolStep skip .cpp) (Place.start text))) here.offset = false := by
  rw [← Bool.not_eq_true, isCovered_eq_true]
  rintro ⟨token, htoken, hcontains⟩
  rcases mem_tokensOf_scan.1 htoken with ⟨q, q', hq, hreports⟩
  have hmem := hreports.mem_lexeme (hq.isIn (Place.isIn_start text)) hin hhead hcontains
  rw [isIdentChar_of_mem_symbol hreports hmem] at hc
  cases hc

/-- A word that the scan for constants comes to is reported. -/
theorem isCovered_of_startsWord
    (h : Visits (constantStep ranges) (Place.start text) p) (hword : startsWord p = true)
    (hmove : MovesTo (constantStep ranges) p p')
    (hcovers : p.offset ≤ offset ∧ offset < p'.offset) :
    isCovered (tokensOf (scan (wordStep (Literals.ofText text).all keywords) (Place.start text)))
      offset = true := by
  rcases exists_head_of_startsWord hword with ⟨d, u, hhead, hletter, -⟩
  rcases ne_of_isIdentStart hletter with ⟨hdigit, hdot, hdouble, hsingle⟩
  have houtside : (Literals.ofText text).all.contains p.offset = false := by
    rw [← Bool.not_eq_true, contains_literals_iff h hmove ⟨Nat.le_refl _, hmove.offset_lt⟩, hhead,
      quotedLen?_eq_none hdouble hsingle]
    rintro ⟨len, hlen⟩
    cases hlen
  have hskip := SpanSet.spanAt?_eq_none.2 houtside
  have hnumber := numberLen?_eq_none (Place.peek?_eq_some hhead) hdigit hdot
  have hstep : wordStep (Literals.ofText text).all keywords p =
      .report (wordAt keywords p).kind (wordLen p.rest) := wordStep_word hskip hword
  -- both scans take the whole run
  have hsame : MovesTo (wordStep (Literals.ofText text).all keywords) p p' := by
    apply hmove.of_len_eq
    rw [hstep, len_constantStep_word hhead (isIdentChar_of_isIdentStart hletter) hnumber]
    rfl
  rw [isCovered_of_visits (visits_wordStep ranges keywords h hhead houtside) hsame hcovers, hstep]
  rfl

/-! ## Stray runs -/

/-- A run of word characters, between the text before and the text behind, that is no word and holds
nothing of a constant: it starts with a digit, or goes on right behind a number. -/
structure IsStray (constants : List Token) (front run back : Text) : Prop where
  word : ∀ c ∈ run, isIdentChar c = true
  stop : back.head?.any isIdentChar = false
  free : ∀ offset, byteLen front ≤ offset → offset < byteLen (front ++ run) →
    isCovered constants offset = false
  starts : (front.getLast?.any isIdentChar = false ∧ run.head?.any Char.isDigit = true) ∨
    front.getLast?.any isIdentChar = true ∧
      ∃ k ∈ constants, k.kind.isNumber = true ∧ k.span.stop = byteLen front

/-- A byte of a stray run. -/
def HoldsStray (text : Text) (constants : List Token) (offset : Nat) : Prop :=
  ∃ front run back, text = front ++ run ++ back ∧ IsStray constants front run back ∧
    byteLen front ≤ offset ∧ offset < byteLen (front ++ run)

theorem eq_takeWhile_of_wordLen {front back : Text} (hrest : p.rest = front ++ back)
    (hlen : byteLen front = wordLen p.rest) : front = p.rest.takeWhile isIdentChar := by
  have hsplit : p.rest = p.rest.takeWhile isIdentChar ++ p.rest.dropWhile isIdentChar :=
    List.takeWhile_append_dropWhile.symm
  exact (append_inj_of_byteLen (hrest.symm.trans hsplit) hlen).1

/-- A whole run is not followed by a word character. -/
theorem any_head?_of_takeWhile {front back : Text} (hrest : p.rest = front ++ back)
    (hfront : front = p.rest.takeWhile isIdentChar) : back.head?.any isIdentChar = false := by
  have hsplit : front ++ back = front ++ p.rest.dropWhile isIdentChar := by
    rw [← hrest, hfront]
    exact List.takeWhile_append_dropWhile.symm
  rw [List.append_cancel_left hsplit]
  have hnext := List.head?_dropWhile_not isIdentChar p.rest
  cases hhead : (p.rest.dropWhile isIdentChar).head? with
  | none => rfl
  | some d =>
    rw [hhead] at hnext
    simpa using hnext

/-- Right behind a word character, the scan for constants comes to a word character only by a
number. -/
theorem exists_number_before
    (h : Visits (constantStep (Literals.ofText text).ranges) (Place.start text) p)
    (hbefore : p.before.any isIdentChar = true) (hhead : p.rest = c :: t)
    (hc : isIdentChar c = true) :
    ∃ k ∈ tokensOf (scan (constantStep (Literals.ofText text).ranges) (Place.start text)),
      k.kind.isNumber = true ∧ k.span.stop = p.offset := by
  rcases Relation.ReflTransGen.cases_tail h with rfl | ⟨q, hq, hmove⟩
  · cases hbefore
  have hoffset := hmove.offset_eq
  rcases hmove.exists_head with ⟨x, u, hx⟩
  rcases hmove with ⟨front, -, hrest, hlen, hp⟩
  have hlast : ∀ d, front.getLast? = some d → isIdentChar d = true := by
    intro d hd
    rw [hp] at hbefore
    simpa [Place.past, hd] using hbefore
  have hrun : byteLen front ≠ wordLen q.rest := by
    intro hword
    have hnext := any_head?_of_takeWhile hrest (eq_takeWhile_of_wordLen hrest hword)
    rw [hhead, List.head?_cons, Option.any_some, hc] at hnext
    cases hnext
  have hcases : ConstantMove (Literals.ofText text).ranges q := constantStep_cases hx
  cases hcases with
  | literal hquoted _ hstep =>
    rcases exists_of_quotedLen? hquoted with ⟨literal, back, hliteral, hsize, hquote, -⟩
    rw [hstep, ← hsize] at hlen
    rw [(append_inj_of_byteLen (hrest.symm.trans hliteral) hlen).1] at hlast
    rcases hquote with hquote | hquote
    · exact absurd (hlast _ hquote) (by decide)
    · exact absurd (hlast _ hquote) (by decide)
  | emptyPair hpair hstep =>
    rw [hstep] at hlen
    have hsplit : front ++ p.rest = ['\'', '\''] ++ _ := hrest.symm.trans hpair
    rw [(append_inj_of_byteLen hsplit hlen).1] at hlast
    exact absurd (hlast '\'' rfl) (by decide)
  | number hnumber _ _ hstep =>
    rcases exists_number_of_visits hq hnumber with ⟨k, hk, hkind, hspan⟩
    refine ⟨k, hk, hkind, ?_⟩
    rw [hspan, hoffset, hstep]
    rfl
  | truth _ _ _ hstep =>
    rw [hstep] at hlen
    exact absurd hlen hrun
  | word _ _ _ hstep =>
    rw [hstep] at hlen
    exact absurd hlen hrun
  | @other y _ hy hident _ _ _ hstep =>
    rw [hstep] at hlen
    rw [eq_singleton_of_byteLen hrest hy hlen] at hlast
    rw [hlast y rfl] at hident
    cases hident

/-- A move of the scan for constants over a word character that reports nothing steps over a run. -/
theorem eq_takeWhile_of_silent {a b back : Text} (hhead : p.rest = d :: t)
    (hrest : p.rest = (a ++ c :: b) ++ back)
    (hlen : byteLen (a ++ c :: b) = (constantStep ranges p).len) (hc : isIdentChar c = true)
    (hnone : (constantStep ranges p).kind.isSome = false) :
    a ++ c :: b = p.rest.takeWhile isIdentChar := by
  have hcases : ConstantMove ranges p := constantStep_cases hhead
  cases hcases with
  | literal _ _ hstep | emptyPair _ hstep | number _ _ _ hstep | truth _ _ _ hstep =>
    rw [hstep] at hnone
    cases hnone
  | word _ _ _ hstep =>
    rw [hstep] at hlen
    exact eq_takeWhile_of_wordLen hrest hlen
  | @other y _ hy hident _ _ _ hstep =>
    rw [hstep] at hlen
    have hmem : c ∈ a ++ c :: b := List.mem_append_right a List.mem_cons_self
    rw [eq_singleton_of_byteLen hrest hy hlen, List.mem_singleton] at hmem
    rw [hmem, hident] at hc
    cases hc

/-- A word character that neither a constant nor a word covers is in a stray run. -/
theorem holdsStray_of_uncovered (hin : here.IsIn text) (hhead : here.rest = c :: t)
    (hc : isIdentChar c = true)
    (hconstants : isCovered (tokensOf (scan (constantStep (Literals.ofText text).ranges)
      (Place.start text))) here.offset = false)
    (hwords : isCovered (tokensOf (scan (wordStep (Literals.ofText text).all keywords)
      (Place.start text))) here.offset = false) :
    HoldsStray text (tokensOf (scan (constantStep (Literals.ofText text).ranges)
      (Place.start text))) here.offset := by
  rcases exists_visits_over (advances_constantStep text (Literals.ofText text).ranges) hin hhead
    with ⟨p, p', a, b, hp, hmove, hcovers, hrest, hlen, -⟩
  have hnone : (constantStep (Literals.ofText text).ranges p).kind.isSome = false := by
    rw [← isCovered_of_visits hp hmove hcovers, hconstants]
  have hword : startsWord p = false := by
    rw [← Bool.not_eq_true]
    intro hword
    rw [isCovered_of_startsWord hp hword hmove hcovers] at hwords
    cases hwords
  rcases hmove.exists_head with ⟨d, u, hd⟩
  have hrun := eq_takeWhile_of_silent hd hrest hlen hc hnone
  have hall : ∀ x ∈ a ++ c :: b, isIdentChar x = true := by
    intro x hx
    rw [hrun] at hx
    exact isIdentChar_of_mem_takeWhile hx
  have hfirst : (a ++ c :: b).head? = some d := by
    have hboth := congrArg List.head? (hrest.symm.trans hd)
    cases a with
    | nil => exact hboth
    | cons x a => exact hboth
  have hident : isIdentChar d = true := hall d (List.mem_of_mem_head? hfirst)
  have hstop : p'.offset = p.offset + byteLen (a ++ c :: b) := by rw [hmove.offset_eq, hlen]
  rcases hp.isIn (Place.isIn_start text) with ⟨read, htext, hoffset, hbefore⟩
  have hbytes : byteLen (read ++ (a ++ c :: b)) = p'.offset := by
    rw [byteLen_append, ← hoffset, hstop]
  refine ⟨read, a ++ c :: b, p'.rest, ?_, ⟨hall, any_head?_of_takeWhile hrest hrun, ?_, ?_⟩, ?_, ?_⟩
  · rw [htext, hrest, List.append_assoc, List.append_assoc, List.append_assoc]
  · intro o hle hlt
    rw [isCovered_of_visits hp hmove ⟨hoffset ▸ hle, hbytes ▸ hlt⟩, hnone]
  · rw [← hbefore, ← hoffset]
    cases hb : p.before.any isIdentChar with
    | true => exact Or.inr ⟨rfl, exists_number_before hp hb hd hident⟩
    | false =>
      refine Or.inl ⟨rfl, ?_⟩
      rw [hfirst, Option.any_some]
      -- at the start of a word, only a digit starts no identifier
      simp only [startsWord, atWordStart, Place.peek?_eq_some hd, hb, Option.any_some,
        Bool.not_false, Bool.and_true] at hword
      simp only [isIdentStart, Bool.or_eq_false_iff] at hword
      simpa [isIdentChar, Char.isAlphanum, hword.1, hword.2] using hident
  · rw [← hoffset]
    exact hcovers.1
  · rw [hbytes]
    exact hcovers.2

/-- Inside a run of word characters, the last character passed is one. -/
theorem any_before_of_inside {q : Place} {run back : Text} (hp : p.IsIn text) (hq : q.IsIn text)
    (hrest : p.rest = run ++ back) (hrun : ∀ c ∈ run, isIdentChar c = true)
    (hle : p.offset < q.offset) (hlt : q.offset < p.offset + byteLen run) :
    q.before.any isIdentChar = true := by
  rcases hp.exists_inside hq hrest (Nat.le_of_lt hle) hlt with ⟨a, b, -, hab, hpast⟩
  have hne : a ≠ [] := by
    rintro rfl
    rw [hpast, Place.past_offset, byteLen_nil] at hle
    omega
  rcases Option.isSome_iff_exists.1 (List.getLast?_isSome.2 hne) with ⟨d, hd⟩
  have hmem : d ∈ run := by
    rw [hab]
    exact List.mem_append_left b (List.mem_of_getLast? hd)
  have hident := hrun d hmem
  simpa [hpast, Place.past, hd] using hident

theorem any_before_of_startsWord (h : startsWord p = true) : p.before.any isIdentChar = false := by
  unfold startsWord atWordStart at h
  simp only [Bool.and_eq_true, Bool.not_eq_true'] at h
  exact h.2

/-- No constant ends inside a word. -/
theorem stop_of_word {k : Token} {q q' : Place}
    (hq : Visits (wordStep (Literals.ofText text).all keywords) (Place.start text) q)
    (hreports : Reports (wordStep (Literals.ofText text).all keywords) q q' token)
    (hk : k ∈ tokensOf (scan (constantStep (Literals.ofText text).ranges) (Place.start text)))
    (hlt : q.offset < k.span.stop) : q'.offset ≤ k.span.stop := by
  by_contra hinside
  rcases hreports.lexeme_eq_takeWhile with ⟨hlexeme, hword⟩
  rcases exists_head_of_startsWord hword with ⟨d, u, hhead, hletter, -⟩
  rcases ne_of_isIdentStart hletter with ⟨hdigit, hdot, -, hsingle⟩
  -- the scan for constants takes the whole word
  have hvisits := (inStep_wordStep (Literals.ofText text).ranges hq).visits hhead hsingle
  have hnumber := numberLen?_eq_none (Place.peek?_eq_some hhead) hdigit hdot
  have hmove : MovesTo (constantStep (Literals.ofText text).ranges) q q' := by
    apply hreports.moves.of_len_eq
    rw [len_constantStep_word hhead (isIdentChar_of_isIdentStart hletter) hnumber,
      ← hreports.byteLen_lexeme, hlexeme]
    rfl
  rcases mem_tokensOf_scan.1 hk with ⟨r, r', hr, hkreports⟩
  have hstop : k.span.stop = r'.offset := by rw [hkreports.span_eq]
  have hrlt := hkreports.moves.offset_lt
  have hlast : q.offset ≤ k.span.stop - 1 ∧ k.span.stop - 1 < q'.offset := by omega
  have hklast : r.offset ≤ k.span.stop - 1 ∧ k.span.stop - 1 < r'.offset := by omega
  obtain rfl : q = r := Visits.eq_of_covers (Place.isIn_start text) hvisits hr hmove
    hkreports.moves hlast hklast
  have hends := movesTo_unique hmove hkreports.moves
  rw [← hends] at hstop
  omega

/-- No word covers a stray run. -/
theorem isCovered_words_of_holdsStray
    (h : HoldsStray text (tokensOf (scan (constantStep (Literals.ofText text).ranges)
      (Place.start text))) offset) :
    isCovered (tokensOf (scan (wordStep (Literals.ofText text).all keywords) (Place.start text)))
      offset = false := by
  rcases h with ⟨front, run, back, htext, hstray, hle, hlt⟩
  rw [← Bool.not_eq_true, isCovered_eq_true]
  rintro ⟨token, htoken, hcontains⟩
  rcases mem_tokensOf_scan.1 htoken with ⟨q, q', hq, hreports⟩
  rcases hreports.lexeme_eq_takeWhile with ⟨hlexeme, hword⟩
  rw [hreports.contains_iff] at hcontains
  have hqin : q.IsIn text := hq.isIn (Place.isIn_start text)
  have hstart := any_before_of_startsWord hword
  -- the place where the run starts
  rw [List.append_assoc] at htext
  rcases exists_place_between htext with ⟨f, hfin, hfrest, hfoffset, hfbefore⟩
  rw [byteLen_append] at hlt
  rcases Nat.lt_trichotomy q.offset f.offset with hless | hsame | hmore
  · -- the word has started before, so the run goes on behind a number, which starts with the word
    have hinside : f.offset < q'.offset := by omega
    have hend := hinside
    rw [hreports.moves.offset_eq, ← hreports.byteLen_lexeme] at hend
    have hbefore := any_before_of_inside hqin hfin hreports.rest_eq
      (fun c hc => isIdentChar_of_mem_takeWhile (hlexeme ▸ hc)) hless hend
    rw [hfbefore] at hbefore
    rcases hstray.starts with ⟨hfalse, -⟩ | ⟨-, k, hk, -, hstop⟩
    · rw [hbefore] at hfalse
      cases hfalse
    · have hend := stop_of_word hq hreports hk (by omega)
      omega
  · have heq : q = f := hqin.eq_of_offset hfin hsame
    rw [heq, hfbefore] at hstart
    rcases hstray.starts with ⟨-, hrun⟩ | ⟨htrue, -⟩
    · -- a word starts with no digit
      rcases exists_head_of_startsWord hword with ⟨d, u, hhead, hletter, -⟩
      rw [heq, hfrest] at hhead
      cases run with
      | nil => cases hrun
      | cons x run =>
        rw [List.head?_cons, Option.any_some, (List.cons.inj hhead).1,
          (ne_of_isIdentStart hletter).1] at hrun
        cases hrun
    · rw [htrue] at hstart
      cases hstart
  · rw [any_before_of_inside hfin hqin hfrest hstray.word hmore (by omega)] at hstart
    cases hstart

/-- Of the word characters, nothing covers those in stray runs. -/
theorem holdsStray_iff (keywords : KeywordTable) (hin : here.IsIn text) (hhead : here.rest = c :: t)
    (hc : isIdentChar c = true) :
    HoldsStray text (tokensOf (scan (constantStep (Literals.ofText text).ranges)
        (Place.start text))) here.offset ↔
      isCovered (tokensOf (scan (constantStep (Literals.ofText text).ranges) (Place.start text)))
          here.offset = false ∧
        isCovered (tokensOf (scan (wordStep (Literals.ofText text).all keywords)
          (Place.start text))) here.offset = false ∧
        isCovered (tokensOf (scan (symbolStep (Literals.ofText text).all .cpp)
          (Place.start text))) here.offset = false := by
  constructor
  · intro h
    refine ⟨?_, isCovered_words_of_holdsStray h, isCovered_symbols_eq_false hin hhead hc⟩
    rcases h with ⟨front, run, back, -, hstray, hle, hlt⟩
    exact hstray.free here.offset hle hlt
  · rintro ⟨hconstants, hwords, -⟩
    exact holdsStray_of_uncovered hin hhead hc hconstants hwords

/-! ## Misread numbers -/

/-- Over any text, the scan for the symbols of C++ never stops before the end. -/
theorem advances_symbolStep_cpp (text : Text) :
    Advances (symbolStep (Literals.ofText text).all .cpp) text :=
  advances_symbolStep _ (endsIn_literals text)

/-- The sweep for symbols of C++ steps over the byte as a part of a number, but no constant covers
it. -/
def IsMisread (text : Text) (constants : List Token) (offset : Nat) : Prop :=
  isCovered constants offset = false ∧
    ∃ p len, Visits (symbolStep (Literals.ofText text).all .cpp) (Place.start text) p ∧
      numberLen? p = some len ∧ symbolStep (Literals.ofText text).all .cpp p = .pass len ∧
      p.offset ≤ offset ∧ offset < p.offset + len

/-- The sweep for constants reports every literal. -/
theorem isCovered_of_literal {s : Span}
    (hskip : (Literals.ofText text).all.spanAt? p.offset = some s) (hle : p.offset ≤ offset)
    (hlt : offset < s.stop) :
    isCovered (tokensOf (scan (constantStep (Literals.ofText text).ranges) (Place.start text)))
      offset = true := by
  rcases spanAt?_literals (Literals.ofText text).ranges hskip with ⟨-, -, hall⟩
  rcases exists_reports_of_contains (hall offset hle hlt) with
    ⟨q, q', k, hq, hreports, -, hcontains⟩
  exact isCovered_eq_true.2 ⟨k, mem_tokensOf_scan.2 ⟨q, q', hq, hreports⟩, hcontains⟩

/-- Of the characters that are neither layout nor in a word, nothing covers those in misread
numbers. -/
theorem isMisread_iff (keywords : KeywordTable) (hin : here.IsIn text) (hhead : here.rest = c :: t)
    (hc : isIdentChar c = false) (hlayout : isLayout c = false) :
    IsMisread text (tokensOf (scan (constantStep (Literals.ofText text).ranges)
        (Place.start text))) here.offset ↔
      isCovered (tokensOf (scan (constantStep (Literals.ofText text).ranges) (Place.start text)))
          here.offset = false ∧
        isCovered (tokensOf (scan (wordStep (Literals.ofText text).all keywords)
          (Place.start text))) here.offset = false ∧
        isCovered (tokensOf (scan (symbolStep (Literals.ofText text).all .cpp)
          (Place.start text))) here.offset = false := by
  constructor
  · rintro ⟨hconstants, p, len, hp, hnumber, hstep, hle, hlt⟩
    refine ⟨hconstants, isCovered_words_eq_false hin hhead hc, ?_⟩
    have hpass : p.CanPass (symbolStep (Literals.ofText text).all .cpp p).len := by
      rw [hstep]
      exact canPass_of_numberLen? hnumber
    rcases hpass.exists_movesTo with ⟨p', hmove⟩
    have hcovers : p.offset ≤ here.offset ∧ here.offset < p'.offset := by
      rw [hmove.offset_eq, hstep]
      exact ⟨hle, hlt⟩
    rw [isCovered_of_visits hp hmove hcovers, hstep]
    rfl
  · rintro ⟨hconstants, -, hsymbols⟩
    refine ⟨hconstants, ?_⟩
    rcases exists_visits_over (advances_symbolStep_cpp text) hin hhead with
      ⟨p, p', a, b, hp, hmove, hcovers, hrest, hlen, -⟩
    have hnone : (symbolStep (Literals.ofText text).all .cpp p).kind.isSome = false := by
      rw [← isCovered_of_visits hp hmove hcovers, hsymbols]
    have hmem : c ∈ a ++ c :: b := List.mem_append_right a List.mem_cons_self
    rcases hmove.exists_head with ⟨d, u, hd⟩
    cases hskip : (Literals.ofText text).all.spanAt? p.offset with
    | some s =>
      have hstop : p'.offset = s.stop := by
        have hlt := (SpanSet.spanAt?_eq_some hskip).2.2
        rw [hmove.offset_eq, symbolStep_skip _ hskip]
        show p.offset + (s.stop - p.offset) = s.stop
        omega
      rw [isCovered_of_literal hskip hcovers.1 (hstop ▸ hcovers.2)] at hconstants
      cases hconstants
    | none =>
      have hcases : SymbolMove (Literals.ofText text).all .cpp p d := symbolStep_cases hskip hd
      cases hcases with
      | layout hd' hstep =>
        rw [hstep] at hlen
        rw [eq_singleton_of_byteLen hrest hd (by rw [utf8Size_of_isLayout hd']; exact hlen),
          List.mem_singleton] at hmem
        rw [hmem, hd'] at hlayout
        cases hlayout
      | @number len hnumber hstep =>
        refine ⟨p, len, hp, hnumber, hstep, hcovers.1, ?_⟩
        rw [hmove.offset_eq, hstep] at hcovers
        exact hcovers.2
      | word _ _ hstep =>
        rw [hstep] at hlen
        rw [eq_takeWhile_of_wordLen hrest hlen] at hmem
        rw [isIdentChar_of_mem_takeWhile hmem] at hc
        cases hc
      | symbol _ _ hstep | unknown _ _ hstep =>
        rw [hstep] at hnone
        cases hnone

/-- Of the characters that are in no word, only points and signs are misread. -/
theorem IsMisread.eq_of_isIdentChar {constants : List Token}
    (h : IsMisread text constants here.offset) (hin : here.IsIn text) (hhead : here.rest = c :: t)
    (hc : isIdentChar c = false) : c = '.' ∨ c = '+' ∨ c = '-' := by
  rcases h with ⟨-, p, len, hp, hnumber, -, hle, hlt⟩
  rcases exists_constantAt_of_numberLen? hnumber with ⟨rule, there, front, hat, hkind, -⟩
  rw [← hat.byteLen_eq] at hlt
  rcases (hp.isIn (Place.isIn_start text)).exists_inside hin hat.rest_eq hle hlt with
    ⟨a, b, hb, hfront, hhere⟩
  rcases List.exists_cons_of_ne_nil hb with ⟨d, b, rfl⟩
  rw [hhere, Place.past_rest] at hhead
  have hmem : c ∈ front := by
    rw [hfront, ← (List.cons.inj hhead).1]
    exact List.mem_append_right a List.mem_cons_self
  exact eq_of_reads_number hat.mem hkind (hat.reading.reads c hmem) hc

/-- Only behind `...` before a digit is a number misread. -/
theorem IsMisread.exists_points
    (h : IsMisread text (tokensOf (scan (constantStep (Literals.ofText text).ranges)
      (Place.start text))) offset) :
    ∃ s ∈ tokensOf (scan (symbolStep (Literals.ofText text).all .cpp) (Place.start text)),
      IsEllipsisBeforeDigit text s ∧ s.span.stop ≤ offset := by
  rcases h with ⟨hconstants, p, len, hp, hnumber, -, hle, hlt⟩
  rcases inStep_or_takesPoints (Literals.ofText text).ranges hp with
    hstep | ⟨q, q', hq, hmove, -, htakes, hbehind⟩
  · -- in step, the number is a constant
    rcases canPass_of_numberLen? hnumber with ⟨front, back, hne, hrest, -⟩
    rcases List.exists_cons_of_ne_nil hne with ⟨d, front, rfl⟩
    have hsingle : d ≠ '\'' := by
      rintro rfl
      rcases digit_or_dot_of_numberLen? hrest hnumber with h | h <;> cases h
    rcases exists_number_of_visits (hstep.visits hrest hsingle) hnumber with ⟨k, hk, -, hspan⟩
    have hcontains : k.span.contains offset = true := by
      rw [hspan, Span.contains_eq_true]
      exact ⟨hle, hlt⟩
    rw [isCovered_eq_true.2 ⟨k, hk, hcontains⟩] at hconstants
    cases hconstants
  · rcases htakes.exists_reports hmove with ⟨s, hreports⟩
    refine ⟨s, mem_tokensOf_scan.2 ⟨q, q', hq, hreports⟩, ?_, ?_⟩
    · exact (hreports.isEllipsisBeforeDigit_iff (hq.isIn (Place.isIn_start text))).2 htakes
    · rw [hreports.span_eq]
      exact Nat.le_trans hbehind hle

/-! ## The four records -/

/-- Whether no token of the records covers a byte. -/
def isDropped (records : List Passage) (offset : Nat) : Bool :=
  records.all fun r => !isCovered r.sweep.tokens offset

/-- A word is a keyword or an identifier, so the two records hold all words. -/
theorem isCovered_keeping {words : Sweep}
    (h : tagWords text (Literals.ofText text).all keywords = .ok words) (offset : Nat) :
    (isCovered (Progress.keeping .keyword words).tokens offset ||
      isCovered (Progress.keeping .identifier words).tokens offset) =
        isCovered words.tokens offset := by
  have hkind : ∀ w ∈ words.tokens, w.kind = .keyword ∨ w.kind = .identifier := by
    intro w hw
    rw [tokens_of_ofScan h] at hw
    rcases mem_words.1 hw with ⟨p, -, -, rfl⟩
    unfold wordAt
    dsimp only
    split
    · exact Or.inl rfl
    · exact Or.inr rfl
  rw [Bool.eq_iff_iff, Bool.or_eq_true, isCovered_eq_true, isCovered_eq_true, isCovered_eq_true]
  constructor
  · rintro (⟨w, hw, hcontains⟩ | ⟨w, hw, hcontains⟩)
    · exact ⟨w, (List.mem_filter.1 hw).1, hcontains⟩
    · exact ⟨w, (List.mem_filter.1 hw).1, hcontains⟩
  · rintro ⟨w, hw, hcontains⟩
    rcases hkind w hw with hk | hk
    · exact Or.inl ⟨w, List.mem_filter.2 ⟨hw, by simpa using hk⟩, hcontains⟩
    · exact Or.inr ⟨w, List.mem_filter.2 ⟨hw, by simpa using hk⟩, hcontains⟩

/-- Reading a source of C++ to the end, the words are swept from the text of the constants and the
symbols. -/
theorem exists_run_records (source : Text) :
    ∃ passages final constants keywords identifiers symbols words,
      (Progress.start source .cpp).runRemaining = .ok (passages, final) ∧
      passages.find? (fun r => r.layer = .constants) = some constants ∧
      passages.find? (fun r => r.layer = .keywords) = some keywords ∧
      passages.find? (fun r => r.layer = .identifiers) = some identifiers ∧
      passages.find? (fun r => r.layer = .symbols) = some symbols ∧
      (∀ r ∈ [constants, keywords, identifiers, symbols], r.input = textAt source .condensed) ∧
      tagConstants (textAt source .condensed) (Literals.ofText (textAt source .condensed)).ranges =
        .ok constants.sweep ∧
      tagWords (textAt source .condensed) (Literals.ofText (textAt source .condensed)).all
        KeywordTable.cpp = .ok words ∧
      keywords.sweep = Progress.keeping .keyword words ∧
      identifiers.sweep = Progress.keeping .identifier words ∧
      tagSymbols (textAt source .condensed) (Literals.ofText (textAt source .condensed)).all .cpp =
        .ok symbols.sweep := by
  have hprofile : Profile.cpp.IsBuilt := ⟨_, rfl⟩
  rcases exists_runRemaining source hprofile with ⟨passages, final, hrun, -, hsteps⟩
  have hc : Layer.condensed.next? = some .constants := rfl
  have hk : Layer.constants.next? = some .keywords := rfl
  have hi : Layer.keywords.next? = some .identifiers := rfl
  have hs : Layer.identifiers.next? = some .symbols := rfl
  rcases hsteps.exists_find hc (by decide) with ⟨constants, hcfind, hctext, hcsweep⟩
  rcases hsteps.exists_find hk (by decide) with ⟨keywords, hkfind, hktext, hksweep⟩
  rcases hsteps.exists_find hi (by decide) with ⟨identifiers, hifind, hitext, hisweep⟩
  rcases hsteps.exists_find hs (by decide) with ⟨symbols, hsfind, hstext, hssweep⟩
  rcases exists_words_of_keeping hksweep with ⟨words, hwords, hkeywords⟩
  rcases exists_words_of_keeping hisweep with ⟨words', hwords', hidentifiers⟩
  obtain rfl : words = words' := Except.ok.inj (hwords.symm.trans hwords')
  refine ⟨passages, final, constants, keywords, identifiers, symbols, words, hrun, hcfind, hkfind,
    hifind, hsfind, ?_, hcsweep, hwords, hkeywords, hidentifiers, hssweep⟩
  intro r hr
  simp only [List.mem_cons, List.not_mem_nil, or_false] at hr
  rcases hr with rfl | rfl | rfl | rfl
  · exact hctext
  · exact hktext
  · exact hitext
  · exact hstext

/-- Reading a source of C++ to the end, no token for constants, keywords, identifiers or symbols
covers a character of the text that is no layout exactly if the character is in a stray run or, in
no word, in a misread number. In a misread number it is a point or a sign, and it stands behind
`...` before a digit. -/
theorem exists_run_dropped_iff (source : Text) :
    ∃ passages final constants keywords identifiers symbols,
      (Progress.start source .cpp).runRemaining = .ok (passages, final) ∧
      passages.find? (fun r => r.layer = .constants) = some constants ∧
      passages.find? (fun r => r.layer = .keywords) = some keywords ∧
      passages.find? (fun r => r.layer = .identifiers) = some identifiers ∧
      passages.find? (fun r => r.layer = .symbols) = some symbols ∧
      (∀ r ∈ [constants, keywords, identifiers, symbols], r.input = textAt source .condensed) ∧
      (∀ front c back, textAt source .condensed = front ++ c :: back → isLayout c = false →
        (isDropped [constants, keywords, identifiers, symbols] (byteLen front) = true ↔
          isIdentChar c = true ∧ HoldsStray (textAt source .condensed) constants.sweep.tokens
              (byteLen front) ∨
            isIdentChar c = false ∧ IsMisread (textAt source .condensed) constants.sweep.tokens
              (byteLen front))) ∧
      ∀ front c back, textAt source .condensed = front ++ c :: back → isIdentChar c = false →
        IsMisread (textAt source .condensed) constants.sweep.tokens (byteLen front) →
          (c = '.' ∨ c = '+' ∨ c = '-') ∧ ∃ s ∈ symbols.sweep.tokens,
            IsEllipsisBeforeDigit (textAt source .condensed) s ∧ s.span.stop ≤ byteLen front := by
  rcases exists_run_records source with ⟨passages, final, constants, keywords, identifiers, symbols,
    words, hrun, hcfind, hkfind, hifind, hsfind, hinput, hcok, hwok, hkeywords, hidentifiers, hsok⟩
  have hconstants := tokens_of_ofScan hcok
  have hwords := tokens_of_ofScan hwok
  have hsymbols := tokens_of_ofScan hsok
  refine ⟨passages, final, constants, keywords, identifiers, symbols, hrun, hcfind, hkfind, hifind,
    hsfind, hinput, ?_, ?_⟩
  · intro front c back htext hlayout
    have hdropped : isDropped [constants, keywords, identifiers, symbols] (byteLen front) = true ↔
        isCovered constants.sweep.tokens (byteLen front) = false ∧
          isCovered words.tokens (byteLen front) = false ∧
            isCovered symbols.sweep.tokens (byteLen front) = false := by
      rw [← isCovered_keeping hwok, ← hkeywords, ← hidentifiers]
      simp [isDropped, and_assoc]
    rcases exists_place_between htext with ⟨here, hin, hhead, hoffset, -⟩
    rw [hdropped, hconstants, hwords, hsymbols, ← hoffset]
    cases hc : isIdentChar c with
    | true =>
      rw [← holdsStray_iff KeywordTable.cpp hin hhead hc]
      simp
    | false =>
      rw [← isMisread_iff KeywordTable.cpp hin hhead hc hlayout]
      simp
  · intro front c back htext hc hmisread
    rcases exists_place_between htext with ⟨here, hin, hhead, hoffset, -⟩
    rw [hconstants, ← hoffset] at hmisread
    rw [hsymbols, ← hoffset]
    exact ⟨hmisread.eq_of_isIdentChar hin hhead hc, hmisread.exists_points⟩

/-- A run that starts with a digit and is no number is in no record. -/
theorem run_dropped_digits : ∃ passages final constants keywords identifiers symbols,
    (Progress.start ['1', '2', 'a', 'b'] .cpp).runRemaining = .ok (passages, final) ∧
    passages.find? (fun r => r.layer = .constants) = some constants ∧
    passages.find? (fun r => r.layer = .keywords) = some keywords ∧
    passages.find? (fun r => r.layer = .identifiers) = some identifiers ∧
    passages.find? (fun r => r.layer = .symbols) = some symbols ∧
    ∃ front c back, symbols.input = front ++ c :: back ∧ isLayout c = false ∧
      isDropped [constants, keywords, identifiers, symbols] (byteLen front) = true := by
  rcases exists_run_records ['1', '2', 'a', 'b'] with ⟨passages, final, constants, keywords,
    identifiers, symbols, words, hrun, hcfind, hkfind, hifind, hsfind, hinput, hcok, hwok,
    hkeywords, hidentifiers, hsok⟩
  have htext : textAt ['1', '2', 'a', 'b'] .condensed = ['1', '2', 'a', 'b'] := by decide +kernel
  rw [htext] at hcok hwok hsok hinput
  have hc : (tagConstants ['1', '2', 'a', 'b']
      (Literals.ofText ['1', '2', 'a', 'b']).ranges).toOption.map (·.tokens) = some [] := by
    decide +kernel
  have hw : (tagWords ['1', '2', 'a', 'b'] (Literals.ofText ['1', '2', 'a', 'b']).all
      KeywordTable.cpp).toOption.map (·.tokens) = some [] := by decide +kernel
  have hs : (tagSymbols ['1', '2', 'a', 'b']
      (Literals.ofText ['1', '2', 'a', 'b']).all .cpp).toOption.map (·.tokens) = some [] := by
    decide +kernel
  rw [hcok] at hc
  rw [hwok] at hw
  rw [hsok] at hs
  have hnone : isDropped [constants, keywords, identifiers, symbols] 0 = true := by
    have hc : constants.sweep.tokens = [] := Option.some.inj hc
    have hw : words.tokens = [] := Option.some.inj hw
    have hs : symbols.sweep.tokens = [] := Option.some.inj hs
    simp [isDropped, isCovered, hc, hs, hkeywords, hidentifiers, Progress.keeping, hw]
  refine ⟨passages, final, constants, keywords, identifiers, symbols, hrun, hcfind, hkfind, hifind,
    hsfind, [], '1', ['2', 'a', 'b'], ?_, by decide, hnone⟩
  exact hinput symbols (by simp)

end Strata
