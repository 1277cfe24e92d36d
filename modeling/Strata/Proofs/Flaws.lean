import Strata.Proofs.Decomposed
import Strata.Proofs.Faultless
import Strata.Proofs.Replaced

/-!
# What is wrong with a text

The diagnostics of a source of C++ are read off the tokens of three sweeps, and yet can be told from
the text. A comment is never closed if behind its opening there is no `*/`, whatever its last
characters are. A quote is open if no literal holds it: the scan for symbols steps over no such
quote, so it is an unknown token there, and is reported unless it belongs to an empty pair, which is
reported whole. Every other unknown token is one character, which stands in the source as it is.

* `OpeningOf`, `strayQuotes`: the comments and the quotes that are never closed, by the text;
* `openComments_eq`, `perm_unknowns`: what is read off the tokens;
* `pairwise_sightings`: no two flaws share a byte;
* `Diagnosed`, `exists_diagnosed`: what is wrong with a source, and where.
-/

namespace Strata

variable {source text : Text} {profile : Profile} {passages : List Passage} {r : Passage}
  {t : Token} {tokens : List Token} {c : Char} {here p p' : Place} {ds : List Diagnostic}

/-! ## What is wrong -/

/-- A token of a source is a block comment, and behind its opening there is no `*/`. -/
def Token.NeverCloses (source : Text) (t : Token) : Prop :=
  ∃ front body, source = front ++ '/' :: '*' :: body ∧ t.span.start = byteLen front ∧
    ¬['*', '/'] <:+: body

/-- What is reported of comments: the two bytes that open the last one, if it is never closed. -/
inductive OpeningOf (source : Text) (tokens : List Token) : List Diagnostic.Sighting → Prop
  | unclosed {t : Token} (hlast : (tokens.filter (·.kind = .comment)).getLast? = some t)
      (hopen : t.NeverCloses source) :
      OpeningOf source tokens [(.unterminatedComment, .uncommented, Span.ofLen t.span.start 2)]
  | closed (h : ∀ t ∈ (tokens.filter (·.kind = .comment)).getLast?, ¬t.NeverCloses source) :
      OpeningOf source tokens []

/-- The quotes of a text outside its literals and outside some other spans, with their offsets. -/
def strayQuotes (text : Text) (others : List Span) : List (Nat × Char) :=
  (located id 0 text).filter fun x => (x.2 = '"' || x.2 = '\'') &&
    !(Literals.ofText text).all.contains x.1 && !others.any (·.contains x.1)

/-- The tokens of a step that are two single quotes with nothing between them. -/
def emptyPairs (r : Passage) : List Token :=
  r.sweep.tokens.filter fun t => t.kind = .unknown && t.lexeme = ['\'', '\'']

theorem emptyChars_eq (r : Passage) : Diagnostic.emptyChars r = emptyPairs r := rfl

/-- The unknown tokens of a step that are no quotes. -/
def otherUnknowns (r : Passage) : List Token :=
  r.sweep.tokens.filter fun t => t.kind = .unknown && t.lexeme ≠ ['"'] && t.lexeme ≠ ['\'']

/-- The flaws of a source of C++ other than its comments: the empty pairs among its constants, the
quotes that are never closed, and the other unknown tokens of the last step. -/
def tokenFlaws (source : Text) (constants symbols : Passage) : List Diagnostic.Sighting :=
  (emptyPairs constants).map (fun t => (.emptyChar, .constants, constants.rawSpan t)) ++
    ((strayQuotes (textAt source .condensed) ((emptyPairs constants).map (·.span))).map (fun x =>
        (.unterminatedLiteral x.2, .symbols,
          symbols.inputOrigin.spanToSource (Span.ofLen x.1 x.2.utf8Size))) ++
      (otherUnknowns symbols).map fun t => (.unrecognized t.lexeme, .symbols, symbols.rawSpan t))

/-- What is wrong with a source of C++, by the text and by the tokens of three steps, and where. -/
structure Diagnosed (source : Text) (comments constants symbols : Passage)
    (ds : List Diagnostic) : Prop where
  /-- Each flaw is reported once, and nothing else is reported. -/
  flaws : ∃ openings, OpeningOf source comments.sweep.tokens openings ∧
    (ds.map Diagnostic.sighting).Perm (openings ++ tokenFlaws source constants symbols)
  sorted : ds.Pairwise fun a b => a.span.le b.span = true
  /-- No two diagnostics share a byte of the source. -/
  apart : ds.Pairwise fun a b => a.span.stop ≤ b.span.start
  quotes : ∀ d ∈ ds, ∀ quote, d.flaw = .unterminatedLiteral quote →
    slice source d.span = .ok [quote]
  characters : ∀ d ∈ ds, ∀ shown, d.flaw = .unrecognized shown →
    (∃ c, shown = [c]) ∧ slice source d.span = .ok shown
  /-- Each diagnostic has the line and the column of its start, as 32 bits keep them. -/
  positions : ∀ d ∈ ds, ∃ front back, source = front ++ back ∧ byteLen front = d.span.start ∧
    d.line = inWord (front.count '\n' + 1) ∧ d.column = inWord ((lastLine front).length + 1)
  /-- In a source that is not too long, they keep them as they are. -/
  counted : byteLen source < 4294967295 → ∀ d ∈ ds, ∀ front back, source = front ++ back →
    byteLen front = d.span.start →
      d.line = front.count '\n' + 1 ∧ d.column = (lastLine front).length + 1

/-! ## Comments that are never closed -/

/-- The last characters of a comment tell whether it is ever closed. -/
theorem Reports.isOpenComment_iff (h : Reports commentStep p p' t) :
    Diagnostic.isOpenComment t.lexeme = true ↔
      ∃ body, p.rest = '/' :: '*' :: body ∧ ¬['*', '/'] <:+: body := by
  cases h.commentEnd with
  | line hrest hlexeme _ _ =>
    rw [hrest, hlexeme]
    simp [Diagnostic.isOpenComment]
  | @closed body back hrest hlexeme _ =>
    refine iff_of_false ?_ ?_
    · rw [hlexeme]
      simp [Diagnostic.isOpenComment]
    · rintro ⟨u, hu, hunclosed⟩
      obtain rfl : u = body ++ ['*', '/'] ++ back := by simpa [hu] using hrest
      exact hunclosed ⟨body, back, rfl⟩
  | never hrest hnever hlexeme =>
    refine iff_of_true ?_ ⟨_, hrest, hnever⟩
    rw [hlexeme, hrest]
    simp only [Diagnostic.isOpenComment, Bool.not_eq_true', ← Bool.not_eq_true,
      List.isSuffixOf_iff_suffix]
    exact fun hsuffix => hnever hsuffix.isInfix

/-- A comment that is never closed goes on to the end. -/
theorem Reports.rest_of_isOpenComment (h : Reports commentStep p p' t)
    (hopen : Diagnostic.isOpenComment t.lexeme = true) : p'.rest = [] := by
  rcases h.isOpenComment_iff.1 hopen with ⟨u, hu, hunclosed⟩
  cases h.commentEnd with
  | line hrest _ _ _ =>
    rw [hu] at hrest
    cases hrest
  | @closed body back hrest _ _ =>
    obtain rfl : u = body ++ ['*', '/'] ++ back := by simpa [hu] using hrest
    exact absurd ⟨body, back, rfl⟩ hunclosed
  | never _ _ hlexeme =>
    have hsplit := h.rest_eq
    rw [hlexeme] at hsplit
    simpa using hsplit

/-- What is taken for an open comment is one that is never closed. -/
theorem Reports.neverCloses_iff (hp : p.IsIn source) (h : Reports commentStep p p' t) :
    t.NeverCloses source ↔ Diagnostic.isOpenComment t.lexeme = true := by
  rcases hp with ⟨read, hsource, hoffset, -⟩
  have hstart : t.span.start = byteLen read := by rw [h.span_eq, hoffset]
  rw [h.isOpenComment_iff]
  constructor
  · rintro ⟨front, body, hbody, hfront, hnever⟩
    exact ⟨body, (append_inj_of_byteLen (hsource.symm.trans hbody)
      (hstart.symm.trans hfront)).2, hnever⟩
  · rintro ⟨body, hrest, hnever⟩
    exact ⟨read, body, by rw [hsource, hrest], hstart, hnever⟩

/-- Of tokens that stand apart, only the last one can end where the text does. -/
theorem filter_eq_of_stop {ok : Token → Bool} (h : Sliced text tokens)
    (hstop : ∀ t ∈ tokens, ok t = true → t.span.stop = byteLen text) :
    tokens.filter ok = (tokens.getLast?.filter ok).toList := by
  rcases List.eq_nil_or_concat tokens with rfl | ⟨init, last, htokens⟩
  · rfl
  · rw [List.concat_eq_append] at htokens
    -- one before the last would have to end where the last one starts or earlier
    have hnone : init.filter ok = [] := by
      rw [List.filter_eq_nil_iff]
      intro t ht hok
      have hend := hstop t (by rw [htokens]; exact List.mem_append_left _ ht) hok
      have hlast := h.slices last (by rw [htokens]; simp)
      have hle := stop_le_of_slice hlast.2
      have hapart := h.apart
      rw [htokens] at hapart
      have := (List.pairwise_append.1 hapart).2.2 t ht last (List.mem_singleton_self _)
      omega
    rw [htokens, List.filter_append, hnone, List.getLast?_concat, List.nil_append]
    cases hok : ok last <;> simp [hok, Option.filter]

/-- On the way to the first layer, a token stands in the source where it stands in the text. -/
theorem Passage.Traced.start_rawSpan (h : r.Traced source profile) (hprofile : profile.IsBuilt)
    (hlayer : r.layer = .uncommented) (ht : t ∈ r.sweep.tokens) :
    (r.rawSpan t).start = t.span.start := by
  rcases (h.sliced hprofile).slices t ht with ⟨hlt, hslice⟩
  have hnext : Layer.raw.next? = some r.layer := by rw [hlayer]; rfl
  rcases h.of_next? hnext with ⟨hinput, -, htraces⟩
  have hstop : t.span.stop ≤ byteLen source := stop_le_of_slice (hinput ▸ hslice)
  have hbytes : t.span.start < (trailBytes (trailAt source .raw)).length := by
    rw [length_trailBytes_trailAt]
    exact Nat.lt_of_lt_of_le hlt hstop
  rw [Passage.rawSpan, spanToSource_eq hlt (toSource_le htraces (by omega)
    (show t.span.stop - 1 < byteLen source by omega))]
  exact (htraces.toSource_eq (traces_identity_raw source) hbytes).trans
    (OffsetMap.toSource_identity (by omega))

/-- What is reported of comments is the opening of the last one, if it is never closed. -/
theorem openComments_eq (h : r.Traced source profile) (hprofile : profile.IsBuilt)
    (hlayer : r.layer = .uncommented) (hsweep : r.sweep = stripComments source) :
    OpeningOf source r.sweep.tokens (Diagnostic.openComments r) := by
  have hcomments : ∀ t ∈ r.sweep.tokens.filter (·.kind = .comment),
      ∃ p p', p.IsIn source ∧ Reports commentStep p p' t ∧ p'.IsIn source := by
    intro t ht
    rw [hsweep, comments_stripComments] at ht
    rcases mem_tokensOf_scan.1 ht with ⟨p, p', hp, hreports⟩
    exact ⟨p, p', hp.isIn (Place.isIn_start source), hreports,
      (hp.tail hreports.moves).isIn (Place.isIn_start source)⟩
  have hsliced : Sliced source (r.sweep.tokens.filter (·.kind = .comment)) := by
    rw [hsweep]
    exact (segmented_stripComments source).toSliced.filter _
  -- an open comment goes on to the end, so only the last one can be open
  have hlast : Diagnostic.openComments r =
      (((r.sweep.tokens.filter (·.kind = .comment)).getLast?.filter fun t =>
        Diagnostic.isOpenComment t.lexeme).toList).map fun t =>
          (.unterminatedComment, .uncommented, Span.ofLen (r.rawSpan t).start 2) := by
    rw [← filter_eq_of_stop hsliced, List.filter_filter, Diagnostic.openComments, hlayer]
    · simp only [Bool.and_comm]
    · intro t ht hopen
      rcases hcomments t ht with ⟨p, p', -, hreports, hp'⟩
      have hend := hp'.offset_le
      rw [hreports.rest_of_isOpenComment hopen, byteLen_nil] at hend
      rw [hreports.span_eq]
      exact hend
  cases htokens : (r.sweep.tokens.filter (·.kind = .comment)).getLast? with
  | none =>
    rw [hlast, htokens]
    exact .closed fun t ht => by simp [htokens] at ht
  | some t =>
    have ht := List.mem_of_getLast? htokens
    rcases hcomments t ht with ⟨p, p', hp, hreports, -⟩
    have hnever := hreports.neverCloses_iff hp
    cases hopen : Diagnostic.isOpenComment t.lexeme with
    | false =>
      have hnone : Diagnostic.openComments r = [] := by
        rw [hlast, htokens]
        simp [Option.filter, hopen]
      rw [hnone]
      refine .closed fun u hu => ?_
      obtain rfl : t = u := Option.some.inj (htokens.symm.trans hu)
      rw [hnever, hopen]
      decide
    | true =>
      have hone : Diagnostic.openComments r =
          [(.unterminatedComment, .uncommented, Span.ofLen t.span.start 2)] := by
        rw [hlast, htokens, ← h.start_rawSpan hprofile hlayer (List.mem_filter.1 ht).1]
        simp [Option.filter, hopen]
      rw [hone]
      exact .unclosed htokens (hnever.2 hopen)

theorem OpeningOf.pairwise {openings : List Diagnostic.Sighting}
    (h : OpeningOf source tokens openings) (R : Diagnostic.Sighting → Diagnostic.Sighting → Prop) :
    openings.Pairwise R := by
  cases h with
  | unclosed => exact List.pairwise_singleton _ _
  | closed => exact List.Pairwise.nil

/-! ## Quotes that are never closed -/

/-- The unknown token that a character is. -/
def Token.unknownAt (offset : Nat) (c : Char) : Token :=
  ⟨.unknown, [c], Span.ofLen offset c.utf8Size⟩

/-- An unknown token is one character. -/
theorem Reports.exists_unknownAt {skip : SpanSet} {table : SymbolTable}
    (h : Reports (symbolStep skip table) p p' t) (hkind : t.kind = .unknown) :
    ∃ c, p.peek? = some c ∧ t = Token.unknownAt p.offset c := by
  rcases (symbolStep_reports h).2 with ⟨entry, -, rfl⟩ | ⟨c, hpeek, -, htoken⟩
  · cases hcls : entry.cls <;> simp [SymbolClass.kind, hcls] at hkind
  · exact ⟨c, hpeek, htoken⟩

/-- A move of the scan for symbols over a quote outside the literals starts at the quote. -/
theorem visits_quote {back : Text} (hin : here.IsIn text) (hhead : here.rest = c :: back)
    (hquote : c = '"' ∨ c = '\'')
    (houtside : (Literals.ofText text).all.contains here.offset = false) :
    ∃ there, Visits (symbolStep (Literals.ofText text).all .cpp) (Place.start text) here ∧
      MovesTo (symbolStep (Literals.ofText text).all .cpp) here there := by
  rcases exists_visits_over (advances_symbolStep_cpp text) hin hhead with
    ⟨p, p', a, b, hp, hmove, hcovers, hrest, hlen, hhere⟩
  have hunquoted : (∀ x ∈ a ++ c :: b, x ≠ '"' ∧ x ≠ '\'') → a = [] := by
    intro hall
    have hc := hall c (by simp)
    rcases hquote with rfl | rfl
    · exact absurd rfl hc.1
    · exact absurd rfl hc.2
  have hsingle : ∀ {d : Char}, a ++ c :: b = [d] → a = [] := by
    intro d h
    cases a with
    | nil => rfl
    | cons x a => simp at h
  -- `a` is what the move covers before the quote: it is empty if the move is over one character,
  -- or over characters none of which is a quote
  suffices ha : a = [] by
    have hoffset : here.offset = p.offset := by
      rw [hhere, ha, Place.past_offset, byteLen_nil, Nat.add_zero]
    obtain rfl : here = p := hin.eq_of_offset (hp.isIn (Place.isIn_start text)) hoffset
    exact ⟨p', hp, hmove⟩
  rcases hmove.exists_head with ⟨d, u, hd⟩
  cases hskip : (Literals.ofText text).all.spanAt? p.offset with
  | some s =>
    have hoffset := hmove.offset_eq
    rw [symbolStep_skip _ hskip, Move.pass] at hoffset
    have hinside := (spanAt?_literals SpanSet.empty hskip).2.2 here.offset hcovers.1
      (by dsimp only at hoffset; omega)
    rw [houtside] at hinside
    cases hinside
  | none =>
    have hcases : SymbolMove (Literals.ofText text).all .cpp p d := symbolStep_cases hskip hd
    cases hcases with
    | layout hlayout hstep =>
      rw [hstep, Move.pass, ← utf8Size_of_isLayout hlayout] at hlen
      exact hsingle (eq_singleton_of_byteLen hrest hd hlen)
    | number hnumber hstep =>
      rcases exists_constantAt_of_numberLen? hnumber with ⟨rule, there, front, hat, hkind, -⟩
      rw [hstep, Move.pass] at hlen
      apply hunquoted
      rw [(append_inj_of_byteLen (hrest.symm.trans hat.rest_eq)
        (hlen.trans hat.byteLen_eq.symm)).1]
      exact hat.unquoted hkind
    | word _ _ hstep =>
      rw [hstep, Move.pass] at hlen
      apply hunquoted
      rw [eq_takeWhile_of_wordLen hrest hlen]
      exact unquoted_word p.rest
    | symbol _ hmatch hstep =>
      rcases SymbolTable.longestMatch_eq_some hmatch with ⟨hmem, tail, htail⟩
      rw [hstep] at hlen
      apply hunquoted
      rw [(append_inj_of_byteLen (hrest.symm.trans htail) hlen).1]
      exact fun x hx => ((apart_of_mem_cpp hmem).1 x hx).2
    | unknown _ _ hstep =>
      rw [hstep] at hlen
      exact hsingle (eq_singleton_of_byteLen hrest hd hlen)

theorem mem_located_of_isIn {back : Text} (hin : here.IsIn text) (hhead : here.rest = c :: back) :
    (here.offset, c) ∈ located id 0 text := by
  rcases hin with ⟨read, htext, hoffset, -⟩
  rw [htext, hhead, hoffset, located_append]
  simp

/-- The unknown quotes that the scan for symbols reports are those outside the literals. -/
theorem unknownAt_mem_iff {offset : Nat} (hquote : c = '"' ∨ c = '\'') :
    Token.unknownAt offset c ∈ tokensOf (scan (symbolStep (Literals.ofText text).all .cpp)
        (Place.start text)) ↔
      (offset, c) ∈ located id 0 text ∧ (Literals.ofText text).all.contains offset = false := by
  constructor
  · intro h
    rcases mem_tokensOf_scan.1 h with ⟨p, p', hp, hreports⟩
    have hspan : Span.ofLen offset c.utf8Size = ⟨p.offset, p'.offset⟩ := hreports.span_eq
    obtain rfl : offset = p.offset := congrArg Span.start hspan
    exact ⟨mem_located_of_isIn (hp.isIn (Place.isIn_start text)) hreports.rest_eq,
      (symbolStep_reports hreports).1⟩
  · rintro ⟨hmem, houtside⟩
    rcases mem_located hmem with ⟨front, back, htext, hoffset⟩
    rw [List.map_id] at hoffset
    rcases exists_place_between htext with ⟨here, hin, hhead, hstart, -⟩
    have hhere : here.offset = offset := hstart.trans hoffset.symm
    rw [← hhere] at houtside ⊢
    rcases visits_quote hin hhead hquote houtside with ⟨there, hvisits, hmove⟩
    have hstep := symbolStep_quote (SpanSet.spanAt?_eq_none.2 houtside) hhead hquote
    rcases tokensOf_scan_of_movesTo hmove with ⟨hkind, -⟩ | ⟨token, hreports, -⟩
    · rw [hstep] at hkind
      cases hkind
    · -- what is reported is the quote alone
      have hsize : c.utf8Size = 1 := by rcases hquote with rfl | rfl <;> rfl
      have hsplit : here.rest = [c] ++ back := hhead
      have hlexeme : token.lexeme = [c] := by
        apply hreports.lexeme_eq hsplit
        rw [hstep, byteLen_cons, hsize]
        rfl
      have hkind := hreports.kind_eq
      have hspan := hreports.span_eq
      rw [hreports.moves.offset_eq, hstep] at hspan
      rw [hstep] at hkind
      have htoken : token = Token.unknownAt here.offset c := by
        rw [Token.unknownAt, hsize]
        cases token
        simp_all [Move.report, Span.ofLen]
      rw [← htoken]
      exact mem_tokensOf_scan.2 ⟨here, there, hvisits, hreports⟩

/-- No token is there twice. -/
theorem Sliced.nodup (h : Sliced text tokens) : tokens.Nodup := by
  apply h.apart.imp_of_mem
  rintro s _ hs - hapart rfl
  have := (h.slices s hs).1
  omega

/-- The unknown quotes among the tokens of a text, in some order, are those outside the literals. -/
theorem perm_quotes (hsliced : Sliced text (tokensOf (scan
    (symbolStep (Literals.ofText text).all .cpp) (Place.start text)))) :
    ((tokensOf (scan (symbolStep (Literals.ofText text).all .cpp) (Place.start text))).filter
      fun t => (t.lexeme = ['"'] || t.lexeme = ['\'']) && t.kind = .unknown).Perm
    (((located id 0 text).filter fun x => (x.2 = '"' || x.2 = '\'') &&
      !(Literals.ofText text).all.contains x.1).map fun x => Token.unknownAt x.1 x.2) := by
  have hinj : Function.Injective fun x : Nat × Char => Token.unknownAt x.1 x.2 := by
    rintro ⟨o, c⟩ ⟨o', c'⟩ h
    have hlexeme : [c] = [c'] := congrArg Token.lexeme h
    have hstart : o = o' := congrArg (fun t : Token => t.span.start) h
    rw [hstart, (List.cons.inj hlexeme).1]
  have hlocated : (located id 0 text).Nodup :=
    pairwise_located.imp fun hlt heq => by simp [heq] at hlt
  -- nothing stands in either list twice, so it is enough that they have the same members
  rw [List.perm_ext_iff_of_nodup (hsliced.nodup.filter _) ((hlocated.filter _).map hinj)]
  intro t
  rw [List.mem_filter, List.mem_map]
  constructor
  · rintro ⟨ht, hok⟩
    rw [Bool.and_eq_true, decide_eq_true_eq] at hok
    rcases mem_tokensOf_scan.1 ht with ⟨p, p', -, hreports⟩
    rcases hreports.exists_unknownAt hok.2 with ⟨c, -, rfl⟩
    have hquote : c = '"' ∨ c = '\'' := by simpa [Token.unknownAt] using hok.1
    rcases (unknownAt_mem_iff hquote).1 ht with ⟨hmem, houtside⟩
    refine ⟨(p.offset, c), List.mem_filter.2 ⟨hmem, ?_⟩, rfl⟩
    simpa [houtside] using hquote
  · rintro ⟨⟨offset, c⟩, hx, rfl⟩
    rcases List.mem_filter.1 hx with ⟨hmem, hok⟩
    have hboth : (c = '"' ∨ c = '\'') ∧ (Literals.ofText text).all.contains offset = false := by
      simpa using hok
    refine ⟨(unknownAt_mem_iff hboth.1).2 ⟨hmem, hboth.2⟩, ?_⟩
    simpa [Token.unknownAt] using hboth.1

/-- What an unknown token that is no quote shows. -/
theorem flawOfUnknown?_other {others : List Span} (hdouble : t.lexeme ≠ ['"'])
    (hsingle : t.lexeme ≠ ['\'']) :
    Diagnostic.flawOfUnknown? others t = some (.unrecognized t.lexeme) := by
  unfold Diagnostic.flawOfUnknown?
  split <;> simp_all

/-- A quote starts a literal without an end, unless one of the other spans covers it. -/
theorem flawOfUnknown?_unknownAt {others : List Span} {offset : Nat}
    (hquote : c = '"' ∨ c = '\'') :
    Diagnostic.flawOfUnknown? others (Token.unknownAt offset c) =
      if others.any (·.contains offset) then none else some (.unterminatedLiteral c) := by
  rcases hquote with rfl | rfl <;> rfl

/-- The unknown tokens of the last step show the quotes that are never closed, and the others. -/
theorem perm_unknowns {others : List Span} (hlayer : r.layer = .symbols)
    (hsliced : Sliced text r.sweep.tokens)
    (htokens : r.sweep.tokens = tokensOf (scan (symbolStep (Literals.ofText text).all .cpp)
      (Place.start text))) :
    (Diagnostic.unknowns others r).Perm
      ((strayQuotes text others).map (fun x => (.unterminatedLiteral x.2, .symbols,
          r.inputOrigin.spanToSource (Span.ofLen x.1 x.2.utf8Size))) ++
        (otherUnknowns r).map (fun t => (.unrecognized t.lexeme, .symbols, r.rawSpan t))) := by
  -- the quotes first, then the others, which changes the order only
  have hsplit := List.filter_append_perm
    (fun t : Token => t.lexeme = ['"'] || t.lexeme = ['\''])
    (r.sweep.tokens.filter (·.kind = .unknown))
  refine (hsplit.symm.filterMap _).trans ?_
  rw [List.filterMap_append, List.filter_filter, List.filter_filter]
  refine List.Perm.append ?_ (List.Perm.of_eq ?_)
  · rw [htokens] at hsliced ⊢
    refine ((perm_quotes hsliced).filterMap _).trans (List.Perm.of_eq ?_)
    rw [List.filterMap_map, strayQuotes, ← List.filterMap_eq_map, List.filterMap_filter,
      List.filterMap_filter]
    apply List.filterMap_congr
    rintro ⟨offset, c⟩ -
    dsimp only [Function.comp]
    by_cases hquote : c = '"' ∨ c = '\''
    · have hok : (c = '"' || c = '\'') = true := by simpa using hquote
      rw [flawOfUnknown?_unknownAt hquote, hok, hlayer]
      cases (Literals.ofText text).all.contains offset <;>
        cases others.any (·.contains offset) <;> rfl
    · have hok : (c = '"' || c = '\'') = false := by simpa using hquote
      rw [hok]
      rfl
  · rw [otherUnknowns, ← List.filterMap_eq_map, List.filterMap_filter, List.filterMap_filter]
    apply List.filterMap_congr
    intro t _
    by_cases hquote : t.lexeme = ['"'] ∨ t.lexeme = ['\'']
    · rcases hquote with h | h <;> simp [h]
    · rw [not_or] at hquote
      rw [flawOfUnknown?_other hquote.1 hquote.2, hlayer]
      simp [hquote]

/-! ## Where the flaws are -/

theorem Span.overlaps_eq_false {s t : Span} :
    s.overlaps t = false ↔ s.stop ≤ t.start ∨ t.stop ≤ s.start := by
  simp only [Span.overlaps, Bool.and_eq_false_iff, decide_eq_false_iff_not]
  omega

/-- A character that is a token stands in the source as it is, unless it is layout. -/
theorem Passage.Traced.slice_rawSpan (h : r.Traced source profile) (hprofile : profile.IsBuilt)
    (ht : t ∈ r.sweep.tokens) (hlexeme : t.lexeme = [c]) (hc : isLayout c = false) :
    slice source (r.rawSpan t) = .ok [c] := by
  rcases h.exists_source hprofile ht (by rw [hlexeme]; rfl) hc with
    ⟨front, back, hsource, hstart⟩
  rcases (h.sliced hprofile).slices t ht with ⟨hlt, hslice⟩
  rcases h with ⟨before, -, hinput, -, htraces⟩
  rw [hinput, hlexeme] at hslice
  rcases exists_trail_of_slice htraces hslice hlt with
    ⟨passed, a, part, ahead, b, -, hshown, hlast, hspan, -⟩
  obtain ⟨hshown, hpart⟩ := List.cons.inj hshown
  rw [List.map_eq_nil_iff.1 hpart] at hlast
  obtain rfl : a = b := Option.some.inj hlast
  have hsize : a.2.utf8Size = c.utf8Size := by rw [← hshown, utf8Size_shownAt]
  have hstop : (r.rawSpan t).stop = (r.rawSpan t).start + a.2.utf8Size := by
    rw [Passage.rawSpan, hspan]
  refine slice_eq_ok.2 ⟨front, back, by rw [hsource]; simp, hstart.symm, ?_⟩
  rw [hstop, hsize, byteLen_cons, byteLen_nil, Nat.add_zero]

/-- What a later step finds stands in the source before a comment that is never closed. -/
theorem Passage.Traced.stop_le_of_neverCloses {u : Token} (h : r.Traced source profile)
    (hprofile : profile.IsBuilt) (hlayer : r.layer ≠ .uncommented) (hu : u ∈ r.sweep.tokens)
    (ht : t ∈ (stripComments source).tokens ∧ t.kind = .comment) (hopen : t.NeverCloses source) :
    (r.rawSpan u).stop ≤ t.span.start := by
  rcases (h.sliced hprofile).slices u hu with ⟨hlt, hslice⟩
  rcases h with ⟨before, hnext, hinput, -, htraces⟩
  rw [hinput] at hslice
  rcases exists_trail_of_slice htraces hslice hlt with
    ⟨passed, a, part, ahead, b, htrail, -, hlast, hspan, -⟩
  have hraw : before ≠ .raw := by
    rintro rfl
    exact hlayer (Option.some.inj hnext).symm
  -- the last character of the token stands in the stripped text, so in no comment
  have hb : b ∈ strippedTrail source := by
    apply (sublist_trailAt_of_ne_raw hraw).subset
    rw [htrail]
    exact List.mem_append_left _ (List.mem_append_right _ (List.mem_of_getLast? hlast))
  rcases exists_filter_eq_strippedTrail source with ⟨cut, hcut⟩
  have hfilter : b ∈ (located id 0 source).filter fun x => isOutsideComments source x.1 := by
    rw [hcut]
    exact List.mem_append_left _ hb
  rcases List.mem_filter.1 hfilter with ⟨hlocated, houtside⟩
  have hout := isOutsideComments_eq_true.1 houtside t ht.1 ht.2
  have hbounds := (bounds_of_mem_located hlocated).2
  rw [List.map_id] at hbounds
  -- the comment covers all of the source from its start on
  have hend : t.span.stop = byteLen source := by
    rcases mem_comments.1 ht with ⟨q, q', hq, hreports⟩
    have hq' := ((hq.tail hreports.moves).isIn (Place.isIn_start source)).offset_le
    have hnever := (hreports.neverCloses_iff (hq.isIn (Place.isIn_start source))).1 hopen
    rw [hreports.rest_of_isOpenComment hnever, byteLen_nil] at hq'
    rw [hreports.span_eq]
    exact hq'
  have hpos := b.2.utf8Size_pos
  have hbefore : b.1 < t.span.start := by
    by_contra hnot
    rw [Span.contains_eq_true.2
      ⟨Nat.le_of_not_lt hnot, by simp only [id] at hbounds; omega⟩] at hout
    cases hout
  rcases hopen with ⟨front, body, hsource, hstart, -⟩
  rw [hsource, located_append, List.map_id] at hlocated
  have hstop : (r.rawSpan u).stop = b.1 + b.2.utf8Size := by rw [Passage.rawSpan, hspan]
  rcases List.mem_append.1 hlocated with hlocated | hlocated
  · have hfront := (bounds_of_mem_located hlocated).2
    rw [List.map_id] at hfront
    simp only [id] at hfront
    omega
  · have hback := (bounds_of_mem_located hlocated).1
    omega

/-- Maps along the same bytes lead spans to the same place. -/
theorem spanToSource_congr {m m' : OffsetMap} {bytes : List Nat} {inLen inLen' : Nat} {span : Span}
    (h : m.Traces bytes inLen) (h' : m'.Traces bytes inLen') (hlt : span.start < span.stop)
    (hle : span.stop ≤ bytes.length) : m.spanToSource span = m'.spanToSource span := by
  unfold OffsetMap.spanToSource
  rw [h.toSource_eq h' (show span.start < bytes.length by omega),
    h.toSource_eq h' (show span.stop - 1 < bytes.length by omega)]

/-- A character that is not one of an empty pair stands apart from the pair. -/
theorem apart_of_emptyPair {pair char : Span} (hpair : slice text pair = .ok ['\'', '\''])
    (hchar : slice text char = .ok [c]) (hnot : c = '\'' → pair.contains char.start = false) :
    pair.overlaps char = false := by
  rw [Span.overlaps_eq_false]
  rcases slice_eq_ok.1 hpair with ⟨front, back, htext, hstart, hstop⟩
  rcases slice_eq_ok.1 hchar with ⟨front', back', htext', hstart', hstop'⟩
  have hsize : ('\'' : Char).utf8Size = 1 := rfl
  rw [List.append_assoc] at htext htext'
  simp only [byteLen_cons, byteLen_nil, hsize] at hstop hstop'
  -- the character stands before the pair, or is one of its quotes, or stands behind both
  rcases Nat.lt_or_ge (byteLen front') (byteLen front) with hlt | hge
  · right
    rcases exists_middle_of_byteLen_le (htext'.symm.trans htext) (Nat.le_of_lt hlt) with
      ⟨middle, hfront, hrest⟩
    rw [hfront, byteLen_append] at hlt hstart
    cases middle with
    | nil =>
      rw [byteLen_nil] at hlt
      omega
    | cons d middle =>
      obtain rfl : c = d := (List.cons.inj hrest).1
      rw [byteLen_cons] at hstart
      omega
  · left
    rcases exists_middle_of_byteLen_le (htext.symm.trans htext') hge with ⟨middle, hfront, hrest⟩
    rw [hfront, byteLen_append] at hstart'
    have houtside : c = '\'' → ¬(pair.start ≤ char.start ∧ char.start < pair.stop) := by
      intro hc hcovers
      rw [← Span.contains_eq_true, hnot hc] at hcovers
      cases hcovers
    rcases middle with _ | ⟨d, _ | ⟨e, middle⟩⟩
    · have hc : c = '\'' := (List.cons.inj hrest).1.symm
      rw [byteLen_nil] at hstart'
      have := houtside hc
      omega
    · obtain ⟨hd, htail⟩ := List.cons.inj hrest
      have hc : c = '\'' := (List.cons.inj htail).1.symm
      rw [← hd, byteLen_cons, byteLen_nil, hsize] at hstart'
      have := houtside hc
      omega
    · obtain ⟨hd, htail⟩ := List.cons.inj hrest
      rw [← hd, ← (List.cons.inj htail).1, byteLen_cons, byteLen_cons, hsize] at hstart'
      omega

/-! ## The steps that diagnostics are read off -/

/-- The three steps of a run over a source of C++ that its diagnostics are read off. -/
structure ReadOff (source : Text) (passages : List Passage)
    (comments constants symbols : Passage) : Prop where
  traced : ∀ r ∈ passages, r.Traced source .cpp
  comments : passages.find? (·.layer = .uncommented) = some comments
  constants : passages.find? (·.layer = .constants) = some constants
  symbols : passages.find? (·.layer = .symbols) = some symbols

namespace ReadOff

variable {comments constants symbols : Passage}

theorem of_find? {layer : Layer} (htraced : ∀ r ∈ passages, r.Traced source .cpp)
    (h : passages.find? (·.layer = layer) = some r) : r.Traced source .cpp ∧ r.layer = layer :=
  ⟨htraced r (List.mem_of_find?_eq_some h), by simpa using List.find?_some h⟩

theorem sightings_eq (h : ReadOff source passages comments constants symbols) :
    Diagnostic.sightings passages = Diagnostic.openComments comments ++
      (emptyPairs constants).map (fun t =>
        (.emptyChar, .constants, constants.rawSpan t)) ++
      Diagnostic.unknowns ((emptyPairs constants).map (·.span)) symbols := by
  have hlayer := (of_find? h.traced h.constants).2
  simp [Diagnostic.sightings, h.comments, h.constants, h.symbols, hlayer, emptyChars_eq]

/-- The first step of a run is the sweep for comments over the source. -/
theorem sweep_comments (h : ReadOff source passages comments constants symbols) :
    comments.sweep = stripComments source := by
  rcases of_find? h.traced h.comments with ⟨htraced, hlayer⟩
  have hnext : Layer.raw.next? = some comments.layer := by rw [hlayer]; rfl
  have hsweep := (htraced.of_next? hnext).2.1
  rw [hlayer] at hsweep
  exact (Except.ok.inj hsweep).symm

theorem openingOf (h : ReadOff source passages comments constants symbols) :
    OpeningOf source comments.sweep.tokens (Diagnostic.openComments comments) :=
  have hcomments := of_find? h.traced h.comments
  openComments_eq hcomments.1 ⟨_, rfl⟩ hcomments.2 h.sweep_comments

/-- The tokens of the last step are those of the scan for the symbols of C++. -/
theorem tokens_symbols (h : ReadOff source passages comments constants symbols) :
    symbols.sweep.tokens = tokensOf (scan
      (symbolStep (Literals.ofText (textAt source .condensed)).all .cpp)
      (Place.start (textAt source .condensed))) := by
  rcases of_find? h.traced h.symbols with ⟨htraced, hlayer⟩
  have hnext : Layer.identifiers.next? = some symbols.layer := by rw [hlayer]; rfl
  have hsweep := (htraced.of_next? hnext).2.1
  rw [hlayer] at hsweep
  exact tokens_of_ofScan hsweep

/-- The constants and the symbols are slices of one text, and their maps lead along one trail. -/
theorem sliced (h : ReadOff source passages comments constants symbols) :
    (Sliced (textAt source .condensed) constants.sweep.tokens ∧
      constants.inputOrigin.Traces (trailBytes (trailAt source .condensed)) (byteLen source)) ∧
    Sliced (textAt source .condensed) symbols.sweep.tokens ∧
      symbols.inputOrigin.Traces (trailBytes (trailAt source .condensed)) (byteLen source) := by
  rcases of_find? h.traced h.constants with ⟨hctraced, hclayer⟩
  rcases of_find? h.traced h.symbols with ⟨hstraced, hslayer⟩
  have hcnext : Layer.condensed.next? = some constants.layer := by rw [hclayer]; rfl
  have hsnext : Layer.identifiers.next? = some symbols.layer := by rw [hslayer]; rfl
  rcases hctraced.of_next? hcnext with ⟨hcinput, -, hctraces⟩
  rcases hstraced.of_next? hsnext with ⟨hsinput, -, hstraces⟩
  have hcsliced := hctraced.sliced ⟨_, rfl⟩
  have hssliced := hstraced.sliced ⟨_, rfl⟩
  rw [hcinput] at hcsliced
  rw [hsinput] at hssliced
  exact ⟨⟨hcsliced, hctraces⟩, hssliced, hstraces⟩

/-- The flaws of a run, one by one. -/
theorem perm_sightings (h : ReadOff source passages comments constants symbols) :
    (Diagnostic.sightings passages).Perm
      (Diagnostic.openComments comments ++ tokenFlaws source constants symbols) := by
  rw [h.sightings_eq, List.append_assoc]
  exact ((perm_unknowns (of_find? h.traced h.symbols).2 h.sliced.2.1
    h.tokens_symbols).append_left _).append_left _

/-- What the last step shows is about one character, which is no layout. -/
theorem exists_of_mem_unknowns (h : ReadOff source passages comments constants symbols)
    {others : List Span} {s : Diagnostic.Sighting} (hs : s ∈ Diagnostic.unknowns others symbols) :
    ∃ offset c, Token.unknownAt offset c ∈ symbols.sweep.tokens ∧ isLayout c = false ∧
      Diagnostic.flawOfUnknown? others (Token.unknownAt offset c) = some s.1 ∧
      s.2.2 = symbols.rawSpan (Token.unknownAt offset c) := by
  rcases of_find? h.traced h.symbols with ⟨htraced, hlayer⟩
  rcases List.mem_filterMap.1 hs with ⟨t, ht, hread⟩
  rcases Option.map_eq_some_iff.1 hread with ⟨flaw, hflaw, rfl⟩
  rcases List.mem_filter.1 ht with ⟨ht, hkind⟩
  rw [decide_eq_true_eq] at hkind
  rcases htraced.exists_head_of_unknown hlayer ht hkind with ⟨d, hhead, hd⟩
  have htoken := ht
  rw [h.tokens_symbols] at htoken
  rcases mem_tokensOf_scan.1 htoken with ⟨p, p', -, hreports⟩
  rcases hreports.exists_unknownAt hkind with ⟨c, -, rfl⟩
  obtain rfl : c = d := Option.some.inj hhead
  exact ⟨p.offset, c, ht, hd, hflaw, rfl⟩

/-- What the first of the two steps finds stands in the source where the last would find it. -/
theorem rawSpan_constants (h : ReadOff source passages comments constants symbols)
    (ht : t ∈ constants.sweep.tokens) :
    constants.rawSpan t = symbols.inputOrigin.spanToSource t.span := by
  rcases h.sliced with ⟨⟨hsliced, hctraces⟩, -, hstraces⟩
  rcases hsliced.slices t ht with ⟨hlt, hslice⟩
  refine spanToSource_congr hctraces hstraces hlt ?_
  rw [length_trailBytes_trailAt]
  exact stop_le_of_slice hslice

/-- An empty pair and what the last step shows stand apart. -/
theorem apart_emptyPairs_unknowns (h : ReadOff source passages comments constants symbols)
    (ht : t ∈ emptyPairs constants) {s : Diagnostic.Sighting}
    (hs : s ∈ Diagnostic.unknowns ((emptyPairs constants).map (·.span)) symbols) :
    (constants.rawSpan t).overlaps s.2.2 = false := by
  rcases h.exists_of_mem_unknowns hs with ⟨offset, c, hu, -, hflaw, hspan⟩
  rcases List.mem_filter.1 ht with ⟨htoken, hpair⟩
  rw [Bool.and_eq_true, decide_eq_true_eq, decide_eq_true_eq] at hpair
  rcases h.sliced with ⟨⟨hcsliced, -⟩, hssliced, htraces⟩
  rcases hcsliced.slices t htoken with ⟨htlt, htslice⟩
  rcases hssliced.slices _ hu with ⟨hult, huslice⟩
  -- a quote of the pair would not be shown
  have hnot : c = '\'' → t.span.contains offset = false := by
    rintro rfl
    rw [flawOfUnknown?_unknownAt (.inr rfl)] at hflaw
    split at hflaw
    · cases hflaw
    · rename_i hany
      rw [List.any_map, List.any_eq_true] at hany
      by_contra hcontains
      exact hany ⟨t, ht, by simpa using hcontains⟩
  have hapart := apart_of_emptyPair (hpair.2 ▸ htslice) huslice hnot
  rw [Span.overlaps_eq_false] at hapart ⊢
  rw [h.rawSpan_constants htoken, hspan]
  exact hapart.imp (spanToSource_apart htraces htlt hult (stop_le_of_slice huslice))
    (spanToSource_apart htraces hult htlt (stop_le_of_slice htslice))

/-- Behind the opening of a comment that is never closed, nothing else is found. -/
theorem apart_openComments (h : ReadOff source passages comments constants symbols)
    {s : Diagnostic.Sighting} (hs : s ∈ Diagnostic.openComments comments) (hr : r ∈ passages)
    (hlayer : r.layer ≠ .uncommented) (ht : t ∈ r.sweep.tokens) :
    s.2.2.overlaps (r.rawSpan t) = false := by
  rcases of_find? h.traced h.comments with ⟨htraced, hcomments⟩
  rcases List.mem_map.1 hs with ⟨k, hk, rfl⟩
  rcases List.mem_filter.1 hk with ⟨hk, hopen⟩
  rw [Bool.and_eq_true, decide_eq_true_eq] at hopen
  have hstart := htraced.start_rawSpan ⟨_, rfl⟩ hcomments hk
  rw [h.sweep_comments] at hk
  rcases mem_comments.1 ⟨hk, hopen.1⟩ with ⟨p, p', hp, hreports⟩
  have hnever := (hreports.neverCloses_iff (hp.isIn (Place.isIn_start source))).2 hopen.2
  have hstop := (h.traced r hr).stop_le_of_neverCloses ⟨_, rfl⟩ hlayer ht ⟨hk, hopen.1⟩ hnever
  exact Span.overlaps_eq_false.2 (.inr (by rw [← hstart] at hstop; exact hstop))

/-- No two flaws of a run share a byte of the source. -/
theorem pairwise_sightings (h : ReadOff source passages comments constants symbols) :
    (Diagnostic.sightings passages).Pairwise fun s s' => s.2.2.overlaps s'.2.2 = false := by
  have hconstants := of_find? h.traced h.constants
  have hsymbols := of_find? h.traced h.symbols
  have hcapart := (hconstants.1.spansSource ⟨_, rfl⟩).apart
  have hsapart := (hsymbols.1.spansSource ⟨_, rfl⟩).apart
  rw [h.sightings_eq, List.pairwise_append, List.pairwise_append]
  refine ⟨⟨h.openingOf.pairwise _, ?_, ?_⟩, ?_, ?_⟩
  · exact List.pairwise_map.2
      ((hcapart.filter _).imp fun hle => Span.overlaps_eq_false.2 (.inl hle))
  · intro s hs s' hs'
    rcases List.mem_map.1 hs' with ⟨t, ht, rfl⟩
    exact h.apart_openComments hs (List.mem_of_find?_eq_some h.constants)
      (by rw [hconstants.2]; decide) (List.mem_filter.1 ht).1
  · refine List.pairwise_filterMap.2 ((hsapart.filter _).imp ?_)
    intro t t' hle s hs s' hs'
    rcases Option.map_eq_some_iff.1 hs with ⟨flaw, -, rfl⟩
    rcases Option.map_eq_some_iff.1 hs' with ⟨flaw', -, rfl⟩
    exact Span.overlaps_eq_false.2 (.inl hle)
  · intro s hs s' hs'
    rcases List.mem_append.1 hs with hs | hs
    · rcases h.exists_of_mem_unknowns hs' with ⟨offset, c, hu, -, -, hspan⟩
      rw [hspan]
      exact h.apart_openComments hs (List.mem_of_find?_eq_some h.symbols)
        (by rw [hsymbols.2]; decide) hu
    · rcases List.mem_map.1 hs with ⟨t, ht, rfl⟩
      exact h.apart_emptyPairs_unknowns ht hs'

/-- A flaw that is about a character shows the character that stands there in the source. -/
theorem slice_of_unknown (h : ReadOff source passages comments constants symbols)
    {s : Diagnostic.Sighting} (hs : s ∈ Diagnostic.sightings passages)
    (hcomment : s.1 ≠ .unterminatedComment) (hpair : s.1 ≠ .emptyChar) :
    ∃ c, (s.1 = .unterminatedLiteral c ∨ s.1 = .unrecognized [c]) ∧
      slice source s.2.2 = .ok [c] := by
  rw [h.sightings_eq] at hs
  rcases List.mem_append.1 hs with hs | hs
  · rcases List.mem_append.1 hs with hs | hs
    · rcases List.mem_map.1 hs with ⟨t, -, rfl⟩
      exact absurd rfl hcomment
    · rcases List.mem_map.1 hs with ⟨t, -, rfl⟩
      exact absurd rfl hpair
  · rcases h.exists_of_mem_unknowns hs with ⟨offset, c, hu, hc, hflaw, hspan⟩
    rw [hspan]
    refine ⟨c, ?_, (of_find? h.traced h.symbols).1.slice_rawSpan ⟨_, rfl⟩ hu rfl hc⟩
    by_cases hquote : c = '"' ∨ c = '\''
    · rw [flawOfUnknown?_unknownAt hquote] at hflaw
      split at hflaw
      · cases hflaw
      · exact .inl (Option.some.inj hflaw).symm
    · rw [flawOfUnknown?_other] at hflaw
      · exact .inr (Option.some.inj hflaw).symm
      · exact fun heq => hquote (.inl (List.cons.inj heq).1)
      · exact fun heq => hquote (.inr (List.cons.inj heq).1)

end ReadOff

/-! ## Diagnostics of a run -/

theorem Span.Marks.lt {span : Span} (h : span.Marks source) : span.start < span.stop := by
  rcases h with ⟨front, middle, back, c, -, hhead, -, rfl⟩
  have hpos : 0 < byteLen middle := byteLen_pos (by rintro rfl; cases hhead)
  rw [byteLen_append]
  exact Nat.lt_add_of_pos_right hpos

/-- Spans that are in order and share no byte stand one behind the other. -/
theorem stop_le_of_le {s t : Span} (ht : t.start < t.stop) (hle : s.le t = true)
    (hoverlaps : s.overlaps t = false) : s.stop ≤ t.start := by
  rw [Span.le_eq_true] at hle
  rw [Span.overlaps_eq_false] at hoverlaps
  omega

/-- A diagnostic has the line and the column of the start of its span. -/
theorem exists_behind {d : Diagnostic} {position : Position} (hmarks : d.span.Marks source)
    (hposition : (LineIndex.ofText source).positionAt d.span.start = .ok position)
    (hline : d.line = position.line) (hcolumn : d.column = position.column) :
    ∃ front back, source = front ++ back ∧ byteLen front = d.span.start ∧
      d.line = (Position.behind front).line ∧ d.column = (Position.behind front).column := by
  rcases isBoundary_eq_true.1 hmarks.isBoundary.1 with ⟨front, back, hsource, hstart⟩
  rw [← hstart, hsource, positionAt_append] at hposition
  obtain rfl := Except.ok.inj hposition
  exact ⟨front, back, hsource, hstart, hline, hcolumn⟩

/-- What is read off the steps of a run is what is wrong with the source. -/
theorem ReadOff.diagnosed {comments constants symbols : Passage}
    (h : ReadOff source passages comments constants symbols)
    (hds : Diagnostic.ofPassages (LineIndex.ofText source) passages = .ok ds) :
    Diagnosed source comments constants symbols ds := by
  rcases ofPassages_eq_ok hds with ⟨hperm, hsorted, hpositions⟩
  have hsighting : ∀ d ∈ ds, d.sighting ∈ Diagnostic.sightings passages :=
    fun d hd => hperm.mem_iff.1 (List.mem_map_of_mem hd)
  have hmarks : ∀ d ∈ ds, d.span.Marks source :=
    fun d hd => marks_of_mem_sightings ⟨_, rfl⟩ h.traced (hsighting d hd)
  -- sorting does not change which flaws there are, and to overlap is symmetric
  have hoverlaps : ds.Pairwise fun a b => a.span.overlaps b.span = false := by
    refine List.pairwise_map.1 (h.pairwise_sightings.perm hperm.symm ?_)
    intro s s' hover
    rw [Span.overlaps_eq_false] at hover ⊢
    exact hover.symm
  constructor
  case flaws => exact ⟨_, h.openingOf, hperm.trans h.perm_sightings⟩
  case sorted => exact hsorted
  case apart =>
    apply (hsorted.and hoverlaps).imp_of_mem
    intro a b _ hb hab
    exact stop_le_of_le (hmarks b hb).lt hab.1 hab.2
  case quotes =>
    intro d hd quote hflaw
    rcases h.slice_of_unknown (hsighting d hd) (by simp [Diagnostic.sighting, hflaw])
      (by simp [Diagnostic.sighting, hflaw]) with ⟨c, hc, hslice⟩
    obtain rfl : quote = c := by simpa [Diagnostic.sighting, hflaw] using hc
    exact hslice
  case characters =>
    intro d hd shown hflaw
    rcases h.slice_of_unknown (hsighting d hd) (by simp [Diagnostic.sighting, hflaw])
      (by simp [Diagnostic.sighting, hflaw]) with ⟨c, hc, hslice⟩
    obtain rfl : shown = [c] := by simpa [Diagnostic.sighting, hflaw] using hc
    exact ⟨⟨c, rfl⟩, hslice⟩
  case positions =>
    intro d hd
    rcases hpositions d hd with ⟨position, hposition, hline, hcolumn⟩
    exact exists_behind (hmarks d hd) hposition hline hcolumn
  case counted =>
    rintro hsize d hd front back rfl hstart
    rcases hpositions d hd with ⟨position, hposition, hline, hcolumn⟩
    rcases exists_behind (hmarks d hd) hposition hline hcolumn with
      ⟨front', back', hsource, hstart', hline', hcolumn'⟩
    -- the part before the span is told by its length
    obtain ⟨rfl, -⟩ := append_inj_of_byteLen hsource (hstart.trans hstart'.symm)
    rw [behind_of_lt (byteLen_lt_of_append hsize)] at hline' hcolumn'
    exact ⟨hline', hcolumn'⟩

/-- The diagnostics of a source of C++ are what is wrong with it. -/
theorem exists_diagnosed (source : Text) : ∃ outcome comments constants symbols,
    Outcome.ofText source .cpp = .ok outcome ∧
    outcome.passages.find? (·.layer = .uncommented) = some comments ∧
    outcome.passages.find? (·.layer = .constants) = some constants ∧
    outcome.passages.find? (·.layer = .symbols) = some symbols ∧
    Diagnosed source comments constants symbols outcome.diagnostics := by
  have hprofile : Profile.cpp.IsBuilt := ⟨_, rfl⟩
  rcases exists_outcome source hprofile with ⟨outcome, last, houtcome, hrun, hsteps⟩
  have htraced := traced_of_reachable hprofile (Reachable.start.runRemaining hrun)
  rw [List.nil_append] at htraced
  have hcomments : Layer.raw.next? = some .uncommented := rfl
  have hconstants : Layer.condensed.next? = some .constants := rfl
  have hsymbols : Layer.identifiers.next? = some .symbols := rfl
  rcases hsteps.exists_find hcomments (by decide) with ⟨comments, hmfind, -⟩
  rcases hsteps.exists_find hconstants (by decide) with ⟨constants, hcfind, -⟩
  rcases hsteps.exists_find hsymbols (by decide) with ⟨symbols, hsfind, -⟩
  have hread : ReadOff source outcome.passages comments constants symbols :=
    ⟨htraced, hmfind, hcfind, hsfind⟩
  exact ⟨outcome, comments, constants, symbols, houtcome, hmfind, hcfind, hsfind,
    hread.diagnosed (ofText_eq_ok houtcome).2.2⟩

end Strata
