import Strata.Proofs.Coverage
import Strata.Proofs.SymbolTable

/-!
# A text as symbols and what stands between them

The scan for symbols accounts for every text and every table. What it reports is the longest symbol
at its place, or one character at which there is none. What it does not report is a gap, and each
gap is a chain of pieces that it steps over: layout, literals, numbers and words.

* `StepsOver`: a piece of a gap;
* `Decomposed`: what the tokens of a table and the gaps between them are;
* `stepsOver_of_silent`: each move that reports nothing steps over a piece;
* `exists_decomposed`: the sweep for symbols.
-/

namespace Strata

variable {text : Text} {table : SymbolTable} {tokens : List Token} {here there p p' : Place}
  {token : Token} {step : Place → Move}

/-! ## Gaps -/

/-- A number or a token ends at a place. -/
def EndsUnit (text : Text) (tokens : List Token) (here : Place) : Prop :=
  ∃ p : Place, p.IsIn text ∧ p.offset < here.offset ∧
    (numberLen? p = some (here.offset - p.offset) ∨
      ∃ token ∈ tokens, token.span = ⟨p.offset, here.offset⟩)

/-- A piece of a gap: a character of layout, a span of literals or the rest of one, a number, or a
run of word characters. A run goes on as long as it can, and it starts as early as it can: right
behind another word character only where a number or a token ends. -/
inductive StepsOver (text : Text) (tokens : List Token) : Place → Place → Prop
  | layout {here : Place} {c : Char} {back : Text} (hrest : here.rest = c :: back)
      (hc : isLayout c = true) : StepsOver text tokens here (here.past [c] back)
  | literal {here there : Place} {s : Span} (hs : s ∈ (Literals.ofText text).all.spans)
      (hcontains : s.contains here.offset = true) (hthere : there.IsIn text)
      (hstop : there.offset = s.stop) : StepsOver text tokens here there
  | number {here there : Place} {len : Nat} (hnumber : numberLen? here = some len)
      (hthere : there.IsIn text) (hoffset : there.offset = here.offset + len) :
      StepsOver text tokens here there
  | word {here : Place} {run back : Text} (hrest : here.rest = run ++ back) (hne : run ≠ [])
      (hrun : ∀ c ∈ run, isIdentChar c = true) (hback : back.head?.any isIdentChar = false)
      (hbefore : here.before.any isIdentChar = true → EndsUnit text tokens here) :
      StepsOver text tokens here (here.past run back)

/-- The text between two places is a gap: on either side there is a token or an end of the text, and
no token holds a byte of it. -/
structure IsGap (text : Text) (tokens : List Token) (here there : Place) : Prop where
  here_isIn : here.IsIn text
  there_isIn : there.IsIn text
  le : here.offset ≤ there.offset
  opens : here.offset = 0 ∨ ∃ token ∈ tokens, token.span.stop = here.offset
  closes : there.rest = [] ∨ ∃ token ∈ tokens, token.span.start = there.offset
  free : ∀ token ∈ tokens, token.span.stop ≤ here.offset ∨ there.offset ≤ token.span.start

/-! ## Tokens -/

/-- A token is the longest symbol of a table at its place, and has its class. -/
def Token.IsLongestSymbol (token : Token) (text : Text) (table : SymbolTable) : Prop :=
  ∃ (here : Place) (entry : SymbolEntry), here.IsIn text ∧
    token = ⟨entry.cls.kind, entry.text, Span.ofLen here.offset (byteLen entry.text)⟩ ∧
    entry ∈ table.entries ∧ entry.text <+: here.rest ∧
    ∀ other ∈ table.entries, other.text <+: here.rest → byteLen other.text ≤ byteLen entry.text

/-- A token is one unknown character, at which there is no symbol of a table. -/
def Token.IsUnmatched (token : Token) (text : Text) (table : SymbolTable) : Prop :=
  ∃ (here : Place) (c : Char), here.IsIn text ∧ here.peek? = some c ∧
    token = ⟨.unknown, [c], Span.ofLen here.offset c.utf8Size⟩ ∧
    ∀ entry ∈ table.entries, ¬entry.text <+: here.rest

/-- What the tokens that a table finds in a text are, and what stands between them. -/
structure Decomposed (text : Text) (table : SymbolTable) (tokens : List Token) : Prop
    extends Segmented text tokens where
  gaps : ∀ here there, IsGap text tokens here there →
    Relation.ReflTransGen (StepsOver text tokens) here there
  symbols : ∀ token ∈ tokens, token.kind ≠ .unknown → token.IsLongestSymbol text table
  unknowns : ∀ token ∈ tokens, token.kind = .unknown → token.IsUnmatched text table
  /-- If no symbol holds a quote, no token holds a byte of a literal. -/
  outside : (∀ entry ∈ table.entries, '"' ∉ entry.text ∧ '\'' ∉ entry.text) → ∀ token ∈ tokens,
    ∀ offset, token.span.contains offset = true →
      (Literals.ofText text).all.contains offset = false

/-! ## What the scan steps over -/

/-- Where literals end there is a quote. -/
theorem quote_before_stop {s : Span} (hs : s ∈ (Literals.ofText text).all.spans)
    (hin : here.IsIn text) (hstop : here.offset = s.stop) :
    here.before = some '"' ∨ here.before = some '\'' := by
  rcases SpanSet.exists_stop_eq_of_mem_ofSpans hs with ⟨u, hu, hustop⟩
  rcases (mem_literalSpans SpanSet.empty).1 hu with ⟨q, q', hq, hmove, ⟨len, hquoted⟩, rfl⟩
  have hq' : q' = here := ((hq.tail hmove).isIn (Place.isIn_start text)).eq_of_offset hin
    (hustop.trans hstop.symm)
  rcases hmove with ⟨front, -, hrest, hlen, hpast⟩
  rcases exists_of_quotedLen? hquoted with ⟨literal, back, hliteral, hsize, hquote, -⟩
  rw [len_constantStep_literal hquoted, ← hsize] at hlen
  have hfront : front = literal := (append_inj_of_byteLen (hrest.symm.trans hliteral) hlen).1
  rw [← hq', hpast, hfront]
  rcases hquote with hquote | hquote <;> simp [Place.past, hquote]

/-- Behind a word character, the scan comes to a word character only by a number or a token. -/
theorem endsUnit_of_visits
    (h : Visits (symbolStep (Literals.ofText text).all table) (Place.start text) here)
    (hbefore : here.before.any isIdentChar = true) (hpeek : here.peek?.any isIdentChar = true) :
    EndsUnit text (tokensOf (scan (symbolStep (Literals.ofText text).all table)
      (Place.start text))) here := by
  rcases Relation.ReflTransGen.cases_tail h with rfl | ⟨q, hq, hmove⟩
  · cases hbefore
  have hqin : q.IsIn text := Visits.isIn hq (Place.isIn_start text)
  have hin : here.IsIn text := h.isIn (Place.isIn_start text)
  have hoffset := hmove.offset_eq
  rcases tokensOf_scan_of_movesTo hmove with ⟨hkind, -⟩ | ⟨token, hreports, -⟩
  · rcases hmove.exists_head with ⟨x, u, hx⟩
    rcases hmove with ⟨front, hne, hrest, hlen, hpast⟩
    cases hskip : (Literals.ofText text).all.spanAt? q.offset with
    | some s =>
      rcases SpanSet.spanAt?_eq_some hskip with ⟨hs, -, hlt⟩
      rw [symbolStep_skip table hskip, Move.pass] at hoffset
      -- a quote is no word character
      rcases quote_before_stop hs hin (by dsimp only at hoffset; omega) with hquote | hquote
      · rw [hquote] at hbefore
        cases hbefore
      · rw [hquote] at hbefore
        cases hbefore
    | none =>
      have hcases : SymbolMove (Literals.ofText text).all table q x := symbolStep_cases hskip hx
      cases hcases with
      | layout hlayout hstep =>
        rw [hstep, Move.pass, ← utf8Size_of_isLayout hlayout] at hlen
        rw [hpast, eq_singleton_of_byteLen hrest hx hlen] at hbefore
        have hx' : isIdentChar x = true := by simpa [Place.past] using hbefore
        rw [(apart_of_isLayout hlayout).1] at hx'
        cases hx'
      | @number len hnumber hstep =>
        rw [hstep, Move.pass] at hoffset
        have hpos := byteLen_pos hne
        have hsub : here.offset - q.offset = len := by dsimp only at hoffset; omega
        refine ⟨q, hqin, ?_, Or.inl (hsub ▸ hnumber)⟩
        rw [hpast, Place.past_offset]
        omega
      | word _ _ hstep =>
        rw [hstep, Move.pass] at hlen
        -- a word that is passed whole is not followed by a word character
        have hnext := any_head?_of_takeWhile hrest (eq_takeWhile_of_wordLen hrest hlen)
        rw [← Place.peek?, hpeek] at hnext
        cases hnext
      | symbol _ _ hstep =>
        rw [hstep] at hkind
        cases hkind
      | unknown _ _ hstep =>
        rw [hstep] at hkind
        cases hkind
  · exact ⟨q, hqin, hreports.moves.offset_lt, Or.inr ⟨token,
      mem_tokensOf_scan.2 ⟨q, here, hq, hreports⟩, hreports.span_eq⟩⟩

/-- A move of the scan that reports nothing steps over a piece of a gap. -/
theorem stepsOver_of_silent
    (h : Visits (symbolStep (Literals.ofText text).all table) (Place.start text) here)
    (hmove : MovesTo (symbolStep (Literals.ofText text).all table) here there)
    (hkind : (symbolStep (Literals.ofText text).all table here).kind = none) :
    StepsOver text (tokensOf (scan (symbolStep (Literals.ofText text).all table)
      (Place.start text))) here there := by
  have hthere : there.IsIn text := (h.tail hmove).isIn (Place.isIn_start text)
  have hoffset := hmove.offset_eq
  rcases hmove.exists_head with ⟨c, t, hhead⟩
  rcases hmove with ⟨front, hne, hrest, hlen, hpast⟩
  cases hskip : (Literals.ofText text).all.spanAt? here.offset with
  | some s =>
    rcases SpanSet.spanAt?_eq_some hskip with ⟨hs, hstart, hlt⟩
    rw [symbolStep_skip table hskip, Move.pass] at hoffset
    exact .literal hs (Span.contains_eq_true.2 ⟨hstart, hlt⟩) hthere
      (by dsimp only at hoffset; omega)
  | none =>
    have hcases : SymbolMove (Literals.ofText text).all table here c :=
      symbolStep_cases hskip hhead
    cases hcases with
    | layout hlayout hstep =>
      rw [hstep, Move.pass, ← utf8Size_of_isLayout hlayout] at hlen
      have hfront := eq_singleton_of_byteLen hrest hhead hlen
      rw [hfront] at hrest
      rw [hpast, hfront]
      exact .layout hrest hlayout
    | number hnumber hstep =>
      rw [hstep, Move.pass] at hoffset
      exact .number hnumber hthere hoffset
    | word hident _ hstep =>
      rw [hstep, Move.pass] at hlen
      have hfront := eq_takeWhile_of_wordLen hrest hlen
      rw [hpast]
      refine .word hrest hne ?_ (any_head?_of_takeWhile hrest hfront) ?_
      · intro d hd
        rw [hfront] at hd
        exact isIdentChar_of_mem_takeWhile hd
      · intro hbefore
        apply endsUnit_of_visits h hbefore
        simpa [Place.peek?, hhead] using hident
    | symbol _ _ hstep =>
      rw [hstep] at hkind
      cases hkind
    | unknown _ _ hstep =>
      rw [hstep] at hkind
      cases hkind

/-- Between two places that it visits, a scan that reports nothing steps over one piece after the
other. -/
theorem stepsOver_of_visits
    (h : Visits (symbolStep (Literals.ofText text).all table) (Place.start text) here)
    (hvisits : Visits (symbolStep (Literals.ofText text).all table) here there)
    (hfree : ∀ token ∈ tokensOf (scan (symbolStep (Literals.ofText text).all table)
      (Place.start text)), token.span.stop ≤ here.offset ∨ there.offset ≤ token.span.start) :
    Relation.ReflTransGen (StepsOver text (tokensOf (scan
      (symbolStep (Literals.ofText text).all table) (Place.start text)))) here there := by
  induction hvisits with
  | refl => exact .refl
  | @tail mid there hmid hmove ih =>
    have hvisits : Visits (symbolStep (Literals.ofText text).all table) (Place.start text) mid :=
      h.trans hmid
    refine (ih ?_).tail (stepsOver_of_silent hvisits hmove ?_)
    · intro token htoken
      have := hmove.offset_lt
      rcases hfree token htoken with hstop | hstart
      · exact Or.inl hstop
      · exact Or.inr (by omega)
    · rcases tokensOf_scan_of_movesTo hmove with ⟨hkind, -⟩ | ⟨token, hreports, -⟩
      · exact hkind
      · -- the token would stand in the gap
        have hle := Visits.offset_le hmid
        have hlt := hmove.offset_lt
        have hspan := hreports.span_eq
        rcases hfree token (mem_tokensOf_scan.2 ⟨mid, there, hvisits, hreports⟩) with hstop | hstart
        · rw [hspan] at hstop
          dsimp only at hstop
          omega
        · rw [hspan] at hstart
          dsimp only at hstart
          omega

/-! ## Where gaps start and end -/

/-- A scan that can always move comes to the end. -/
theorem visits_of_rest_eq_nil (hadv : Advances step text) (hin : here.IsIn text)
    (hthere : there.IsIn text) (hend : there.rest = []) : Visits step here there := by
  induction here using MovesTo.induction step with
  | next here ih =>
    by_cases hrest : here.rest = []
    · have hoffset : here.offset = there.offset := by
        have h := hin.offset_le
        have h' := hthere.offset_le
        rw [hrest] at h
        rw [hend] at h'
        exact h.trans h'.symm
      rw [hin.eq_of_offset hthere hoffset]
      exact Visits.refl
    · rcases hadv here hin hrest with ⟨next, hmove⟩
      exact Visits.head hmove (ih next hmove (hmove.isIn hin))

/-- A scan visits both ends of a gap, and comes from one to the other. -/
theorem IsGap.visits (hadv : Advances step text)
    (h : IsGap text (tokensOf (scan step (Place.start text))) here there) :
    Visits step (Place.start text) here ∧ Visits step here there := by
  have hhere : Visits step (Place.start text) here := by
    rcases h.opens with hzero | ⟨token, htoken, hstop⟩
    · rw [(Place.isIn_start text).eq_of_offset h.here_isIn hzero.symm]
      exact Visits.refl
    · rcases mem_tokensOf_scan.1 htoken with ⟨q, q', hq, hreports⟩
      have hq' := hq.tail hreports.moves
      rw [hreports.span_eq] at hstop
      rwa [← (hq'.isIn (Place.isIn_start text)).eq_of_offset h.here_isIn hstop]
  have hthere : Visits step (Place.start text) there := by
    rcases h.closes with hend | ⟨token, htoken, hstart⟩
    · exact visits_of_rest_eq_nil hadv (Place.isIn_start text) h.there_isIn hend
    · rcases mem_tokensOf_scan.1 htoken with ⟨q, q', hq, hreports⟩
      rw [hreports.span_eq] at hstart
      rwa [← (hq.isIn (Place.isIn_start text)).eq_of_offset h.there_isIn hstart]
  refine ⟨hhere, ?_⟩
  -- of two places that one scan visits, one is on the way to the other
  rcases hhere.total hthere with hvisits | hvisits
  · exact hvisits
  · have hle := hvisits.offset_le
    rw [h.here_isIn.eq_of_offset h.there_isIn (Nat.le_antisymm h.le hle)]
    exact Visits.refl

/-! ## What the scan reports -/

/-- The scan reports an unknown character only where the table finds nothing. -/
theorem longestMatch_of_unknown {skip : SpanSet} {c : Char} {t : Text}
    (hskip : skip.spanAt? here.offset = none) (hhead : here.rest = c :: t)
    (hident : isIdentChar c = false) (hnumber : numberLen? here = none)
    (hstep : symbolStep skip table here = .report .unknown c.utf8Size) :
    table.longestMatch here.rest = none := by
  cases hmatch : table.longestMatch here.rest with
  | none => rfl
  | some entry =>
    rw [hhead] at hmatch
    cases hlayout : isLayout c with
    | true => simp [symbolStep, hskip, hhead, hlayout, Move.pass, Move.report] at hstep
    | false =>
      have hkind : entry.cls.kind = .unknown := by
        have := congrArg Move.kind hstep
        simpa [symbolStep, hskip, hhead, hlayout, hnumber, hident, hmatch, Move.report] using this
      cases hcls : entry.cls <;> rw [hcls] at hkind <;> cases hkind

/-- What the scan for symbols reports: the symbol that the table finds, or a character at which it
finds none. -/
theorem symbolStep_reports {skip : SpanSet} (h : Reports (symbolStep skip table) p p' token) :
    skip.contains p.offset = false ∧
      ((∃ entry, table.longestMatch p.rest = some entry ∧
        token = ⟨entry.cls.kind, entry.text, Span.ofLen p.offset (byteLen entry.text)⟩) ∨
      ∃ c, p.peek? = some c ∧ table.longestMatch p.rest = none ∧
        token = ⟨.unknown, [c], Span.ofLen p.offset c.utf8Size⟩) := by
  have hkind := h.kind_eq
  have hlen := h.byteLen_lexeme
  have htoken : token = ⟨token.kind, token.lexeme, ⟨p.offset, p'.offset⟩⟩ := by
    rw [← h.span_eq]
  rw [h.moves.offset_eq] at htoken
  rcases h.moves.exists_head with ⟨c, t, hhead⟩
  cases hskip : skip.spanAt? p.offset with
  | some s =>
    rw [symbolStep_skip _ hskip] at hkind
    cases hkind
  | none =>
    refine ⟨SpanSet.spanAt?_eq_none.1 hskip, ?_⟩
    have hcases : SymbolMove skip table p c := symbolStep_cases hskip hhead
    cases hcases with
    | layout _ hstep | number _ hstep | word _ _ hstep =>
      rw [hstep] at hkind
      cases hkind
    | @symbol entry _ hmatch hstep =>
      left
      rcases SymbolTable.longestMatch_eq_some hmatch with ⟨-, back, hback⟩
      have hlexeme := h.lexeme_eq hback (by rw [hstep]; rfl)
      rw [hstep] at hkind htoken
      rw [hlexeme, ← Option.some.inj hkind] at htoken
      exact ⟨entry, hmatch, htoken⟩
    | unknown hident hnumber hstep =>
      right
      have hnone := longestMatch_of_unknown hskip hhead hident hnumber hstep
      rw [hstep] at hkind hlen htoken
      rw [eq_singleton_of_byteLen h.rest_eq hhead hlen, ← Option.some.inj hkind] at htoken
      exact ⟨c, Place.peek?_eq_some hhead, hnone, htoken⟩

/-- A token that holds a byte of a literal holds its first character. -/
theorem exists_quote_of_contains {offset : Nat} (hp : p.IsIn text)
    (houtside : (Literals.ofText text).all.contains p.offset = false)
    (hreports : Reports step p p' token) (hcontains : token.span.contains offset = true)
    (hliteral : (Literals.ofText text).all.contains offset = true) :
    ∃ a c b, token.lexeme = a ++ c :: b ∧ a ≠ [] ∧ (c = '"' ∨ c = '\'') := by
  rw [hreports.contains_iff] at hcontains
  rcases (contains_literals SpanSet.empty).1 hliteral with
    ⟨q, q', hq, hmove, ⟨len, hquoted⟩, hcovers⟩
  have hqin : q.IsIn text := hq.isIn (Place.isIn_start text)
  -- the literal starts behind the first byte of the token, which is outside of it
  have hlt : p.offset < q.offset := by
    by_contra hnot
    have hinside : (Literals.ofText text).all.contains p.offset = true :=
      (contains_literals SpanSet.empty).2
        ⟨q, q', hq, hmove, ⟨len, hquoted⟩, by omega, by omega⟩
    rw [houtside] at hinside
    cases hinside
  have hend : q.offset < p.offset + byteLen token.lexeme := by
    rw [hreports.byteLen_lexeme, ← hreports.moves.offset_eq]
    omega
  rcases hp.exists_inside hqin hreports.rest_eq (Nat.le_of_lt hlt) hend with
    ⟨a, b, hb, hlexeme, hpast⟩
  rcases List.exists_cons_of_ne_nil hb with ⟨c, b, rfl⟩
  refine ⟨a, c, b, hlexeme, ?_, quote_of_quotedLen? (t := b ++ p'.rest) ?_ hquoted⟩
  · rintro rfl
    rw [hpast, Place.past_offset, byteLen_nil] at hlt
    omega
  · rw [hpast]
    rfl

/-! ## The sweep for symbols -/

/-- A token that is reported is the longest symbol at its place, or a character at which there is
none. -/
theorem SymbolTable.IsSorted.token_cases {skip : SpanSet} (hsorted : table.IsSorted)
    (hne : ∀ entry ∈ table.entries, entry.text ≠ []) (hp : p.IsIn text)
    (h : Reports (symbolStep skip table) p p' token) :
    (token.kind ≠ .unknown → token.IsLongestSymbol text table) ∧
      (token.kind = .unknown → token.IsUnmatched text table) := by
  rcases (symbolStep_reports h).2 with ⟨entry, hmatch, rfl⟩ | ⟨c, hpeek, hnone, rfl⟩
  · rcases (hsorted.longestMatch_eq_some_iff hne).1 hmatch with ⟨hmem, hpre, hlongest⟩
    refine ⟨fun _ => ⟨p, entry, hp, rfl, hmem, hpre, hlongest⟩, ?_⟩
    intro hkind
    cases hcls : entry.cls <;> simp [SymbolClass.kind, hcls] at hkind
  · refine ⟨fun hkind => absurd rfl hkind, fun _ => ?_⟩
    exact ⟨p, c, hp, hpeek, rfl, (hsorted.longestMatch_eq_none hne).1 hnone⟩

/-- Where no symbol holds a quote, no token that is reported holds a byte of a literal. -/
theorem contains_eq_false_of_unquoted {offset : Nat}
    (hunquoted : ∀ entry ∈ table.entries, '"' ∉ entry.text ∧ '\'' ∉ entry.text)
    (hp : p.IsIn text)
    (hreports : Reports (symbolStep (Literals.ofText text).all table) p p' token)
    (hcontains : token.span.contains offset = true) :
    (Literals.ofText text).all.contains offset = false := by
  rcases symbolStep_reports hreports with ⟨houtside, hcases⟩
  by_contra hliteral
  rcases exists_quote_of_contains hp houtside hreports hcontains (by simpa using hliteral) with
    ⟨a, c, b, hlexeme, hne, hquote⟩
  rcases hcases with ⟨entry, hmatch, rfl⟩ | ⟨d, -, -, rfl⟩
  · have hmem := (SymbolTable.longestMatch_eq_some hmatch).1
    have hc : c ∈ entry.text := by
      rw [show entry.text = a ++ c :: b from hlexeme]
      simp
    rcases hquote with rfl | rfl
    · exact (hunquoted entry hmem).1 hc
    · exact (hunquoted entry hmem).2 hc
  · -- one character has nothing inside
    have hlen := congrArg List.length hlexeme
    have hpos := List.length_pos_iff.2 hne
    simp at hlen
    omega

/-- The sweep for symbols leaves the text as it is and takes it apart without a rest. -/
theorem exists_decomposed (text : Text) (entries : List SymbolEntry) :
    ∃ tokens, tagSymbols text (Literals.ofText text).all (.ofList entries) =
        .ok (Sweep.inPlace text tokens) ∧
      Decomposed text (.ofList entries) tokens := by
  have hadv := advances_symbolStep entries (endsIn_literals text)
  have hsorted := SymbolTable.isSorted_ofList entries
  have hne : ∀ entry ∈ (SymbolTable.ofList entries).entries, entry.text ≠ [] := fun _ hentry =>
    (SymbolTable.mem_ofList hentry).2
  have hreports : ∀ token ∈ tokensOf (scan (symbolStep (Literals.ofText text).all
      (.ofList entries)) (Place.start text)), ∃ p p', p.IsIn text ∧
        Reports (symbolStep (Literals.ofText text).all (.ofList entries)) p p' token := by
    intro token htoken
    rcases mem_tokensOf_scan.1 htoken with ⟨p, p', hp, hreports⟩
    exact ⟨p, p', hp.isIn (Place.isIn_start text), hreports⟩
  refine ⟨_, ofScan_eq_ok hadv, ?_⟩
  constructor
  case toSegmented =>
    exact segmented_tokensOf (tiled_scan _ (Place.start text)) (flatMap_text_scan _ _)
  case gaps =>
    intro here there hgap
    rcases hgap.visits hadv with ⟨hhere, hthere⟩
    exact stepsOver_of_visits hhere hthere hgap.free
  case symbols =>
    intro token htoken
    rcases hreports token htoken with ⟨p, p', hp, hreports⟩
    exact (hsorted.token_cases hne hp hreports).1
  case unknowns =>
    intro token htoken
    rcases hreports token htoken with ⟨p, p', hp, hreports⟩
    exact (hsorted.token_cases hne hp hreports).2
  case outside =>
    intro hunquoted token htoken offset hcontains
    rcases hreports token htoken with ⟨p, p', hp, hreports⟩
    exact contains_eq_false_of_unquoted hunquoted hp hreports hcontains

end Strata
