import Strata.Proofs.Removed
import Strata.Proofs.Unchanged

/-!
# Reserved words in runs

A table may reserve any text, but only some can be read as words. A word that is shaped like an
identifier goes through the first two sweeps as it is, and the scan for words takes it whole. A text
of any other shape is never reported: what the scan for words takes starts with a letter or an
underscore and holds word characters only, and no other sweep reports keywords.

* `tagWords_of_isIdentShaped`: the sweep for words over a text that is a word;
* `isIdentShaped_of_sweepOf`: the shape of every keyword that a sweep reports;
* `reserves_of_contains`: what runs make of a reserved word.
-/

namespace Strata

variable {profile : Profile} {keywords : KeywordTable} {skip : SpanSet} {here : Place}
  {text word : Text} {token : Token} {sweep : Sweep} {layer : Layer} {kind : Kind}

/-! ## A text that is a word -/

theorem exists_of_isIdentShaped (h : isIdentShaped word = true) :
    ∃ c t, word = c :: t ∧ isIdentStart c = true ∧ ∀ d ∈ word, isIdentChar d = true := by
  cases word with
  | nil => cases h
  | cons c t =>
    simp only [isIdentShaped, Bool.and_eq_true, List.all_eq_true] at h
    refine ⟨c, t, rfl, h.1, ?_⟩
    intro d hd
    rcases List.mem_cons.1 hd with rfl | hd
    · exact isIdentChar_of_isIdentStart h.1
    · exact h.2 d hd

/-- A word has neither comments nor layout for the first two sweeps. -/
theorem textAt_of_isIdentShaped (h : isIdentShaped word = true) :
    textAt word .condensed = word := by
  rcases exists_of_isIdentShaped h with ⟨-, -, -, -, hident⟩
  refine textAt_condensed_eq_iff.2 ⟨?_, ?_⟩
  · intro k hk hcomment
    -- a comment starts with a slash
    rcases commentEnd_of_mem_stripComments hk hcomment with ⟨front, rest, hword, -, hend⟩
    have hslash : '/' ∈ word := by
      rw [hword]
      cases hend with
      | line hrest => simp [hrest]
      | closed hrest => simp [hrest]
      | never hrest => simp [hrest]
    exact absurd (hident '/' hslash) (by decide)
  · intro front c back hword hlayout
    have hc : isIdentChar c = true := hident c (by simp [hword])
    rcases eq_of_isLayout hlayout with rfl | rfl | rfl | rfl | rfl <;> exact absurd hc (by decide)

/-- The sweep for words takes a text that is a word whole, and there is nothing else in it. -/
theorem tagWords_of_isIdentShaped (keywords : KeywordTable) (h : isIdentShaped word = true) :
    tagWords word (Literals.ofText word).all keywords =
      .ok (Sweep.inPlace word [⟨if keywords.contains word then .keyword else .identifier, word,
        ⟨0, byteLen word⟩⟩]) := by
  rcases exists_of_isIdentShaped h with ⟨c, t, hword, hletter, hident⟩
  rcases ne_of_isIdentStart hletter with ⟨-, -, hdouble, hsingle⟩
  have hskip : (Literals.ofText word).all.spanAt? (Place.start word).offset = none := by
    rw [hword]
    exact spanAt?_literals_zero hdouble hsingle
  have hstarts : startsWord (Place.start word) = true := by
    simp [startsWord, Place.peek?, Place.start, atWordStart, hword, hletter]
  have htake : word.takeWhile isIdentChar = word := List.takeWhile_eq_self_iff.2 hident
  have hdrop : (Place.start word).rest.dropWhile isIdentChar = [] :=
    List.dropWhile_eq_nil_iff.2 hident
  have hwordAt : wordAt keywords (Place.start word) =
      ⟨if keywords.contains word then .keyword else .identifier, word, ⟨0, byteLen word⟩⟩ := by
    simp [wordAt, Place.start, htake, Span.ofLen]
  have hreports : Reports (wordStep (Literals.ofText word).all keywords) (Place.start word) _
      (wordAt keywords (Place.start word)) := reports_wordAt hskip hstarts
  have htokens := tokensOf_scan_of_reports hreports
  -- behind the word there is nothing left to scan
  rw [scan_eq_nil ((Place.past_rest _ _ _).trans hdrop), hwordAt] at htokens
  unfold tagWords
  rw [ofScan_eq_ok (advances_wordStep keywords (endsIn_literals word)), htokens]
  rfl

/-! ## The shape of keywords -/

theorem isIdentShaped_of_startsWord (h : startsWord here = true) :
    isIdentShaped (here.rest.takeWhile isIdentChar) = true := by
  rcases exists_head_of_startsWord h with ⟨c, t, hrest, hletter, -⟩
  rw [hrest, List.takeWhile_cons_of_pos (isIdentChar_of_isIdentStart hletter)]
  simp only [isIdentShaped, hletter, Bool.true_and]
  exact List.all_takeWhile

/-- Whatever the sweep for words steps over, what it reports is shaped like an identifier. -/
theorem isIdentShaped_of_tagWords (h : tagWords text skip keywords = .ok sweep)
    (htoken : token ∈ sweep.tokens) : isIdentShaped token.lexeme = true := by
  rw [tokens_of_ofScan h] at htoken
  rcases mem_tokensOf_scan.1 htoken with ⟨p, p', -, hreports⟩
  rcases startsWord_of_kind hreports.kind_eq with ⟨hskip, hstarts⟩
  rw [hreports.unique (reports_wordAt hskip hstarts)]
  exact isIdentShaped_of_startsWord hstarts

/-- The scan for constants reports no keywords. -/
theorem ne_keyword_of_constantStep (h : (constantStep skip here).kind = some kind) :
    kind ≠ .keyword := by
  have hrules : ∀ rule ∈ constantRules, rule.kind ≠ .keyword := by decide
  unfold constantStep at h
  split at h
  · rename_i rule len hmatch
    rcases matchConstant_eq_some hmatch with ⟨there, front, hat⟩
    -- a constant is reported as what it is, or as unknown
    rw [← Option.some.inj h]
    split
    · decide
    · exact hrules rule hat.mem
  · unfold Place.passOver at h
    split at h <;> cases h

/-- The scan for symbols reports no keywords. -/
theorem ne_keyword_of_symbolStep {table : SymbolTable}
    (h : (symbolStep skip table here).kind = some kind) : kind ≠ .keyword := by
  have hsymbol : ∀ cls : SymbolClass, cls.kind ≠ .keyword := by rintro (_ | _) <;> decide
  cases hskip : skip.spanAt? here.offset with
  | some s =>
    rw [symbolStep_skip table hskip] at h
    cases h
  | none =>
    cases hrest : here.rest with
    | nil =>
      simp only [symbolStep, hskip, hrest] at h
      cases h
    | cons c t =>
      have hmove : SymbolMove skip table here c := symbolStep_cases hskip hrest
      cases hmove with
      | layout _ hmove | number _ hmove | word _ _ hmove =>
        rw [hmove] at h
        cases h
      | symbol _ _ hmove =>
        rw [hmove] at h
        exact Option.some.inj h ▸ hsymbol _
      | unknown _ _ hmove =>
        rw [hmove] at h
        exact Option.some.inj h ▸ by decide

/-- A keyword that a sweep on the way through the layers reports is shaped like an identifier. -/
theorem isIdentShaped_of_sweepOf (h : sweepOf profile text layer = .ok sweep)
    (htoken : token ∈ sweep.tokens) (hkind : token.kind = .keyword) :
    isIdentShaped token.lexeme = true := by
  cases layer with
  | raw =>
    cases h
    cases htoken
  | uncommented =>
    cases h
    rcases kind_of_mem_stripComments htoken with hcomment | ⟨hlayout, -⟩
    · rw [hkind] at hcomment
      cases hcomment
    · rw [hkind] at hlayout
      cases hlayout
  | condensed =>
    cases h
    rcases mem_tokensOf_scan.1 htoken with ⟨p, p', -, hreports⟩
    have hmove := hreports.kind_eq
    rcases hreports.moves.exists_head with ⟨c, t, hrest⟩
    cases hlayout : isLayout c with
    | true =>
      rw [layoutStep_layout hrest hlayout, hkind] at hmove
      cases hmove
    | false =>
      rw [layoutStep_other hrest hlayout] at hmove
      cases hmove
  | constants =>
    rw [tokens_of_ofScan h] at htoken
    rcases mem_tokensOf_scan.1 htoken with ⟨p, p', -, hreports⟩
    exact absurd hkind (ne_keyword_of_constantStep hreports.kind_eq)
  | keywords =>
    rcases exists_words_of_keeping h with ⟨words, hwords, rfl⟩
    exact isIdentShaped_of_tagWords hwords (List.mem_filter.1 htoken).1
  | identifiers =>
    rcases exists_words_of_keeping h with ⟨words, hwords, rfl⟩
    exact isIdentShaped_of_tagWords hwords (List.mem_filter.1 htoken).1
  | symbols =>
    rw [tokens_of_ofScan h] at htoken
    rcases mem_tokensOf_scan.1 htoken with ⟨p, p', -, hreports⟩
    exact absurd hkind (ne_keyword_of_symbolStep hreports.kind_eq)

/-! ## Runs -/

/-- What runs with a profile make of a word that it reserves. -/
structure Profile.Reserves (profile : Profile) (word : Text) : Prop where
  /-- A word that is shaped like an identifier is the only keyword of its own text, which has no
  identifiers. -/
  found : isIdentShaped word = true → ∃ outcome keywords identifiers,
    Outcome.ofText word profile = .ok outcome ∧
    outcome.passages.find? (·.layer = .keywords) = some keywords ∧
    outcome.passages.find? (·.layer = .identifiers) = some identifiers ∧
    keywords.input = word ∧ keywords.sweep.tokens = [⟨.keyword, word, ⟨0, byteLen word⟩⟩] ∧
    identifiers.sweep.tokens = []
  /-- Any other word is a keyword of no source. -/
  absent : isIdentShaped word = false → ∀ source, ∃ outcome,
    Outcome.ofText source profile = .ok outcome ∧
    ∀ passage ∈ outcome.passages, ∀ token ∈ passage.sweep.tokens,
      token.kind = .keyword → token.lexeme ≠ word
  /-- Nor does the sweep for words report it, whatever it is told to step over. -/
  unswept : isIdentShaped word = false → ∀ text skip words,
    tagWords text skip profile.keywords = .ok words →
    ∀ token ∈ words.tokens, token.kind = .keyword → token.lexeme ≠ word

/-- A reserved word is found in runs exactly if it is shaped like an identifier. -/
theorem reserves_of_contains (name : String) (keywords : KeywordTable)
    (symbols : List SymbolEntry) (word : Text) (hword : keywords.contains word = true) :
    Profile.Reserves ⟨name, keywords, .ofList symbols⟩ word := by
  have hprofile : Profile.IsBuilt ⟨name, keywords, .ofList symbols⟩ := ⟨symbols, rfl⟩
  constructor
  case found =>
    intro hshaped
    rcases exists_outcome word hprofile with ⟨outcome, last, houtcome, -, hsteps⟩
    have hkeywords : Layer.constants.next? = some .keywords := rfl
    have hidentifiers : Layer.keywords.next? = some .identifiers := rfl
    rcases hsteps.exists_find hkeywords (by decide) with ⟨kept, hkept, hinput, hsweep⟩
    rcases hsteps.exists_find hidentifiers (by decide) with ⟨others, hothers, -, hsweep'⟩
    have htext : textAt word .condensed = word := textAt_of_isIdentShaped hshaped
    have hconstants : textAt word .constants = word := htext
    have hafter : textAt word .keywords = word := htext
    have hwords := tagWords_of_isIdentShaped keywords hshaped
    rw [hword, if_pos rfl] at hwords
    rw [hconstants, sweepOf, hwords] at hsweep
    rw [hafter, sweepOf, hwords] at hsweep'
    refine ⟨outcome, kept, others, houtcome, hkept, hothers, hinput.trans hconstants, ?_, ?_⟩
    · rw [← Except.ok.inj hsweep]
      rfl
    · rw [← Except.ok.inj hsweep']
      rfl
  case absent =>
    intro hshape source
    rcases exists_outcome source hprofile with ⟨outcome, last, houtcome, -, hsteps⟩
    refine ⟨outcome, houtcome, ?_⟩
    rintro passage hpassage token htoken hkind rfl
    rcases hsteps.exists_of_mem hpassage with ⟨before, -, -, hsweep⟩
    rw [isIdentShaped_of_sweepOf hsweep htoken hkind] at hshape
    cases hshape
  case unswept =>
    rintro hshape text skip words hwords token htoken - rfl
    rw [isIdentShaped_of_tagWords hwords htoken] at hshape
    cases hshape

/-- A table can reserve `1a`, which no source has as a keyword, beside `if`. -/
theorem reserves_of_contains_digit :
    (KeywordTable.ofList [['i', 'f'], ['1', 'a']]).contains ['1', 'a'] = true ∧
      Profile.Reserves ⟨"x", .ofList [['i', 'f'], ['1', 'a']], .ofList []⟩ ['1', 'a'] := by
  have hword : (KeywordTable.ofList [['i', 'f'], ['1', 'a']]).contains ['1', 'a'] = true := by
    decide
  exact ⟨hword, reserves_of_contains "x" _ [] ['1', 'a'] hword⟩

end Strata
