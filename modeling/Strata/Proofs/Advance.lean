import Strata.Proofs.Munch
import Strata.Proofs.QuoteRules
import Strata.Proofs.Scan
import Strata.Proofs.SpanSet
import Strata.Sweep.Symbols
import Strata.Sweep.Words

/-!
# Every sweep can always move

What the scans for constants, words and symbols do at a place, told apart by what is ahead. Each of
their moves takes whole characters, so none of these scans is torn: the lengths of lexemes end
between two characters, and so do the spans that are stepped over.

* `constantStep_cases`: the moves of the scan for constants;
* `advances_constantStep`, `advances_wordStep`, `advances_symbolStep`.
-/

namespace Strata

variable {here : Place} {text : Text} {skip : SpanSet} {c : Char} {t : Text} {len : Nat}

/-! ## What can be passed -/

/-- A move over text that can be passed leads on to another place. -/
theorem Place.CanPass.exists_movesTo {step : Place → Move} (h : here.CanPass (step here).len) :
    ∃ there, MovesTo step here there := by
  rcases h with ⟨front, back, hne, hrest, hlen⟩
  exact ⟨here.past front back, movesTo_past hne hrest hlen⟩

theorem canPass_char (h : here.rest = c :: t) : here.CanPass c.utf8Size :=
  ⟨[c], t, by simp, h, by simp⟩

/-- A word at a place can be passed as a whole. -/
theorem canPass_word (h : here.rest = c :: t) (hc : isIdentChar c = true) :
    here.CanPass (wordLen here.rest) := by
  refine ⟨here.rest.takeWhile isIdentChar, here.rest.dropWhile isIdentChar, ?_, ?_, rfl⟩
  · simp [h, hc]
  · exact List.takeWhile_append_dropWhile.symm

/-- From a place of a text, every later boundary can be reached. -/
theorem canPass_of_isBoundary {stop : Nat} (hin : here.IsIn text)
    (hstop : isBoundary text stop = true) (hlt : here.offset < stop) :
    here.CanPass (stop - here.offset) := by
  rcases Place.exists_isIn_of_isBoundary hstop with ⟨there, hthere, hoffset⟩
  rcases hin.exists_past hthere (by omega) with ⟨front, hrest, hpast⟩
  have hlen : there.offset = here.offset + byteLen front := by
    rw [hpast, Place.past_offset]
  refine ⟨front, there.rest, ?_, hrest, by omega⟩
  intro hnil
  rw [hnil, byteLen_nil] at hlen
  omega

/-! ## Closed literals -/

/-- A closed literal is what the rules for constants find at its quote. -/
theorem matchConstant_of_quotedLen? (h : quotedLen? here.rest = some len) :
    ∃ rule, matchConstant here = some (rule, len) ∧ (rule.kind = .string ∨ rule.kind = .char) := by
  rcases quotedLen?_eq_some_iff.1 h with hstring | hchar
  · exact ⟨.string, matchConstant_of_matchLen?_string hstring, Or.inl rfl⟩
  · exact ⟨.char, matchConstant_of_matchLen?_char hchar, Or.inr rfl⟩

theorem canPass_of_quotedLen? (h : quotedLen? here.rest = some len) : here.CanPass len := by
  rcases matchConstant_of_quotedLen? h with ⟨rule, hmatch, -⟩
  rcases matchConstant_eq_some hmatch with ⟨there, front, hat⟩
  exact hat.canPass

theorem canPass_of_numberLen? (h : numberLen? here = some len) : here.CanPass len := by
  rcases exists_constantAt_of_numberLen? h with ⟨rule, there, front, hat, -, -⟩
  exact hat.canPass

/-! ## The moves of the scan for constants -/

/-- The kind that a constant at an offset is reported as. -/
def SpanSet.demoted (skip : SpanSet) (offset : Nat) (kind : Kind) : Kind :=
  if skip.contains offset then .unknown else kind

/-- The moves of a scan for constants, told apart by what is ahead. -/
inductive ConstantMove (skip : SpanSet) (here : Place) : Prop
  | literal {kind : Kind} {len : Nat} (hquoted : quotedLen? here.rest = some len)
      (hkind : kind = .string ∨ kind = .char)
      (hmove : constantStep skip here = .report (skip.demoted here.offset kind) len)
  | emptyPair {t : Text} (hrest : here.rest = '\'' :: '\'' :: t)
      (hmove : constantStep skip here = .report .unknown 2)
  | number {rule : ConstantRule} {len : Nat} {there : Place} {front : Text}
      (hnumber : numberLen? here = some len) (hat : ConstantAt here rule len there front)
      (hkind : rule.kind.isNumber = true)
      (hmove : constantStep skip here = .report (skip.demoted here.offset rule.kind) len)
  | truth {c : Char} {t : Text} (hrest : here.rest = c :: t) (hletter : isIdentStart c = true)
      (hstart : atWordStart here = true)
      (hmove : constantStep skip here =
        .report (skip.demoted here.offset .bool) (wordLen here.rest))
  | word {c : Char} {t : Text} (hrest : here.rest = c :: t) (hident : isIdentChar c = true)
      (hnumber : numberLen? here = none)
      (hmove : constantStep skip here = .pass (wordLen here.rest))
  | other {c : Char} {t : Text} (hrest : here.rest = c :: t) (hident : isIdentChar c = false)
      (hnumber : numberLen? here = none) (hquoted : quotedLen? here.rest = none)
      (hpair : c = '\'' → t.head? ≠ some '\'')
      (hmove : constantStep skip here = .pass c.utf8Size)

/-- Where a rule matches, the scan takes what it matches. -/
theorem constantStep_of_match {rule : ConstantRule} (h : matchConstant here = some (rule, len)) :
    constantStep skip here = .report (skip.demoted here.offset rule.kind) len := by
  unfold constantStep
  rw [h]
  rfl

/-- Where no rule matches, the scan passes over a word or a single character. -/
theorem constantStep_of_none (h : matchConstant here = none) :
    constantStep skip here = here.passOver := by
  unfold constantStep
  rw [h]

/-- At a character of a word, all the rest of the word is passed over. -/
theorem passOver_word (h : here.rest = c :: t) (hc : isIdentChar c = true) :
    here.passOver = .pass (wordLen here.rest) := by
  unfold Place.passOver
  rw [h]
  simp [hc]

theorem passOver_other (h : here.rest = c :: t) (hc : isIdentChar c = false) :
    here.passOver = .pass c.utf8Size := by
  unfold Place.passOver
  rw [h]
  simp [hc]

theorem constantStep_doubleQuote (h : here.rest = '"' :: t) : ConstantMove skip here := by
  have hpeek : here.peek? = some '"' := Place.peek?_eq_some h
  cases hquoted : quotedLen? here.rest with
  | some len =>
    rcases matchConstant_of_quotedLen? hquoted with ⟨rule, hmatch, hkind⟩
    exact .literal hquoted hkind (constantStep_of_match hmatch)
  | none =>
    have hnone : matchConstant here = none := by
      rw [matchConstant_doubleQuote h, hquoted]
      rfl
    refine .other h (by decide) (numberLen?_eq_none hpeek (by decide) (by decide)) hquoted
      (by simp) ?_
    rw [constantStep_of_none hnone, passOver_other h (by decide)]

theorem constantStep_singleQuote (h : here.rest = '\'' :: t) : ConstantMove skip here := by
  have hpeek : here.peek? = some '\'' := Place.peek?_eq_some h
  cases hquoted : quotedLen? here.rest with
  | some len =>
    rcases matchConstant_of_quotedLen? hquoted with ⟨rule, hmatch, hkind⟩
    exact .literal hquoted hkind (constantStep_of_match hmatch)
  | none =>
    have hmatch := matchConstant_singleQuote h
    rw [hquoted] at hmatch
    by_cases hpair : t.head? = some '\''
    · rcases List.head?_eq_some_iff.1 hpair with ⟨t', rfl⟩
      refine .emptyPair h ?_
      rw [constantStep_of_match (by simpa using hmatch)]
      simp [SpanSet.demoted, ConstantRule.emptyChar]
    · have hnone : matchConstant here = none := by simpa [hpair] using hmatch
      refine .other h (by decide) (numberLen?_eq_none hpeek (by decide) (by decide)) hquoted
        (fun _ => hpair) ?_
      rw [constantStep_of_none hnone, passOver_other h (by decide)]

theorem constantStep_digitOrDot (h : here.rest = c :: t) (hc : c.isDigit = true ∨ c = '.') :
    ConstantMove skip here := by
  have hpeek : here.peek? = some c := Place.peek?_eq_some h
  have hnumber := numberLen?_eq_map_matchConstant hpeek hc
  cases hmatch : matchConstant here with
  | some pair =>
    rw [hmatch, Option.map_some] at hnumber
    rcases exists_constantAt_of_numberLen? hnumber with ⟨rule, there, front, hat, hkind, hmatch'⟩
    exact .number hnumber hat hkind (constantStep_of_match hmatch')
  | none =>
    rw [hmatch, Option.map_none] at hnumber
    rcases hc with hdigit | rfl
    · have hident : isIdentChar c = true := by simp [isIdentChar, Char.isAlphanum, hdigit]
      refine .word h hident hnumber ?_
      rw [constantStep_of_none hmatch, passOver_word h hident]
    · have hquoted : quotedLen? here.rest = none := by
        rw [h]
        exact quotedLen?_eq_none (by decide) (by decide)
      refine .other h (by decide) hnumber hquoted (by simp) ?_
      rw [constantStep_of_none hmatch, passOver_other h (by decide)]

/-- At a place with something ahead, the scan for constants makes one of its moves. -/
theorem constantStep_cases (h : here.rest = c :: t) : ConstantMove skip here := by
  have hpeek : here.peek? = some c := Place.peek?_eq_some h
  -- the character ahead rules out all but a few of the rules
  by_cases hdouble : c = '"'
  · exact constantStep_doubleQuote (hdouble ▸ h)
  by_cases hsingle : c = '\''
  · exact constantStep_singleQuote (hsingle ▸ h)
  by_cases hc : c.isDigit = true ∨ c = '.'
  · exact constantStep_digitOrDot h hc
  have hdigit : c.isDigit = false := Bool.eq_false_iff.2 fun hd => hc (Or.inl hd)
  have hdot : c ≠ '.' := fun hd => hc (Or.inr hd)
  have hnumber := numberLen?_eq_none hpeek hdigit hdot
  cases hmatch : matchConstant here with
  | some pair =>
    rcases eq_bool_of_matchConstant hpeek hdigit hdot hdouble hsingle hmatch with
      ⟨hletter, hrule, hlen, hstart⟩
    refine .truth h hletter hstart ?_
    rw [constantStep_of_match hmatch, hrule, hlen]
    rfl
  | none =>
    cases hident : isIdentChar c with
    | true =>
      refine .word h hident hnumber ?_
      rw [constantStep_of_none hmatch, passOver_word h hident]
    | false =>
      have hquoted : quotedLen? here.rest = none := by
        rw [h]
        exact quotedLen?_eq_none hdouble hsingle
      refine .other h hident hnumber hquoted (fun hq => absurd hq hsingle) ?_
      rw [constantStep_of_none hmatch, passOver_other h hident]

theorem isIdentChar_of_isIdentStart (h : isIdentStart c = true) : isIdentChar c = true := by
  simp only [isIdentStart, Bool.or_eq_true] at h
  simp only [isIdentChar, Char.isAlphanum, Bool.or_eq_true]
  exact h.imp Or.inl id

/-- Over a character that is in no word and starts no constant, the scan goes by itself. -/
theorem constantStep_other (hhead : here.rest = c :: t) (hident : isIdentChar c = false)
    (hdouble : c ≠ '"') (hsingle : c ≠ '\'') (hnumber : numberLen? here = none) :
    constantStep skip here = .pass c.utf8Size := by
  have hmove : ConstantMove skip here := constantStep_cases hhead
  cases hmove with
  | literal hquoted _ _ =>
    rw [hhead, quotedLen?_eq_none hdouble hsingle] at hquoted
    cases hquoted
  | emptyPair hpair _ => exact absurd (Place.head_unique hhead hpair) hsingle
  | number hsome _ _ _ =>
    rw [hnumber] at hsome
    cases hsome
  | truth hd hletter _ _ =>
    have := isIdentChar_of_isIdentStart hletter
    rw [← Place.head_unique hhead hd, hident] at this
    cases this
  | word hd hword _ _ =>
    rw [← Place.head_unique hhead hd, hident] at hword
    cases hword
  | other hd _ _ _ _ hstep =>
    rw [← Place.head_unique hhead hd] at hstep
    exact hstep

/-- Over a word that is no number, the scan goes in one move. -/
theorem len_constantStep_word (hhead : here.rest = c :: t) (hident : isIdentChar c = true)
    (hnumber : numberLen? here = none) : (constantStep skip here).len = wordLen here.rest := by
  have hdouble : c ≠ '"' := by
    rintro rfl
    cases hident
  have hsingle : c ≠ '\'' := by
    rintro rfl
    cases hident
  have hmove : ConstantMove skip here := constantStep_cases hhead
  cases hmove with
  | literal hquoted _ _ =>
    rw [hhead, quotedLen?_eq_none hdouble hsingle] at hquoted
    cases hquoted
  | emptyPair hpair _ => exact absurd (Place.head_unique hhead hpair) hsingle
  | number hsome _ _ _ =>
    rw [hnumber] at hsome
    cases hsome
  | truth _ _ _ hstep =>
    rw [hstep]
    rfl
  | word _ _ _ hstep =>
    rw [hstep]
    rfl
  | other hd hother _ _ _ _ =>
    rw [← Place.head_unique hhead hd, hident] at hother
    cases hother

theorem len_constantStep_literal (hquoted : quotedLen? here.rest = some len) :
    (constantStep skip here).len = len := by
  rcases matchConstant_of_quotedLen? hquoted with ⟨rule, hmatch, -⟩
  rw [constantStep_of_match hmatch]
  rfl

theorem len_constantStep_number (hnumber : numberLen? here = some len) :
    (constantStep skip here).len = len := by
  rcases exists_constantAt_of_numberLen? hnumber with ⟨rule, there, front, -, -, hmatch⟩
  rw [constantStep_of_match hmatch]
  rfl

/-! ## No move is torn -/

/-- No word starts with a digit, a dot or a quote. -/
theorem ne_of_isIdentStart (h : isIdentStart c = true) :
    c.isDigit = false ∧ c ≠ '.' ∧ c ≠ '"' ∧ c ≠ '\'' := by
  refine ⟨?_, ?_, ?_, ?_⟩
  · by_contra hd
    simp only [isIdentStart] at h
    delta Char.isAlpha Char.isUpper Char.isLower at h
    simp only [Bool.or_eq_true, Bool.and_eq_true, decide_eq_true_eq, ge_iff_le,
      UInt32.le_iff_toNat_le] at h
    simp only [Char.isDigit, Bool.not_eq_false, Bool.and_eq_true, decide_eq_true_eq, ge_iff_le,
      UInt32.le_iff_toNat_le] at hd
    -- all letters stand behind the digits
    rcases h with (h | h) | rfl
    · have : c.val.toNat ≤ 57 := hd.2
      have : 65 ≤ c.val.toNat := h.1
      omega
    · have : c.val.toNat ≤ 57 := hd.2
      have : 97 ≤ c.val.toNat := h.1
      omega
    · revert hd
      decide
  all_goals
    rintro rfl
    revert h
    decide

/-- A number starts with a digit or with a point. -/
theorem digit_or_dot_of_numberLen? (hhead : here.rest = c :: t)
    (h : numberLen? here = some len) : c.isDigit = true ∨ c = '.' := by
  by_contra hnot
  rw [not_or, Bool.not_eq_true] at hnot
  have hpeek : here.peek? = some c := Place.peek?_eq_some hhead
  rw [numberLen?_eq_none hpeek hnot.1 hnot.2] at h
  cases h

theorem ConstantMove.canPass (h : ConstantMove skip here) :
    here.CanPass (constantStep skip here).len := by
  cases h with
  | literal hquoted hkind hmove =>
    rw [hmove]
    exact canPass_of_quotedLen? hquoted
  | emptyPair hrest hmove =>
    rw [hmove]
    exact ⟨['\'', '\''], _, by simp, hrest, rfl⟩
  | number hnumber hat hkind hmove =>
    rw [hmove]
    exact hat.canPass
  | truth hrest hletter hstart hmove =>
    rw [hmove]
    exact canPass_word hrest (isIdentChar_of_isIdentStart hletter)
  | word hrest hident hnumber hmove =>
    rw [hmove]
    exact canPass_word hrest hident
  | other hrest hident hnumber hquoted hpair hmove =>
    rw [hmove]
    exact canPass_char hrest

/-- The scan for constants never stops before the end, whatever it skips. -/
theorem advances_constantStep (text : Text) (skip : SpanSet) :
    Advances (constantStep skip) text := by
  intro here _ hahead
  rcases List.exists_cons_of_ne_nil hahead with ⟨c, t, hrest⟩
  have hmove : ConstantMove skip here := constantStep_cases hrest
  exact hmove.canPass.exists_movesTo

theorem canPass_passOver (h : here.rest = c :: t) : here.CanPass here.passOver.len := by
  cases hident : isIdentChar c with
  | true =>
    rw [passOver_word h hident]
    exact canPass_word h hident
  | false =>
    rw [passOver_other h hident]
    exact canPass_char h

/-- The spans of a set end at boundaries of a text. -/
def SpanSet.EndsIn (skip : SpanSet) (text : Text) : Prop :=
  ∀ s ∈ skip.spans, isBoundary text s.stop = true

/-- What is stepped over ends at a boundary. -/
theorem canPass_of_spanAt? {s : Span} (hskip : skip.EndsIn text) (hin : here.IsIn text)
    (h : skip.spanAt? here.offset = some s) : here.CanPass (s.stop - here.offset) := by
  rcases SpanSet.spanAt?_eq_some h with ⟨hmem, -, hlt⟩
  exact canPass_of_isBoundary hin (hskip s hmem) hlt

/-- The scan for words never stops before the end if what it skips ends within the text. -/
theorem advances_wordStep (keywords : KeywordTable) (hskip : skip.EndsIn text) :
    Advances (wordStep skip keywords) text := by
  intro here hin hahead
  rcases List.exists_cons_of_ne_nil hahead with ⟨c, t, hrest⟩
  apply Place.CanPass.exists_movesTo
  unfold wordStep
  split
  · rename_i s hs
    exact canPass_of_spanAt? hskip hin hs
  · split
    · rename_i hword
      have hstart : isIdentStart c = true := by
        rw [Place.peek?, hrest] at hword
        simp at hword
        exact hword.1
      exact canPass_word hrest (isIdentChar_of_isIdentStart hstart)
    · split
      · rename_i len hnumber
        exact canPass_of_numberLen? hnumber
      · exact canPass_passOver hrest

/-! ## Symbols -/

namespace SymbolTable

variable {entry e : SymbolEntry} {entries : List SymbolEntry}

theorem mem_insertInto (h : e ∈ insertInto entry entries) : e = entry ∨ e ∈ entries := by
  fun_induction insertInto entry entries with
  | case1 => exact Or.inl (List.mem_singleton.1 h)
  | case2 f es hf => exact List.mem_cons.1 h
  | case3 f es hf heq =>
    rcases List.mem_cons.1 h with rfl | h
    · exact Or.inl rfl
    · exact Or.inr (List.mem_cons_of_mem f h)
  | case4 f es hf heq ih =>
    rcases List.mem_cons.1 h with rfl | h
    · exact Or.inr List.mem_cons_self
    · exact (ih h).imp id (List.mem_cons_of_mem f)

/-- The symbols of a table are among those that it was made of, and none is empty. -/
theorem mem_ofList (h : e ∈ (ofList entries).entries) : e ∈ entries ∧ e.text ≠ [] := by
  suffices hfold : ∀ (table : SymbolTable), e ∈ (entries.foldl insert table).entries →
      e ∈ table.entries ∨ e ∈ entries ∧ e.text ≠ [] by
    exact (hfold empty h).resolve_left (List.not_mem_nil)
  clear h
  induction entries with
  | nil => exact fun _ => Or.inl
  | cons entry entries ih =>
    intro table h
    rcases ih (table.insert entry) h with h | ⟨hmem, hne⟩
    · unfold insert at h
      split at h
      · exact Or.inl h
      · rename_i hne
        rcases mem_insertInto h with rfl | h
        · exact Or.inr ⟨List.mem_cons_self, hne⟩
        · exact Or.inl h
    · exact Or.inr ⟨List.mem_cons_of_mem entry hmem, hne⟩

end SymbolTable

/-- There are five characters of layout. -/
theorem eq_of_isLayout (h : isLayout c = true) :
    c = ' ' ∨ c = '\t' ∨ c = '\n' ∨ c = '\r' ∨ c = '\x0c' := by
  simpa [isLayout, or_assoc] using h

theorem utf8Size_of_isLayout (h : isLayout c = true) : c.utf8Size = 1 := by
  rcases eq_of_isLayout h with rfl | rfl | rfl | rfl | rfl <;> rfl

/-- The scan for symbols never stops before the end if what it skips ends within the text. -/
theorem advances_symbolStep (entries : List SymbolEntry) (hskip : skip.EndsIn text) :
    Advances (symbolStep skip (.ofList entries)) text := by
  intro here hin hahead
  rcases List.exists_cons_of_ne_nil hahead with ⟨c, t, hrest⟩
  apply Place.CanPass.exists_movesTo
  unfold symbolStep
  split
  · rename_i s _ hs
    exact canPass_of_spanAt? hskip hin hs
  · rename_i hnil
    exact absurd hnil hahead
  · rename_i c' t' _ hrest'
    split
    · rename_i hlayout
      rw [← utf8Size_of_isLayout hlayout]
      exact canPass_char hrest'
    · split
      · rename_i len hnumber
        exact canPass_of_numberLen? hnumber
      · split
        · rename_i hident
          exact canPass_word hrest' hident
        · split
          · rename_i entry hmatch
            rcases SymbolTable.longestMatch_eq_some hmatch with ⟨hmem, back, hback⟩
            exact ⟨entry.text, back, (SymbolTable.mem_ofList hmem).2, hback, rfl⟩
          · exact canPass_char hrest'

end Strata
