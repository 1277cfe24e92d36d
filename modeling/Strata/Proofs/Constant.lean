import Mathlib.Tactic.ByContra
import Strata.Proofs.Pattern
import Strata.Scan.Lexeme

/-!
# The lexemes that scans agree on

What `matchConstant`, `quotedLen?`, `numberLen?` and `wordLen` find, told apart by the character
ahead: at a quote the rules for constants find the closed literal or the empty pair of single
quotes, at a digit or a dot they find a number, at a letter a truth value, and elsewhere nothing.

* `matchConstant_eq_some`: what a match of the rules reads;
* `matchConstant_doubleQuote`, `matchConstant_singleQuote`: the rules at a quote;
* `numberLen?_eq_map_matchConstant`: the rules at a digit or a dot;
* `eq_bool_of_matchConstant`: the rules at a letter.
-/

namespace Strata

variable {here : Place}

/-- `len` bytes ahead of a place are whole characters, and one at least. -/
def Place.CanPass (here : Place) (len : Nat) : Prop :=
  ∃ front back, front ≠ [] ∧ here.rest = front ++ back ∧ byteLen front = len

/-! ## The rules -/

/-- No rule matches an empty text. -/
theorem consumes_of_mem_constantRules {rule : ConstantRule} (h : rule ∈ constantRules) :
    rule.pattern.consumes = true := by
  revert rule
  decide

/-- No number holds a quote. -/
theorem reads_quote_of_isNumber {rule : ConstantRule} (h : rule ∈ constantRules)
    (hkind : rule.kind.isNumber = true) :
    rule.pattern.reads '"' = false ∧ rule.pattern.reads '\'' = false := by
  revert rule
  decide

/-- The rules that find numbers. -/
theorem mem_of_isNumber {rule : ConstantRule} (h : rule ∈ constantRules)
    (hkind : rule.kind.isNumber = true) :
    rule ∈ [ConstantRule.hex, .binary, .octal, .float, .floatExponent, .decimal] := by
  revert rule
  decide

theorem isIdentChar_of_le_digit {c : Char} (h : '0' ≤ c ∧ c ≤ '9') : isIdentChar c = true := by
  have hdigit : c.isDigit = true := by simpa [Char.isDigit, Char.le_def] using h
  simp [isIdentChar, Char.isAlphanum, hdigit]

theorem isIdentChar_of_isAlpha {c : Char} (h : c.isAlpha = true) : isIdentChar c = true := by
  simp [isIdentChar, Char.isAlphanum, h]

theorem isIdentChar_of_le_upper {c : Char} (h : 'A' ≤ c ∧ c ≤ 'Z') : isIdentChar c = true := by
  have hupper : c.isUpper = true := decide_eq_true h
  exact isIdentChar_of_isAlpha (Bool.or_eq_true_iff.2 (.inl hupper))

theorem isIdentChar_of_le_lower {c : Char} (h : 'a' ≤ c ∧ c ≤ 'z') : isIdentChar c = true := by
  have hlower : c.isLower = true :=
    Bool.and_eq_true_iff.2 ⟨decide_eq_true h.1, decide_eq_true h.2⟩
  exact isIdentChar_of_isAlpha (Bool.or_eq_true_iff.2 (.inr hlower))

/-- Numbers are made of word characters, points and signs. -/
theorem eq_of_reads_number {rule : ConstantRule} {c : Char} (h : rule ∈ constantRules)
    (hkind : rule.kind.isNumber = true) (hreads : rule.pattern.reads c = true)
    (hc : isIdentChar c = false) : c = '.' ∨ c = '+' ∨ c = '-' := by
  -- `c` is in none of the ranges of the rules, and none of their letters
  have hdigit : ('0' ≤ c ∧ c ≤ '9') = False := eq_false fun h => by
    rw [isIdentChar_of_le_digit h] at hc
    cases hc
  have hoctal : ('0' ≤ c ∧ c ≤ '7') = False := eq_false fun h =>
    hdigit.mp ⟨h.1, Char.le_trans h.2 (by decide)⟩
  have hupper : ('A' ≤ c ∧ c ≤ 'F') = False := eq_false fun h => by
    rw [isIdentChar_of_le_upper ⟨h.1, Char.le_trans h.2 (by decide)⟩] at hc
    cases hc
  have hlower : ('a' ≤ c ∧ c ≤ 'f') = False := eq_false fun h => by
    rw [isIdentChar_of_le_lower ⟨h.1, Char.le_trans h.2 (by decide)⟩] at hc
    cases hc
  have hother : c ∉ ['0', '1', 'x', 'X', 'b', 'B', 'e', 'E', 'f', 'F', 'l', 'L'] := by
    intro hin
    have hident : ['0', '1', 'x', 'X', 'b', 'B', 'e', 'E', 'f', 'F', 'l', 'L'].all isIdentChar =
        true := by decide
    rw [List.all_eq_true.1 hident c hin] at hc
    cases hc
  have hmem := mem_of_isNumber h hkind
  simp only [List.mem_cons, List.not_mem_nil, or_false, not_or] at hmem hother
  rcases hmem with rfl | rfl | rfl | rfl | rfl | rfl
  · simp [ConstantRule.hex, ConstantRule.radix, Pattern.oneOf, Pattern.within, Pattern.reads,
      CharClass.holds, ClassItem.holds, hother, hdigit, hupper, hlower] at hreads
  · simp [ConstantRule.binary, ConstantRule.radix, Pattern.oneOf, Pattern.reads,
      CharClass.holds, ClassItem.holds, hother] at hreads
  · simp [ConstantRule.octal, Pattern.within, Pattern.reads,
      CharClass.holds, ClassItem.holds, hother, hoctal] at hreads
  · simpa [ConstantRule.float, ConstantRule.exponent, ConstantRule.suffix, Pattern.digit,
      Pattern.oneOf, Pattern.within, Pattern.reads, CharClass.holds, ClassItem.holds, hother,
      hdigit] using hreads
  · refine Or.inr ?_
    simpa [ConstantRule.floatExponent, ConstantRule.exponent, ConstantRule.suffix, Pattern.digit,
      Pattern.oneOf, Pattern.within, Pattern.reads, CharClass.holds, ClassItem.holds, hother,
      hdigit] using hreads
  · simp [ConstantRule.decimal, Pattern.digit, Pattern.within, Pattern.reads, CharClass.holds,
      ClassItem.holds, hdigit] at hreads

/-- Only the rule for strings starts with a double quote. -/
theorem eq_string_of_starts {rule : ConstantRule} (h : rule ∈ constantRules)
    (hstarts : rule.pattern.starts '"' = true) : rule = .string := by
  revert rule
  decide

/-- The rules that find no numbers. -/
theorem mem_of_not_isNumber {rule : ConstantRule} (h : rule ∈ constantRules)
    (hkind : rule.kind.isNumber = false) :
    rule ∈ [ConstantRule.string, .char, .emptyChar, .bool] := by
  revert rule
  decide

/-- A rule that finds no numbers starts with a quote or a letter. -/
theorem starts_of_not_isNumber {rule : ConstantRule} {c : Char} (h : rule ∈ constantRules)
    (hkind : rule.kind.isNumber = false) (hstarts : rule.pattern.starts c = true) :
    c = '"' ∨ c = '\'' ∨ c = 't' ∨ c = 'f' := by
  have hmem := mem_of_not_isNumber h hkind
  simp only [List.mem_cons, List.not_mem_nil, or_false] at hmem
  rcases hmem with rfl | rfl | rfl | rfl
  · have : c = '"' := by
      simpa [ConstantRule.string, Pattern.starts, Pattern.consumes] using hstarts
    exact Or.inl this
  · have : c = '\'' := by
      simpa [ConstantRule.char, Pattern.starts, Pattern.consumes] using hstarts
    exact Or.inr (Or.inl this)
  · have : c = '\'' := by
      simpa [ConstantRule.emptyChar, Pattern.starts, Pattern.consumes] using hstarts
    exact Or.inr (Or.inl this)
  · have : c = 't' ∨ c = 'f' := by
      simpa [ConstantRule.bool, Pattern.word, Pattern.starts, Pattern.consumes] using hstarts
    exact Or.inr (Or.inr this)

/-- Only the rule for truth values starts with a letter. -/
theorem eq_bool_of_starts {rule : ConstantRule} (h : rule ∈ constantRules) :
    (rule.pattern.starts 't' = true → rule = .bool) ∧
      (rule.pattern.starts 'f' = true → rule = .bool) := by
  revert rule
  decide

/-- Only the rule for numbers with a point starts with a point. -/
theorem eq_float_of_starts {rule : ConstantRule} (h : rule ∈ constantRules)
    (hstarts : rule.pattern.starts '.' = true) : rule = .float := by
  revert rule
  decide

/-! ## Matches of the rules -/

/-- What a match of the rules reads. -/
structure ConstantAt (here : Place) (rule : ConstantRule) (len : Nat) (there : Place)
    (front : Text) : Prop where
  mem : rule ∈ constantRules
  matchLen? : rule.matchLen? here = some len
  apart : rule.wordStart = true → here.before.any isIdentChar = true → here.peek? = some '.'
  matching : rule.pattern.Matches here there
  reading : rule.pattern.Reading here there front
  ne_nil : front ≠ []
  byteLen_eq : byteLen front = len

/-- Every match of the rules reads some text ahead. -/
theorem matchConstant_eq_some {rule : ConstantRule} {len : Nat}
    (h : matchConstant here = some (rule, len)) :
    ∃ there front, ConstantAt here rule len there front := by
  unfold matchConstant at h
  split at h
  · rcases List.exists_of_findSome?_eq_some h with ⟨r, hmem, hr⟩
    rcases Option.map_eq_some_iff.1 hr with ⟨n, hlen, hpair⟩
    obtain ⟨rfl, rfl⟩ : r = rule ∧ n = len := by simpa using hpair
    have hlen' := hlen
    unfold ConstantRule.matchLen? at hlen'
    split at hlen'
    · cases hlen'
    · rename_i happ
      rcases Pattern.exists_reading_of_matchLen? hlen' with ⟨there, front, hm, hreading, hfront⟩
      refine ⟨there, front, hmem, hlen, ?_, hm, hreading, ?_, hfront⟩
      · intro hstart hbefore
        by_contra hdot
        exact happ ⟨hstart, hbefore, hdot⟩
      · exact hreading.ne_nil (consumes_of_mem_constantRules hmem)
  · cases h

theorem ConstantAt.rest_eq {rule : ConstantRule} {len : Nat} {there : Place} {front : Text}
    (h : ConstantAt here rule len there front) : here.rest = front ++ there.rest :=
  h.reading.rest_eq

theorem ConstantAt.canPass {rule : ConstantRule} {len : Nat} {there : Place} {front : Text}
    (h : ConstantAt here rule len there front) : here.CanPass len :=
  ⟨front, there.rest, h.ne_nil, h.rest_eq, h.byteLen_eq⟩

/-- A match starts with a character that its pattern can start with. -/
theorem ConstantAt.starts {rule : ConstantRule} {len : Nat} {there : Place} {front : Text}
    (h : ConstantAt here rule len there front) {c : Char} (hpeek : here.peek? = some c) :
    rule.pattern.starts c = true := by
  apply h.reading.starts
  rcases List.exists_cons_of_ne_nil h.ne_nil with ⟨d, tail, hd⟩
  have hrest := h.rest_eq
  rw [Place.peek?, hrest, hd] at hpeek
  rw [hd]
  simpa using hpeek

/-- If only one rule can start with the character ahead, that rule decides. -/
theorem matchConstant_eq_of_starts {rule : ConstantRule} {c : Char} (hmem : rule ∈ constantRules)
    (hpeek : here.peek? = some c) (hstart : startsConstant c = true)
    (honly : ∀ r ∈ constantRules, r.pattern.starts c = true → r = rule) :
    matchConstant here = (rule.matchLen? here).map (rule, ·) := by
  cases hresult : matchConstant here with
  | some pair =>
    rcases matchConstant_eq_some hresult with ⟨there, front, hat⟩
    have hrule := honly _ hat.mem (hat.starts hpeek)
    rw [← hrule, hat.matchLen?]
    rfl
  | none =>
    have hnone : ∀ r ∈ constantRules, (r.matchLen? here).map (r, ·) = none := by
      unfold matchConstant at hresult
      rw [hpeek, Option.any_some, if_pos hstart, List.findSome?_eq_none_iff] at hresult
      exact hresult
    exact (hnone rule hmem).symm

/-! ## At a quote -/

section QuotedChar

open Pattern ConstantRule

variable {α : Type} {quote : Char} {found : Place → Option α} {before : Option Char} {offset : Nat}

theorem search_quotedChar_nil : search (quotedChar quote) ⟨before, offset, []⟩ found = none := by
  simp [ConstantRule.quotedChar, noneOf, search, oneChar, Place.next?]

theorem search_quotedChar_last :
    search (quotedChar quote) ⟨before, offset, ['\\']⟩ found = none := by
  simp [ConstantRule.quotedChar, noneOf, search, oneChar, Place.next?, CharClass.holds,
    ClassItem.holds]

theorem search_quotedChar_quote {t : Text} (hquote : quote ≠ '\\') :
    search (quotedChar quote) ⟨before, offset, quote :: t⟩ found = none := by
  simp [ConstantRule.quotedChar, noneOf, search, oneChar, Place.next?, CharClass.holds,
    ClassItem.holds, hquote]

theorem search_quotedChar_escape {c : Char} {t : Text} :
    search (quotedChar quote) ⟨before, offset, '\\' :: c :: t⟩ found =
      found ⟨some c, offset + (1 + c.utf8Size), t⟩ := by
  have hsize : ('\\' : Char).utf8Size = 1 := rfl
  simp [ConstantRule.quotedChar, noneOf, search, oneChar, Place.next?, CharClass.holds,
    ClassItem.holds, hsize, Nat.add_assoc]

theorem search_quotedChar_plain {c : Char} {t : Text} (hquote : c ≠ quote) (hescape : c ≠ '\\') :
    search (quotedChar quote) ⟨before, offset, c :: t⟩ found =
      found ⟨some c, offset + c.utf8Size, t⟩ := by
  simp [ConstantRule.quotedChar, noneOf, search, oneChar, Place.next?, CharClass.holds,
    ClassItem.holds, hquote, hescape]

/-- Between double quotes, the pattern goes on to the next one that no backslash escapes. -/
theorem repeated_quotedChar (before : Option Char) (start passed : Nat) (t bound : Text)
    (hbound : t.length ≤ bound.length) :
    repeated (search (quotedChar '"'))
        (fun there => search (lit '"') there fun there => some (there.offset - start))
        bound ⟨before, start + passed, t⟩ =
      closingFrom? passed t := by
  have hsize : ('"' : Char).utf8Size = 1 := rfl
  -- the bound never runs out before the text does
  fun_induction closingFrom? passed t generalizing before bound with
  | case1 passed =>
    cases bound <;> simp [repeated, search_quotedChar_nil, search, oneChar, Place.next?]
  | case2 passed t =>
    cases bound with
    | nil => simp at hbound
    | cons b bound =>
      simp [repeated, search_quotedChar_quote, search, oneChar, Place.next?, hsize, Nat.add_assoc]
  | case3 passed =>
    cases bound with
    | nil => simp at hbound
    | cons b bound => simp [repeated, search_quotedChar_last, search, oneChar, Place.next?]
  | case4 passed c t ih =>
    cases bound with
    | nil => simp at hbound
    | cons b bound =>
      have hrest := ih (some c) bound (by simp at hbound; omega)
      simp only [repeated, search_quotedChar_escape, Nat.add_assoc, hrest]
      simp [search, oneChar, Place.next?]
  | case5 passed c t hquote hlast hescape ih =>
    cases bound with
    | nil => simp at hbound
    | cons b bound =>
      have hrest := ih (some c) bound (by simp at hbound; omega)
      have hne : c ≠ '"' := hquote
      have hplain : c ≠ '\\' := by
        rintro rfl
        cases t with
        | nil => exact hlast rfl rfl
        | cons d t => exact hescape d t rfl rfl
      simp only [repeated, search_quotedChar_plain hne hplain, Nat.add_assoc, hrest]
      simp [search, oneChar, Place.next?, hne, c.utf8Size_pos]

end QuotedChar

/-- At a double quote, the rule for strings matches what a closed literal is. -/
theorem matchLen?_string {t : Text} (h : here.rest = '"' :: t) :
    ConstantRule.string.matchLen? here = quotedLen? here.rest := by
  have hsize : ('"' : Char).utf8Size = 1 := rfl
  have hrepeated := repeated_quotedChar (some '"') here.offset 1 t t (Nat.le_refl _)
  rw [ConstantRule.matchLen?, if_neg (by simp [ConstantRule.string]), h, quotedLen?, ← hrepeated]
  simp [ConstantRule.string, Pattern.matchLen?, Pattern.search, Pattern.oneChar, Place.next?, h,
    hsize]

/-- At a double quote the rules find the closed string. -/
theorem matchConstant_doubleQuote {t : Text} (h : here.rest = '"' :: t) :
    matchConstant here = (quotedLen? here.rest).map (ConstantRule.string, ·) := by
  have hpeek : here.peek? = some '"' := Place.peek?_eq_some h
  have honly : ∀ r ∈ constantRules, r.pattern.starts '"' = true → r = .string :=
    fun _ => eq_string_of_starts
  rw [matchConstant_eq_of_starts (by decide) hpeek (by decide) honly, matchLen?_string h]

/-- A rule that cannot start with the character ahead does not match. -/
theorem matchLen?_eq_none_of_starts {rule : ConstantRule} {c : Char} (hmem : rule ∈ constantRules)
    (hpeek : here.peek? = some c) (hstarts : rule.pattern.starts c = false) :
    rule.matchLen? here = none := by
  cases hlen : rule.matchLen? here with
  | none => rfl
  | some n =>
    have hlen' := hlen
    unfold ConstantRule.matchLen? at hlen'
    split at hlen'
    · cases hlen'
    · rcases Pattern.exists_reading_of_matchLen? hlen' with ⟨there, front, -, hreading, -⟩
      rcases List.exists_cons_of_ne_nil (hreading.ne_nil (consumes_of_mem_constantRules hmem)) with
        ⟨d, tail, hd⟩
      have hdc : d = c := by
        rw [Place.peek?, hreading.rest_eq, hd] at hpeek
        simpa using hpeek
      have hd' := hreading.starts d (by rw [hd]; rfl)
      rw [hdc, hstarts] at hd'
      cases hd'

theorem quotedLen?_escape (c : Char) (t : Text) :
    quotedLen? ('\'' :: '\\' :: c :: t) =
      if t.head? = some '\'' then some (3 + c.utf8Size) else none := by
  unfold quotedLen?
  split
  · rename_i heq
    simp at heq
  · rename_i heq
    simp_all
  · rename_i hne heq
    obtain ⟨rfl, rfl, rfl⟩ := by simpa using heq
    cases t with
    | nil => rfl
    | cons d t =>
      have hd : d ≠ '\'' := fun hd => hne t rfl (hd ▸ rfl)
      simp [hd]
  · rename_i hne _
    cases t with
    | nil => rfl
    | cons d t =>
      have hd : d ≠ '\'' := fun hd => hne c t (hd ▸ rfl)
      simp [hd]

theorem quotedLen?_plain {c : Char} (hescape : c ≠ '\\') (t : Text) :
    quotedLen? ('\'' :: c :: t) =
      if c ≠ '\'' ∧ t.head? = some '\'' then some (2 + c.utf8Size) else none := by
  cases t with
  | nil => simp [quotedLen?]
  | cons d t =>
    by_cases hd : d = '\''
    · subst hd
      unfold quotedLen?
      simp [hescape]
    · unfold quotedLen?
      split
      all_goals simp_all

/-- A pair of single quotes is no closed literal. -/
theorem quotedLen?_pair (t : Text) : quotedLen? ('\'' :: '\'' :: t) = none := by
  rw [quotedLen?_plain (by decide), if_neg (by simp)]

/-- The closing quote of a char literal. -/
theorem search_closingQuote {before : Option Char} {offset start : Nat} {t : Text} :
    Pattern.search (.lit '\'') ⟨before, offset, t⟩ (fun there => some (there.offset - start)) =
      if t.head? = some '\'' then some (offset + 1 - start) else none := by
  have hsize : ('\'' : Char).utf8Size = 1 := rfl
  cases t with
  | nil => simp [Pattern.search, Pattern.oneChar, Place.next?]
  | cons d t =>
    by_cases hd : d = '\'' <;>
      simp [Pattern.search, Pattern.oneChar, Place.next?, hd, hsize]

/-- At a single quote, the rule for characters matches what a closed literal is. -/
theorem matchLen?_char {t : Text} (h : here.rest = '\'' :: t) :
    ConstantRule.char.matchLen? here = quotedLen? here.rest := by
  have hsize : ('\'' : Char).utf8Size = 1 := rfl
  have hlen : ConstantRule.char.matchLen? here =
      Pattern.search (ConstantRule.quotedChar '\'') ⟨some '\'', here.offset + 1, t⟩ fun there =>
        Pattern.search (.lit '\'') there fun there => some (there.offset - here.offset) := by
    rw [ConstantRule.matchLen?, if_neg (by simp [ConstantRule.char])]
    simp [ConstantRule.char, Pattern.matchLen?, Pattern.search, Pattern.oneChar, Place.next?, h,
      hsize]
  rw [hlen, h]
  rcases t with _ | ⟨c, t⟩
  · rw [search_quotedChar_nil]
    rfl
  · by_cases hescape : c = '\\'
    · subst hescape
      rcases t with _ | ⟨c, t⟩
      · rw [search_quotedChar_last]
        rfl
      · rw [search_quotedChar_escape, search_closingQuote, quotedLen?_escape]
        have : here.offset + 1 + (1 + c.utf8Size) + 1 - here.offset = 3 + c.utf8Size := by omega
        rw [this]
    · rw [quotedLen?_plain hescape]
      by_cases hquote : c = '\''
      · have hne : ('\'' : Char) ≠ '\\' := by decide
        rw [hquote, search_quotedChar_quote hne, if_neg (by simp)]
      · rw [search_quotedChar_plain hquote hescape, search_closingQuote]
        have : here.offset + 1 + c.utf8Size + 1 - here.offset = 2 + c.utf8Size := by omega
        rw [this]
        simp [hquote]

/-- At a single quote, the rule for the empty pair needs just another one. -/
theorem matchLen?_emptyChar {t : Text} (h : here.rest = '\'' :: t) :
    ConstantRule.emptyChar.matchLen? here = if t.head? = some '\'' then some 2 else none := by
  have hsize : ('\'' : Char).utf8Size = 1 := rfl
  have hlen : ConstantRule.emptyChar.matchLen? here =
      Pattern.search (.lit '\'') ⟨some '\'', here.offset + 1, t⟩ fun there =>
        some (there.offset - here.offset) := by
    rw [ConstantRule.matchLen?, if_neg (by simp [ConstantRule.emptyChar])]
    simp [ConstantRule.emptyChar, Pattern.matchLen?, Pattern.search, Pattern.oneChar, Place.next?,
      h, hsize]
  have htwo : here.offset + 1 + 1 - here.offset = 2 := by omega
  rw [hlen, search_closingQuote, htwo]

/-- At a single quote the rules find the closed literal, or else the empty pair of quotes. -/
theorem matchConstant_singleQuote {t : Text} (h : here.rest = '\'' :: t) :
    matchConstant here =
      match quotedLen? here.rest with
      | some len => some (ConstantRule.char, len)
      | none => if t.head? = some '\'' then some (ConstantRule.emptyChar, 2) else none := by
  have hpeek : here.peek? = some '\'' := Place.peek?_eq_some h
  -- of all rules, only two can start with the quote, and the one for literals comes first
  have hothers : ∀ r ∈ constantRules, r.pattern.starts '\'' = false → r.matchLen? here = none :=
    fun r hr => matchLen?_eq_none_of_starts hr hpeek
  have hlater : (constantRules.drop 3).findSome? (fun rule => (rule.matchLen? here).map (rule, ·)) =
      none := by
    rw [List.findSome?_eq_none_iff]
    intro r hr
    have hstarts : r.pattern.starts '\'' = false := by
      revert r
      decide
    rw [hothers r (List.mem_of_mem_drop hr) hstarts]
    rfl
  have hstring : ConstantRule.string.matchLen? here = none := hothers _ (by decide) (by decide)
  have hrules : constantRules =
      .string :: .char :: .emptyChar :: constantRules.drop 3 := rfl
  unfold matchConstant
  rw [hpeek, Option.any_some, if_pos (by decide), hrules]
  simp only [List.findSome?_cons, hstring, matchLen?_char h, matchLen?_emptyChar h, hlater]
  cases quotedLen? here.rest with
  | some len => rfl
  | none => by_cases ht : t.head? = some '\'' <;> simp [ht]

/-! ## At a digit or a dot -/

/-- At a digit or a dot, the rules find numbers only. -/
theorem numberLen?_eq_map_matchConstant {c : Char} (hpeek : here.peek? = some c)
    (hc : c.isDigit = true ∨ c = '.') : numberLen? here = (matchConstant here).map (·.2) := by
  have hany : here.peek?.any (fun c => c.isDigit || c = '.') = true := by
    rw [hpeek]
    simpa using hc
  unfold numberLen?
  rw [if_pos hany]
  cases hmatch : matchConstant here with
  | none => rfl
  | some pair =>
    obtain ⟨rule, len⟩ := pair
    rcases matchConstant_eq_some hmatch with ⟨there, front, hat⟩
    have hnumber : rule.kind.isNumber = true := by
      by_contra hnot
      have hstarts := starts_of_not_isNumber hat.mem (Bool.eq_false_iff.2 hnot) (hat.starts hpeek)
      rcases hstarts with rfl | rfl | rfl | rfl <;> revert hc <;> decide
    simp [hnumber]

/-- A character that is neither a digit nor a point starts no number. -/
theorem numberLen?_eq_none {c : Char} (hpeek : here.peek? = some c)
    (hdigit : c.isDigit = false) (hdot : c ≠ '.') : numberLen? here = none := by
  have hany : here.peek?.any (fun c => c.isDigit || c = '.') = false := by
    rw [hpeek]
    simp [hdigit, hdot]
  unfold numberLen?
  rw [if_neg (by simp [hany])]

/-- What a number reads: it starts with a digit or a dot and holds no quote. -/
theorem exists_constantAt_of_numberLen? {len : Nat} (h : numberLen? here = some len) :
    ∃ rule there front, ConstantAt here rule len there front ∧ rule.kind.isNumber = true ∧
      matchConstant here = some (rule, len) := by
  unfold numberLen? at h
  split at h
  · split at h
    · rename_i rule len' hmatch
      split at h
      · rename_i hnumber
        cases h
        rcases matchConstant_eq_some hmatch with ⟨there, front, hat⟩
        exact ⟨rule, there, front, hat, hnumber, hmatch⟩
      · cases h
    · cases h
  · cases h

theorem holds_digit {c : Char} :
    (CharClass.mk false [.range '0' '9']).holds c = true ↔ c.isDigit = true := by
  simp [CharClass.holds, ClassItem.holds, Char.isDigit, Char.le_def]

/-- After a point at the start of a number comes a digit. -/
theorem numberLen?_dot {t : Text} (h : here.rest = '.' :: t)
    (ht : ∀ d ∈ t.head?, d.isDigit = false) : numberLen? here = none := by
  cases hnumber : numberLen? here with
  | none => rfl
  | some len =>
    rcases exists_constantAt_of_numberLen? hnumber with ⟨rule, there, front, hat, -, -⟩
    have hpeek : here.peek? = some '.' := Place.peek?_eq_some h
    have hrule : rule = .float := eq_float_of_starts hat.mem (hat.starts hpeek)
    subst hrule
    exfalso
    cases hat.matching with
    | seq hmantissa _ =>
      cases hmantissa with
      | altLeft hleft =>
        cases hleft with
        | seq hdigits _ =>
          -- the point would be the first digit
          rcases hdigits.exists_next_of_plus with ⟨c, mid, hnext, hk⟩
          rw [(Place.next?_eq_some hnext).1] at h
          obtain ⟨rfl, -⟩ := List.cons.inj h
          revert hk
          decide
      | altRight hright =>
        cases hright with
        | seq hdot hdigits =>
          cases hdot with
          | lit hnext =>
            -- a digit would follow the point
            rcases hdigits.exists_next_of_plus with ⟨c, mid, hnext', hk⟩
            have htail := (List.cons.inj ((Place.next?_eq_some hnext).1.symm.trans h)).2
            have hhead := ht c (by rw [← htail, (Place.next?_eq_some hnext').1]; rfl)
            rw [holds_digit.1 hk] at hhead
            cases hhead

/-- A point before a digit starts a number. -/
theorem isSome_numberLen?_dot {d : Char} {t : Text} (h : here.rest = '.' :: d :: t)
    (hd : d.isDigit = true) : (numberLen? here).isSome = true := by
  have hpeek : here.peek? = some '.' := Place.peek?_eq_some h
  have hdot : here.next? = some ('.', here.past ['.'] (d :: t)) := by
    simp [Place.next?, h, Place.past]
  have hdigit : (here.past ['.'] (d :: t)).next? = some (d, here.past ['.', d] t) := by
    simp [Place.next?, Place.past, Nat.add_assoc]
  -- no digits before the point, one behind it, and neither exponent nor suffix
  have hmatches : Pattern.Matches ConstantRule.float.pattern here (here.past ['.', d] t) :=
    .seq (.altRight (.seq (.lit hdot) (.plus (.one hdigit (holds_digit.2 hd)) .starNil)))
      (.seq .optNone .optNone)
  have hfloat : (ConstantRule.float.matchLen? here).isSome = true := by
    rw [ConstantRule.matchLen?, if_neg (by simp [hpeek])]
    exact Pattern.isSome_search hmatches rfl
  have hmatch : (matchConstant here).isSome = true := by
    unfold matchConstant
    rw [hpeek, Option.any_some, if_pos (by decide), List.findSome?_isSome_iff]
    exact ⟨.float, by decide, by simpa using hfloat⟩
  rw [numberLen?_eq_map_matchConstant hpeek (Or.inr rfl), Option.isSome_map]
  exact hmatch

/-! ## At a letter -/

/-- The truth values are words. -/
theorem isIdentChar_of_reads_bool {c : Char} (h : ConstantRule.bool.pattern.reads c = true) :
    isIdentChar c = true := by
  have hc : ((c = 't' ∨ c = 'r' ∨ c = 'u' ∨ c = 'e') ∨ c = 'f' ∨ c = 'a' ∨ c = 'l' ∨ c = 's' ∨
      c = 'e') := by
    simpa [ConstantRule.bool, Pattern.word, Pattern.reads] using h
  rcases hc with (rfl | rfl | rfl | rfl) | rfl | rfl | rfl | rfl | rfl <;> decide

/-- A truth value is the whole run of word characters, and starts at the start of a word. -/
theorem ConstantAt.bool_eq_word {len : Nat} {there : Place} {front : Text} {c : Char}
    (h : ConstantAt here .bool len there front) (hpeek : here.peek? = some c) (hdot : c ≠ '.') :
    len = wordLen here.rest ∧ atWordStart here = true := by
  have hident : ∀ d ∈ front, isIdentChar d = true :=
    fun d hd => isIdentChar_of_reads_bool (h.reading.reads d hd)
  have hedge : Pattern.isWordEdge there = true := by
    cases h.matching with
    | seq _ hq =>
      cases hq with
      | wordEdge hedge => exact hedge
  have hbefore : there.before.any isIdentChar = true := by
    rcases List.getLast?_isSome.2 h.ne_nil |> Option.isSome_iff_exists.1 with ⟨d, hd⟩
    rw [h.reading.past_eq, Place.past, hd]
    exact hident d (List.mem_of_getLast? hd)
  -- the last character read is one of a word, so the edge is one because the next is not
  have hpeek' : there.peek?.any isIdentChar = false := by
    unfold Pattern.isWordEdge at hedge
    rw [hbefore] at hedge
    simpa using hedge
  have htail : there.rest.takeWhile isIdentChar = [] := by
    unfold Place.peek? at hpeek'
    cases hrest : there.rest with
    | nil => rfl
    | cons d t =>
      rw [hrest] at hpeek'
      rw [List.takeWhile_cons_of_neg (by simpa using hpeek')]
  constructor
  · rw [wordLen, h.rest_eq, List.takeWhile_append_of_pos hident, htail, List.append_nil,
      h.byteLen_eq]
  · unfold atWordStart
    cases hword : here.before.any isIdentChar with
    | false => rfl
    | true =>
      have := h.apart rfl hword
      rw [hpeek] at this
      exact absurd (Option.some.inj this) hdot

/-- At a character that no other constant starts with, the rules find truth values only. -/
theorem eq_bool_of_matchConstant {c : Char} {rule : ConstantRule} {len : Nat}
    (hpeek : here.peek? = some c) (hdigit : c.isDigit = false) (hdot : c ≠ '.')
    (hdouble : c ≠ '"') (hsingle : c ≠ '\'') (h : matchConstant here = some (rule, len)) :
    isIdentStart c = true ∧ rule = .bool ∧ len = wordLen here.rest ∧ atWordStart here = true := by
  have hstart : startsConstant c = true := by
    unfold matchConstant at h
    split at h
    · rename_i hany
      rwa [hpeek, Option.any_some] at hany
    · cases h
  have hc : c = 't' ∨ c = 'f' := by
    simpa [startsConstant, hdigit, hdot, hdouble, hsingle] using hstart
  rcases matchConstant_eq_some h with ⟨there, front, hat⟩
  have hrule : rule = .bool := by
    rcases hc with rfl | rfl
    · exact (eq_bool_of_starts hat.mem).1 (hat.starts hpeek)
    · exact (eq_bool_of_starts hat.mem).2 (hat.starts hpeek)
  subst hrule
  have hletter : isIdentStart c = true := by rcases hc with rfl | rfl <;> decide
  exact ⟨hletter, rfl, hat.bool_eq_word hpeek hdot⟩

end Strata
