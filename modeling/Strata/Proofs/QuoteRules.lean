import Strata.Proofs.Longest

/-!
# The rules at a quote

A literal is read in two ways that must not drift apart. `quotedLen?` goes over the text character
by character, and by it literals are skipped; the patterns of `constantRules` are searched with
backtracking, and by them literals are classified. The three patterns that start with a quote have
one match at most, and no two of them match at one place. So neither the order of a search nor the
order of the rules has a say, and a rule decides exactly where its pattern matches.

* `matchLen?_eq_some_iff_matches`: what a rule at a quote finds, by the matches of its pattern;
* `matchLen?_string_iff`, `matchLen?_char_iff`, `matchLen?_emptyChar_iff`: the same by the text;
* `quotedLen?_eq_some_iff`: a closed literal, by the rules;
* `matchConstant_eq_some_iff_matchLen?`: where a rule at a quote decides;
* `literalsAgree`: the two readings at any place.
-/

namespace Strata

variable {here there : Place} {rule : ConstantRule} {c : Char} {t : Text} {len : Nat}

/-- The rules that start with a quote. -/
def quoteRules : List ConstantRule := [.string, .char, .emptyChar]

/-! ## What starts with a quote -/

theorem mem_constantRules_of_mem_quoteRules (h : rule ∈ quoteRules) : rule ∈ constantRules := by
  revert rule
  decide

/-- Only the rules for characters and for the empty pair start with a single quote. -/
theorem eq_char_or_emptyChar_of_starts (hmem : rule ∈ constantRules)
    (hstarts : rule.pattern.starts '\'' = true) : rule = .char ∨ rule = .emptyChar := by
  revert rule
  decide

/-- What the pattern of a rule matches starts with one of its characters. -/
theorem exists_starts_of_matches (hmem : rule ∈ constantRules)
    (h : rule.pattern.Matches here there) :
    ∃ c, here.peek? = some c ∧ rule.pattern.starts c = true :=
  (Pattern.exists_starts_of_mem_ends (consumes_of_mem_constantRules hmem)
    (Pattern.mem_ends.2 h)).2

theorem starts_of_matches (hpeek : here.peek? = some c) (hmem : rule ∈ constantRules)
    (h : rule.pattern.Matches here there) : rule.pattern.starts c = true := by
  rcases exists_starts_of_matches hmem h with ⟨d, hd, hstarts⟩
  obtain rfl : c = d := Option.some.inj (hpeek.symm.trans hd)
  exact hstarts

/-- A rule at a quote starts with nothing but its quote. -/
theorem starts_iff_of_mem_quoteRules (h : rule ∈ quoteRules) (c : Char) :
    rule.pattern.starts c = true ↔ c = if rule = .string then '"' else '\'' := by
  simp only [quoteRules, List.mem_cons, List.not_mem_nil, or_false] at h
  rcases h with rfl | rfl | rfl
  · simp [ConstantRule.string, Pattern.starts, Pattern.consumes]
  · simp [ConstantRule.char, ConstantRule.string, Pattern.starts, Pattern.consumes]
  · simp [ConstantRule.emptyChar, ConstantRule.string, Pattern.starts, Pattern.consumes]

/-! ## What a rule at a quote finds -/

theorem single_of_mem_quoteRules (h : rule ∈ quoteRules) : rule.pattern.Single := by
  simp only [quoteRules, List.mem_cons, List.not_mem_nil, or_false] at h
  rcases h with rfl | rfl | rfl
  · exact ConstantRule.single_string
  · exact ConstantRule.single_char
  · exact (Pattern.single_lit _).seq (Pattern.single_lit _)

/-- Whatever comes before the quote, the rule finds what its pattern matches. -/
theorem matchLen?_eq_some_iff_matches (h : rule ∈ quoteRules) :
    rule.matchLen? here = some len ↔
      ∃ there, rule.pattern.Matches here there ∧ there.offset = here.offset + len := by
  have hstart : rule.wordStart = false := by
    revert rule
    decide
  rw [ConstantRule.matchLen?, if_neg (by simp [hstart])]
  exact (single_of_mem_quoteRules h).matchLen?_eq_some_iff

theorem exists_rest_of_matchLen? (h : rule ∈ quoteRules) (hlen : rule.matchLen? here = some len) :
    ∃ t, here.rest = (if rule = .string then '"' else '\'') :: t := by
  rcases (matchLen?_eq_some_iff_matches h).1 hlen with ⟨there, hmatches, -⟩
  rcases exists_starts_of_matches (mem_constantRules_of_mem_quoteRules h) hmatches with
    ⟨c, hpeek, hstarts⟩
  rw [← (starts_iff_of_mem_quoteRules h c).1 hstarts]
  exact List.head?_eq_some_iff.1 hpeek

/-- The rule for strings matches the closed literals in double quotes. -/
theorem matchLen?_string_iff : ConstantRule.string.matchLen? here = some len ↔
    (∃ t, here.rest = '"' :: t) ∧ quotedLen? here.rest = some len := by
  constructor
  · intro hlen
    rcases exists_rest_of_matchLen? (by decide) hlen with ⟨t, hrest⟩
    exact ⟨⟨t, hrest⟩, matchLen?_string hrest ▸ hlen⟩
  · rintro ⟨⟨t, hrest⟩, hquoted⟩
    rw [matchLen?_string hrest, hquoted]

/-- The rule for characters matches the closed literals in single quotes. -/
theorem matchLen?_char_iff : ConstantRule.char.matchLen? here = some len ↔
    (∃ t, here.rest = '\'' :: t) ∧ quotedLen? here.rest = some len := by
  constructor
  · intro hlen
    rcases exists_rest_of_matchLen? (by decide) hlen with ⟨t, hrest⟩
    exact ⟨⟨t, hrest⟩, matchLen?_char hrest ▸ hlen⟩
  · rintro ⟨⟨t, hrest⟩, hquoted⟩
    rw [matchLen?_char hrest, hquoted]

/-- The rule for the empty pair matches two single quotes. -/
theorem matchLen?_emptyChar_iff : ConstantRule.emptyChar.matchLen? here = some len ↔
    len = 2 ∧ ['\'', '\''] <+: here.rest := by
  constructor
  · intro hlen
    rcases exists_rest_of_matchLen? (by decide) hlen with ⟨t, hrest⟩
    rw [matchLen?_emptyChar hrest] at hlen
    split at hlen
    · rename_i hhead
      rcases List.head?_eq_some_iff.1 hhead with ⟨t', rfl⟩
      exact ⟨(Option.some.inj hlen).symm, t', hrest.symm⟩
    · cases hlen
  · rintro ⟨rfl, t, hrest⟩
    rw [matchLen?_emptyChar hrest.symm]
    rfl

/-! ## Closed literals -/

/-- Closed literals start with a quote. -/
theorem quotedLen?_eq_none (hdouble : c ≠ '"') (hsingle : c ≠ '\'') :
    quotedLen? (c :: t) = none := by
  unfold quotedLen?
  split <;> simp_all

/-- A closed literal starts with a quote. -/
theorem quote_of_quotedLen? (hhead : here.rest = c :: t) (h : quotedLen? here.rest = some len) :
    c = '"' ∨ c = '\'' := by
  by_contra hnot
  rw [not_or] at hnot
  rw [hhead, quotedLen?_eq_none hnot.1 hnot.2] at h
  cases h

/-- A closed literal is what one of the two patterns for literals matches. -/
theorem quotedLen?_eq_some_iff : quotedLen? here.rest = some len ↔
    ConstantRule.string.matchLen? here = some len ∨
      ConstantRule.char.matchLen? here = some len := by
  rw [matchLen?_string_iff, matchLen?_char_iff]
  constructor
  · intro hquoted
    cases hrest : here.rest with
    | nil =>
      rw [hrest] at hquoted
      cases hquoted
    | cons c t =>
      rcases quote_of_quotedLen? hrest hquoted with rfl | rfl
      · exact Or.inl ⟨⟨t, rfl⟩, hrest ▸ hquoted⟩
      · exact Or.inr ⟨⟨t, rfl⟩, hrest ▸ hquoted⟩
  · rintro (⟨-, hquoted⟩ | ⟨-, hquoted⟩) <;> exact hquoted

/-! ## Where a rule at a quote decides -/

theorem matchConstant_of_matchLen?_string
    (hlen : ConstantRule.string.matchLen? here = some len) :
    matchConstant here = some (.string, len) := by
  rcases matchLen?_string_iff.1 hlen with ⟨⟨t, hrest⟩, hquoted⟩
  rw [matchConstant_doubleQuote hrest, hquoted]
  rfl

theorem matchConstant_of_matchLen?_char (hlen : ConstantRule.char.matchLen? here = some len) :
    matchConstant here = some (.char, len) := by
  rcases matchLen?_char_iff.1 hlen with ⟨⟨t, hrest⟩, hquoted⟩
  rw [matchConstant_singleQuote hrest, hquoted]

/-- The rule for characters comes before that for the empty pair, but does not match it. -/
theorem matchConstant_of_matchLen?_emptyChar
    (hlen : ConstantRule.emptyChar.matchLen? here = some len) :
    matchConstant here = some (.emptyChar, len) := by
  rcases matchLen?_emptyChar_iff.1 hlen with ⟨rfl, t, hpair⟩
  have hrest : here.rest = '\'' :: '\'' :: t := hpair.symm
  rw [matchConstant_singleQuote hrest, hrest, quotedLen?_pair]
  rfl

/-- A rule at a quote decides exactly where it matches. -/
theorem matchConstant_eq_some_iff_matchLen? (h : rule ∈ quoteRules) :
    matchConstant here = some (rule, len) ↔ rule.matchLen? here = some len := by
  constructor
  · intro hmatch
    rcases matchConstant_eq_some hmatch with ⟨there, front, hat⟩
    exact hat.matchLen?
  · intro hlen
    simp only [quoteRules, List.mem_cons, List.not_mem_nil, or_false] at h
    rcases h with rfl | rfl | rfl
    · exact matchConstant_of_matchLen?_string hlen
    · exact matchConstant_of_matchLen?_char hlen
    · exact matchConstant_of_matchLen?_emptyChar hlen

/-! ## The two readings -/

/-- At a place, what is skipped as a literal and what the rules for constants find are the same. -/
structure LiteralsAgree (here : Place) : Prop where
  /-- A closed literal of some length is what the rule for strings or the one for characters
  decides on. -/
  literal : ∀ len, quotedLen? here.rest = some len ↔
    matchConstant here = some (.string, len) ∨ matchConstant here = some (.char, len)
  /-- It is what one of their patterns matches, in whichever order matches are looked for. -/
  matching : ∀ len, quotedLen? here.rest = some len ↔ ∃ there,
    (ConstantRule.string.pattern.Matches here there ∨
      ConstantRule.char.pattern.Matches here there) ∧ there.offset = here.offset + len
  /-- The rule for the empty pair of quotes decides exactly if there is one. -/
  emptyPair : ∀ len, matchConstant here = some (.emptyChar, len) ↔
    len = 2 ∧ ['\'', '\''] <+: here.rest
  /-- No other rule has a match that starts with a double quote. -/
  doubleQuote : here.peek? = some '"' →
    ∀ rule ∈ constantRules, ∀ there, rule.pattern.Matches here there → rule = .string
  /-- No other rules have a match that starts with a single quote. -/
  singleQuote : here.peek? = some '\'' →
    ∀ rule ∈ constantRules, ∀ there, rule.pattern.Matches here there →
      rule = .char ∨ rule = .emptyChar

/-- Literals are skipped and classified alike at every place, whatever has been read before it and
whatever is ahead. -/
theorem literalsAgree (here : Place) : LiteralsAgree here where
  literal len := by
    rw [matchConstant_eq_some_iff_matchLen? (by decide),
      matchConstant_eq_some_iff_matchLen? (by decide)]
    exact quotedLen?_eq_some_iff
  matching len := by
    rw [quotedLen?_eq_some_iff, matchLen?_eq_some_iff_matches (by decide),
      matchLen?_eq_some_iff_matches (by decide), ← exists_or]
    simp only [or_and_right]
  emptyPair len := by
    rw [matchConstant_eq_some_iff_matchLen? (by decide)]
    exact matchLen?_emptyChar_iff
  doubleQuote hpeek _ hmem _ hmatches :=
    eq_string_of_starts hmem (starts_of_matches hpeek hmem hmatches)
  singleQuote hpeek _ hmem _ hmatches :=
    eq_char_or_emptyChar_of_starts hmem (starts_of_matches hpeek hmem hmatches)

end Strata
