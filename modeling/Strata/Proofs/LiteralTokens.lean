import Strata.Proofs.Literals

/-!
# Literals and the tokens for them

The literals of a text are found once and looked up by offset, and the scan for constants reports
each of them as a token. The two say the same about every byte: it is inside a literal exactly if
such a token covers it, and inside the end of a range exactly if that token has lost its kind.

* `Token.isLiteral`, `Token.isDemoted`: the tokens for literals, and for the ends of ranges;
* `Reports.isLiteral_iff`, `Reports.isDemoted_iff`: the tokens that the scan reports at literals;
* `Reports.contains_literals_iff`, `Reports.contains_ranges_iff`: what is looked up in their bytes;
* `tagConstants_covers_literals`: the bytes that they cover.
-/

namespace Strata

variable {text : Text} {here there : Place} {token : Token} {offset : Nat}

/-- A constant that was accounted for elsewhere: the empty pair of single quotes is unknown as well,
but no constant. -/
def Token.isDemoted (t : Token) : Bool := t.kind = .unknown && t.lexeme ≠ ['\'', '\'']

/-- A closed literal, whether or not it was accounted for elsewhere. -/
def Token.isLiteral (t : Token) : Bool := t.kind = .string || t.kind = .char || t.isDemoted

theorem Token.isLiteral_eq_false (h : token.kind.isNumber = true ∨ token.kind = .bool) :
    token.isLiteral = false := by
  unfold isLiteral isDemoted
  rcases h with h | h
  · cases hkind : token.kind <;> rw [hkind] at h <;> first | rfl | cases h
  · rw [h]
    rfl

/-! ## What is reported at a literal -/

/-- The scan for constants reports every closed literal that it comes to. -/
theorem exists_reports_of_quotedLen? {skip : SpanSet} {len : Nat}
    (hquoted : quotedLen? here.rest = some len) (hmove : MovesTo (constantStep skip) here there) :
    ∃ token, Reports (constantStep skip) here there token := by
  rcases matchConstant_of_quotedLen? hquoted with ⟨rule, hmatch, -⟩
  rcases tokensOf_scan_of_movesTo hmove with ⟨hnone, -⟩ | ⟨token, hreports, -⟩
  · rw [constantStep_of_match hmatch] at hnone
    cases hnone
  · exact ⟨token, hreports⟩

/-- A literal keeps its kind, unless it is the end of a range. -/
theorem kind_of_quotedLen? {skip : SpanSet} {len : Nat} (hquoted : quotedLen? here.rest = some len)
    (hreports : Reports (constantStep skip) here there token) :
    (skip.contains here.offset = true ∧ token.kind = .unknown) ∨
      (skip.contains here.offset = false ∧ (token.kind = .string ∨ token.kind = .char)) := by
  rcases matchConstant_of_quotedLen? hquoted with ⟨rule, hmatch, hrule⟩
  have hkind : skip.demoted here.offset rule.kind = token.kind := by
    have := hreports.kind_eq
    rw [constantStep_of_match hmatch] at this
    exact Option.some.inj this
  rw [← hkind]
  cases hskip : skip.contains here.offset with
  | true => exact Or.inl ⟨rfl, by simp [SpanSet.demoted, hskip]⟩
  | false => exact Or.inr ⟨rfl, by simpa [SpanSet.demoted, hskip] using hrule⟩

/-- Two single quotes with nothing between them are no literal. -/
theorem lexeme_ne_of_quotedLen? {step : Place → Move} {len : Nat}
    (hquoted : quotedLen? here.rest = some len) (hreports : Reports step here there token) :
    token.lexeme ≠ ['\'', '\''] := by
  intro hlexeme
  rw [hreports.rest_eq, hlexeme] at hquoted
  rw [show ['\'', '\''] ++ there.rest = '\'' :: '\'' :: there.rest from rfl,
    quotedLen?_pair] at hquoted
  cases hquoted

/-- What is reported elsewhere keeps the kind of a number or a truth value, or is an empty pair of
single quotes. -/
theorem kind_of_quotedLen?_eq_none {skip : SpanSet} (hquoted : quotedLen? here.rest = none)
    (hskip : skip.contains here.offset = false)
    (hreports : Reports (constantStep skip) here there token) :
    token.kind.isNumber = true ∨ token.kind = .bool ∨
      (token.kind = .unknown ∧ token.lexeme = ['\'', '\'']) := by
  have hkept : ∀ kind, skip.demoted here.offset kind = kind := by
    intro kind
    simp [SpanSet.demoted, hskip]
  have hkind := hreports.kind_eq
  rcases hreports.moves.exists_head with ⟨c, t, hhead⟩
  have hmove : ConstantMove skip here := constantStep_cases hhead
  cases hmove with
  | literal hsome _ _ =>
    rw [hquoted] at hsome
    cases hsome
  | emptyPair hrest hstep =>
    have hlen : byteLen token.lexeme = byteLen ['\'', '\''] := by
      rw [hreports.byteLen_lexeme, hstep]
      rfl
    rw [hstep] at hkind
    refine Or.inr (Or.inr ⟨(Option.some.inj hkind).symm, ?_⟩)
    exact (append_inj_of_byteLen (hreports.rest_eq.symm.trans hrest) hlen).1
  | @number rule _ _ _ _ _ hnumber hstep =>
    rw [hstep, hkept] at hkind
    rw [← Option.some.inj hkind]
    exact Or.inl hnumber
  | truth _ _ _ hstep =>
    rw [hstep, hkept] at hkind
    exact Or.inr (Or.inl (Option.some.inj hkind).symm)
  | word _ _ _ hstep =>
    rw [hstep] at hkind
    cases hkind
  | other _ _ _ _ _ hstep =>
    rw [hstep] at hkind
    cases hkind

/-- The literals among the constants are the tokens that start with a closed literal. -/
theorem Reports.isLiteral_iff
    (h : Visits (constantStep (Literals.ofText text).ranges) (Place.start text) here)
    (hreports : Reports (constantStep (Literals.ofText text).ranges) here there token) :
    token.isLiteral = true ↔ ∃ len, quotedLen? here.rest = some len := by
  cases hquoted : quotedLen? here.rest with
  | some len =>
    have hlexeme := lexeme_ne_of_quotedLen? hquoted hreports
    rcases kind_of_quotedLen? hquoted hreports with ⟨-, hkind⟩ | ⟨-, hkind | hkind⟩ <;>
      simp [Token.isLiteral, Token.isDemoted, hkind, hlexeme]
  | none =>
    have hskip := ranges_contains_eq_false h hreports.moves hquoted
    have hnot : token.isLiteral = false := by
      rcases kind_of_quotedLen?_eq_none hquoted hskip hreports with hkind | hkind | ⟨hkind, hpair⟩
      · exact Token.isLiteral_eq_false (Or.inl hkind)
      · exact Token.isLiteral_eq_false (Or.inr hkind)
      · simp [Token.isLiteral, Token.isDemoted, hkind, hpair]
    simp [hnot]

/-- A constant is demoted exactly at an end of a range of characters. -/
theorem Reports.isDemoted_iff
    (h : Visits (constantStep (Literals.ofText text).ranges) (Place.start text) here)
    (hreports : Reports (constantStep (Literals.ofText text).ranges) here there token) :
    token.isDemoted = true ↔ (Literals.ofText text).ranges.contains here.offset = true := by
  cases hquoted : quotedLen? here.rest with
  | some len =>
    have hlexeme := lexeme_ne_of_quotedLen? hquoted hreports
    rcases kind_of_quotedLen? hquoted hreports with ⟨hskip, hkind⟩ | ⟨hskip, hkind | hkind⟩ <;>
      simp [Token.isDemoted, hkind, hlexeme, hskip]
  | none =>
    have hskip := ranges_contains_eq_false h hreports.moves hquoted
    have hnot : ¬token.isLiteral = true := by
      rw [hreports.isLiteral_iff h, hquoted]
      simp
    have hdemoted : token.isDemoted = false := by
      rw [Token.isLiteral, Bool.or_eq_true, not_or] at hnot
      exact Bool.eq_false_iff.2 hnot.2
    rw [hdemoted, hskip]

/-! ## What the tokens cover -/

/-- A token covers the bytes between the two ends of its move. -/
theorem Reports.contains_iff {step : Place → Move} (h : Reports step here there token) :
    token.span.contains offset = true ↔ here.offset ≤ offset ∧ offset < there.offset := by
  rw [h.span_eq, Span.contains_eq_true]

/-- Each byte inside a literal is covered by the token that is reported for the literal. -/
theorem exists_reports_of_contains (h : (Literals.ofText text).all.contains offset = true) :
    ∃ p p' t, Visits (constantStep (Literals.ofText text).ranges) (Place.start text) p ∧
      Reports (constantStep (Literals.ofText text).ranges) p p' t ∧ t.isLiteral = true ∧
      t.span.contains offset = true := by
  rcases (contains_literals (Literals.ofText text).ranges).1 h with
    ⟨p, p', hp, hmove, ⟨len, hquoted⟩, hcovers⟩
  rcases exists_reports_of_quotedLen? hquoted hmove with ⟨t, hreports⟩
  exact ⟨p, p', t, hp, hreports, (hreports.isLiteral_iff hp).2 ⟨len, hquoted⟩,
    hreports.contains_iff.2 hcovers⟩

/-- The bytes of a token are inside literals if it is one for a literal, and else none of them
is. -/
theorem Reports.contains_literals_iff
    (h : Visits (constantStep (Literals.ofText text).ranges) (Place.start text) here)
    (hreports : Reports (constantStep (Literals.ofText text).ranges) here there token)
    (hcontains : token.span.contains offset = true) :
    (Literals.ofText text).all.contains offset = true ↔ token.isLiteral = true := by
  rw [Strata.contains_literals_iff h hreports.moves (hreports.contains_iff.1 hcontains),
    hreports.isLiteral_iff h]

/-- The bytes of a token are inside the ends of ranges if it has lost its kind, and else none of
them is. -/
theorem Reports.contains_ranges_iff
    (h : Visits (constantStep (Literals.ofText text).ranges) (Place.start text) here)
    (hreports : Reports (constantStep (Literals.ofText text).ranges) here there token)
    (hcontains : token.span.contains offset = true) :
    (Literals.ofText text).ranges.contains offset = true ↔ token.isDemoted = true := by
  -- all of its bytes are, or none
  have hfirst : here.offset ≤ here.offset ∧ here.offset < there.offset :=
    ⟨Nat.le_refl _, hreports.moves.offset_lt⟩
  rw [hreports.isDemoted_iff h, Strata.contains_ranges_iff h hreports.moves hfirst,
    Strata.contains_ranges_iff h hreports.moves (hreports.contains_iff.1 hcontains)]

/-- The literals that are looked up and the literals that are reported among the constants are the
same: a byte is inside a literal exactly if a token for one covers it, and inside the end of a range
exactly if a token that has lost its kind covers it. So the ends of ranges are literals, and no
number and no truth value shares a byte with a literal. -/
theorem tagConstants_covers_literals (text : Text) :
    ∃ constants, tagConstants text (Literals.ofText text).ranges = .ok constants ∧
      (∀ offset, (Literals.ofText text).all.contains offset = true ↔
        ∃ t ∈ constants.tokens, t.isLiteral = true ∧ t.span.contains offset = true) ∧
      (∀ offset, (Literals.ofText text).ranges.contains offset = true ↔
        ∃ t ∈ constants.tokens, t.isDemoted = true ∧ t.span.contains offset = true) ∧
      (∀ offset, (Literals.ofText text).ranges.contains offset = true →
        (Literals.ofText text).all.contains offset = true) ∧
      ∀ t ∈ constants.tokens, (t.kind.isNumber = true ∨ t.kind = .bool) →
        ∀ offset, t.span.contains offset = true →
          (Literals.ofText text).all.contains offset = false := by
  refine ⟨_, ofScan_eq_ok (advances_constantStep text _), ?_, ?_,
    fun _ => contains_literals_of_ranges, ?_⟩
  · intro offset
    constructor
    · intro hinside
      rcases exists_reports_of_contains hinside with ⟨p, p', t, hp, hreports, hliteral, hcontains⟩
      exact ⟨t, mem_tokensOf_scan.2 ⟨p, p', hp, hreports⟩, hliteral, hcontains⟩
    · rintro ⟨t, ht, hliteral, hcontains⟩
      rcases mem_tokensOf_scan.1 ht with ⟨p, p', hp, hreports⟩
      exact (hreports.contains_literals_iff hp hcontains).2 hliteral
  · intro offset
    constructor
    · intro hinside
      rcases exists_reports_of_contains (contains_literals_of_ranges hinside) with
        ⟨p, p', t, hp, hreports, -, hcontains⟩
      exact ⟨t, mem_tokensOf_scan.2 ⟨p, p', hp, hreports⟩,
        (hreports.contains_ranges_iff hp hcontains).1 hinside, hcontains⟩
    · rintro ⟨t, ht, hdemoted, hcontains⟩
      rcases mem_tokensOf_scan.1 ht with ⟨p, p', hp, hreports⟩
      exact (hreports.contains_ranges_iff hp hcontains).2 hdemoted
  · intro t ht hkind offset hcontains
    rcases mem_tokensOf_scan.1 ht with ⟨p, p', hp, hreports⟩
    rw [← Bool.not_eq_true, hreports.contains_literals_iff hp hcontains,
      Token.isLiteral_eq_false hkind]
    exact Bool.false_ne_true

end Strata
