import Strata.Proofs.Advance
import Strata.Proofs.Longest

/-!
# Constants as a plain alternation

The scan for constants looks at the character ahead before it tries the rules, and steps over a
word in one move. `Alternation` says what it is to find without any of this: at each place the rules
are tried in order, the first that matches takes its longest match, and where none does one
character is passed. Neither shortcut loses anything: a rule that can match starts with a character
that passes the first test, and inside a word no rule may start.

* `Alternation`: the tokens of the plain alternation, from a place on;
* `Alternation.unique`: there is one list of them at most;
* `alternation_scan`: the scan finds that list;
* `exists_alternation`: the sweep for constants.
-/

namespace Strata

variable {skip : SpanSet} {here there : Place} {rule : ConstantRule} {c : Char} {len : Nat}

/-! ## The plain alternation -/

/-- Whether a rule is tried at a place: the rules for words and numbers are not tried inside a word,
unless there is a point ahead. -/
def ConstantRule.MayStart (rule : ConstantRule) (here : Place) : Prop :=
  rule.wordStart = true → here.before.any isIdentChar = false ∨ here.peek? = some '.'

/-- A rule is tried at a place, and the longest match of its pattern leads to another. -/
structure ConstantRule.Takes (rule : ConstantRule) (here there : Place) : Prop where
  mayStart : rule.MayStart here
  longest : rule.pattern.IsLongest here there

/-- A rule is not tried at a place, or its pattern does not match there. -/
def ConstantRule.Fails (rule : ConstantRule) (here : Place) : Prop :=
  rule.MayStart here → ∀ there, ¬rule.pattern.Matches here there

/-- The tokens of the plain alternation from a place on: what starts in `skip` is unknown. -/
inductive Alternation (skip : SpanSet) : Place → List Token → Prop
  | done {here : Place} (hrest : here.rest = []) : Alternation skip here []
  | take {here there : Place} {rule : ConstantRule} {earlier later : List ConstantRule}
      {front : Text} {tokens : List Token} (hrules : constantRules = earlier ++ rule :: later)
      (hearlier : ∀ r ∈ earlier, r.Fails here) (htakes : rule.Takes here there)
      (hfront : here.rest = front ++ there.rest) (htokens : Alternation skip there tokens) :
      Alternation skip here
        (⟨if skip.contains here.offset then .unknown else rule.kind, front,
          ⟨here.offset, there.offset⟩⟩ :: tokens)
  | pass {here there : Place} {c : Char} {tokens : List Token}
      (hnone : ∀ r ∈ constantRules, r.Fails here) (hnext : here.next? = some (c, there))
      (htokens : Alternation skip there tokens) : Alternation skip here tokens

/-! ## There is one result at most -/

/-- A rule does not both match and fail at the same place. -/
theorem ConstantRule.Takes.not_fails (h : rule.Takes here there) : ¬rule.Fails here :=
  fun hfails => hfails h.mayStart there h.longest.matching

/-- The longest match from a place leads to one place only. -/
theorem Pattern.IsLongest.unique {p : Pattern} {other : Place} (h : p.IsLongest here there)
    (h' : p.IsLongest here other) : there = other := by
  rcases h.matching.exists_reading with ⟨front, hreading⟩
  rcases h'.matching.exists_reading with ⟨front', hreading'⟩
  have hoffset : there.offset = other.offset :=
    Nat.le_antisymm (h'.longest there h.matching) (h.longest other h'.matching)
  have hpast := hreading.past_eq
  have hpast' := hreading'.past_eq
  have hlen : byteLen front = byteLen front' := by
    rw [hpast, hpast', Place.past_offset, Place.past_offset] at hoffset
    omega
  rcases append_inj_of_byteLen (hreading.rest_eq.symm.trans hreading'.rest_eq) hlen with
    ⟨hfront, hrest⟩
  rw [hpast, hpast', hfront, hrest]

/-- Of two ways to name the first member of a list with a property, both name the same. -/
theorem eq_of_first {α : Type} {p : α → Prop} {a b : α} {as bs as' bs' : List α}
    (h : as ++ a :: bs = as' ++ b :: bs') (ha : ¬p a) (hb : ¬p b) (has : ∀ x ∈ as, p x)
    (has' : ∀ x ∈ as', p x) : a = b := by
  rcases List.append_eq_append_iff.1 h with ⟨m, hm, hrest⟩ | ⟨m, hm, hrest⟩
  · cases m with
    | nil => exact (List.cons.inj hrest).1
    | cons x m =>
      have hx : a ∈ as' := by
        rw [hm, (List.cons.inj hrest).1]
        simp
      exact absurd (has' a hx) ha
  · cases m with
    | nil => exact ((List.cons.inj hrest).1).symm
    | cons x m =>
      have hx : b ∈ as := by
        rw [hm, (List.cons.inj hrest).1]
        simp
      exact absurd (has b hx) hb

theorem ConstantRule.Takes.rest_ne_nil (hmem : rule ∈ constantRules) (h : rule.Takes here there) :
    here.rest ≠ [] := by
  rcases h.longest.matching.exists_reading with ⟨front, hreading⟩
  rw [hreading.rest_eq]
  simp [hreading.ne_nil (consumes_of_mem_constantRules hmem)]

/-- The plain alternation has one result at most. -/
theorem Alternation.unique {tokens tokens' : List Token} (h : Alternation skip here tokens)
    (h' : Alternation skip here tokens') : tokens = tokens' := by
  -- what happens at a place is decided by the rules, so both derivations agree step by step
  induction h generalizing tokens' with
  | done hrest =>
    cases h' with
    | done _ => rfl
    | take hrules _ htakes _ _ =>
      exact absurd hrest (htakes.rest_ne_nil (by rw [hrules]; simp))
    | pass _ hnext _ => simp [Place.next?, hrest] at hnext
  | @take here there rule earlier later front tokens hrules hearlier htakes hfront _ ih =>
    have hmem : rule ∈ constantRules := by
      rw [hrules]
      simp
    cases h' with
    | done hrest => exact absurd hrest (htakes.rest_ne_nil hmem)
    | @take _ there' rule' _ _ front' _ hrules' hearlier' htakes' hfront' htokens' =>
      have hrule : rule = rule' := eq_of_first (hrules.symm.trans hrules') htakes.not_fails
        htakes'.not_fails hearlier hearlier'
      subst hrule
      have hthere : there = there' := htakes.longest.unique htakes'.longest
      subst hthere
      have hfronts : front = front' := List.append_cancel_right (hfront.symm.trans hfront')
      rw [hfronts, ih htokens']
    | pass hnone _ _ => exact absurd (hnone rule hmem) htakes.not_fails
  | pass hnone hnext _ ih =>
    cases h' with
    | done hrest => simp [Place.next?, hrest] at hnext
    | take hrules _ htakes _ _ => exact absurd (hnone _ (by rw [hrules]; simp)) htakes.not_fails
    | pass _ hnext' htokens' =>
      obtain ⟨-, rfl⟩ : _ ∧ _ := by simpa using hnext.symm.trans hnext'
      exact ih htokens'

/-! ## What the rules find -/

/-- Where a rule may start, it matches what its pattern matches. -/
theorem ConstantRule.matchLen?_of_mayStart (h : rule.MayStart here) :
    rule.matchLen? here = rule.pattern.matchLen? here := by
  rw [matchLen?, if_neg]
  rintro ⟨hword, hbefore, hpoint⟩
  rcases h hword with hfalse | hdot
  · rw [hfalse] at hbefore
    cases hbefore
  · exact hpoint hdot

theorem ConstantRule.mayStart_of_matchLen? (h : rule.matchLen? here = some len) :
    rule.MayStart here := by
  intro hword
  unfold matchLen? at h
  split at h
  · cases h
  · rename_i happlies
    by_cases hpoint : here.peek? = some '.'
    · exact Or.inr hpoint
    · exact Or.inl (Bool.eq_false_iff.2 fun hbefore => happlies ⟨hword, hbefore, hpoint⟩)

/-- A rule that matches nothing fails. -/
theorem ConstantRule.fails_of_matchLen? (h : rule.matchLen? here = none) : rule.Fails here := by
  intro hstart there hmatches
  rw [matchLen?_of_mayStart hstart] at h
  have hsome : (rule.pattern.search here fun there => some (there.offset - here.offset)).isSome :=
    Pattern.isSome_search hmatches rfl
  rw [Pattern.matchLen?] at h
  rw [h] at hsome
  cases hsome

/-- A rule that matches takes as many bytes as it says. -/
theorem ConstantRule.exists_takes_of_matchLen? (hmem : rule ∈ constantRules)
    (h : rule.matchLen? here = some len) :
    ∃ there, rule.Takes here there ∧ there.offset = here.offset + len := by
  have hstart := mayStart_of_matchLen? h
  rw [matchLen?_of_mayStart hstart] at h
  rcases (greedy_of_mem hmem).exists_isLongest h with ⟨there, hlongest, hoffset⟩
  exact ⟨there, ⟨hstart, hlongest⟩, hoffset⟩

/-- A rule that finds numbers starts with a digit or a point. -/
theorem digit_or_dot_of_starts (hmem : rule ∈ constantRules) (hkind : rule.kind.isNumber = true)
    (h : rule.pattern.starts c = true) : c.isDigit = true ∨ c = '.' := by
  have hnumber := mem_of_isNumber hmem hkind
  have hdigit : Pattern.digit.starts c = true → c.isDigit = true := holds_digit.1
  have hzero : c = '0' → c.isDigit = true := by
    rintro rfl
    decide
  simp only [List.mem_cons, List.not_mem_nil, or_false] at hnumber
  rcases hnumber with rfl | rfl | rfl | rfl | rfl | rfl
  · exact Or.inl (hzero (by
      simpa [ConstantRule.hex, ConstantRule.radix, Pattern.starts, Pattern.consumes] using h))
  · exact Or.inl (hzero (by
      simpa [ConstantRule.binary, ConstantRule.radix, Pattern.starts, Pattern.consumes] using h))
  · exact Or.inl (hzero (by
      simpa [ConstantRule.octal, Pattern.starts, Pattern.consumes] using h))
  · have hfirst : Pattern.digit.starts c = true ∨ c = '.' := by
      simpa [ConstantRule.float, Pattern.digit, Pattern.within, Pattern.starts, Pattern.consumes]
        using h
    exact hfirst.imp hdigit id
  · exact Or.inl (hdigit (by
      simpa [ConstantRule.floatExponent, Pattern.digit, Pattern.within, Pattern.starts,
        Pattern.consumes] using h))
  · exact Or.inl (hdigit (by
      simpa [ConstantRule.decimal, Pattern.digit, Pattern.within, Pattern.starts,
        Pattern.consumes] using h))

/-- Every rule starts with a character that can start a constant. -/
theorem startsConstant_of_starts (hmem : rule ∈ constantRules)
    (h : rule.pattern.starts c = true) : startsConstant c = true := by
  cases hkind : rule.kind.isNumber with
  | false =>
    rcases starts_of_not_isNumber hmem hkind h with rfl | rfl | rfl | rfl <;> decide
  | true =>
    rcases digit_or_dot_of_starts hmem hkind h with hdigit | rfl
    · simp [startsConstant, hdigit]
    · decide

/-- Where the rules find nothing, each of them fails, also those that were not tried. -/
theorem fails_of_matchConstant (hpeek : here.peek? = some c) (h : matchConstant here = none) :
    ∀ r ∈ constantRules, r.Fails here := by
  intro r hr
  apply ConstantRule.fails_of_matchLen?
  cases hstart : startsConstant c with
  | true =>
    unfold matchConstant at h
    rw [hpeek, Option.any_some, if_pos hstart, List.findSome?_eq_none_iff] at h
    simpa using h r hr
  | false =>
    apply matchLen?_eq_none_of_starts hr hpeek
    -- the rules were not tried, but none of them starts with this character
    by_contra hstarts
    rw [startsConstant_of_starts hr (by simpa using hstarts)] at hstart
    cases hstart

/-- What the rules find is the longest match of the first rule that does not fail. -/
theorem exists_takes_of_matchConstant (h : matchConstant here = some (rule, len)) :
    ∃ earlier later there, constantRules = earlier ++ rule :: later ∧
      (∀ r ∈ earlier, r.Fails here) ∧ rule.Takes here there ∧
      there.offset = here.offset + len := by
  unfold matchConstant at h
  split at h
  · rcases List.findSome?_eq_some_iff.1 h with ⟨earlier, r, later, hrules, hfound, hearlier⟩
    rcases Option.map_eq_some_iff.1 hfound with ⟨n, hlen, hpair⟩
    obtain ⟨rfl, rfl⟩ : r = rule ∧ n = len := by simpa using hpair
    have hmem : r ∈ constantRules := by
      rw [hrules]
      simp
    rcases ConstantRule.exists_takes_of_matchLen? hmem hlen with ⟨there, htakes, hoffset⟩
    refine ⟨earlier, later, there, hrules, ?_, htakes, hoffset⟩
    intro r' hr'
    exact ConstantRule.fails_of_matchLen? (by simpa using hearlier r' hr')
  · cases h

/-- Inside a word no rule may start. -/
theorem fails_inside_word (hpeek : here.peek? = some c) (hc : isIdentChar c = true)
    (hbefore : here.before.any isIdentChar = true) : ∀ r ∈ constantRules, r.Fails here := by
  -- the rules that are tried everywhere start with a quote
  have hquotes : ∀ r ∈ constantRules, r.wordStart = false →
      r ∈ [ConstantRule.string, .char, .emptyChar] := by decide
  intro r hr hstart there hmatches
  cases hword : r.wordStart with
  | true =>
    rcases hstart hword with hfalse | hpoint
    · rw [hfalse] at hbefore
      cases hbefore
    · rw [Option.some.inj (hpeek.symm.trans hpoint)] at hc
      cases hc
  | false =>
    have hstarts := (Pattern.exists_starts_of_mem_ends (consumes_of_mem_constantRules hr)
      (Pattern.mem_ends.2 hmatches)).2
    rcases hstarts with ⟨d, hpeek', hd⟩
    obtain rfl : c = d := Option.some.inj (hpeek.symm.trans hpeek')
    have hquote : c = '"' ∨ c = '\'' := by
      have hmem := hquotes r hr hword
      simp only [List.mem_cons, List.not_mem_nil, or_false] at hmem
      rcases hmem with rfl | rfl | rfl
      · exact Or.inl (by simpa [ConstantRule.string, Pattern.starts, Pattern.consumes] using hd)
      · exact Or.inr (by simpa [ConstantRule.char, Pattern.starts, Pattern.consumes] using hd)
      · exact Or.inr (by simpa [ConstantRule.emptyChar, Pattern.starts, Pattern.consumes] using hd)
    rcases hquote with rfl | rfl <;> cases hc

/-! ## The scan finds it -/

/-- Through the rest of a word, character by character. -/
theorem Alternation.pass_word {front back : Text} {tokens : List Token}
    (hrest : here.rest = front ++ back) (hfront : ∀ c ∈ front, isIdentChar c = true)
    (hbefore : here.before.any isIdentChar = true)
    (htokens : Alternation skip (here.past front back) tokens) : Alternation skip here tokens := by
  induction front generalizing here with
  | nil =>
    rw [List.nil_append] at hrest
    rwa [← hrest, Place.past_nil] at htokens
  | cons c front ih =>
    have hc := hfront c List.mem_cons_self
    have hnext : here.next? = some (c, here.past [c] (front ++ back)) := by
      simp [Place.next?, hrest, Place.past]
    refine .pass (fails_inside_word (Place.peek?_eq_some hrest) hc hbefore) hnext ?_
    apply ih rfl (fun d hd => hfront d (List.mem_cons_of_mem c hd))
    · simpa [Place.past] using hc
    · rwa [Place.past_past]

/-- Where no rule matches, the scan passes what the alternation passes character by character. -/
theorem Alternation.pass_over {c : Char} {t : Text} {tokens : List Token}
    (hrest : here.rest = c :: t) (hmatch : matchConstant here = none)
    (hmove : MovesTo (constantStep skip) here there) (htokens : Alternation skip there tokens) :
    Alternation skip here tokens := by
  have hfails := fails_of_matchConstant (Place.peek?_eq_some hrest) hmatch
  have hnext : here.next? = some (c, here.past [c] t) := by
    simp [Place.next?, hrest, Place.past]
  have hstep : constantStep skip here = here.passOver := constantStep_of_none hmatch
  cases hident : isIdentChar c with
  | true =>
    -- the scan passes the whole word, the alternation its first character and then the others
    have hword : here.rest = (c :: t.takeWhile isIdentChar) ++ t.dropWhile isIdentChar := by
      rw [hrest, List.cons_append, List.takeWhile_append_dropWhile]
    have hthere : there = here.past (c :: t.takeWhile isIdentChar) (t.dropWhile isIdentChar) := by
      apply movesTo_unique hmove (movesTo_past (List.cons_ne_nil _ _) hword _)
      rw [hstep, passOver_word hrest hident, hrest]
      simp [Move.pass, wordLen, hident]
    have hsplit : (here.past [c] t).rest = t.takeWhile isIdentChar ++ t.dropWhile isIdentChar :=
      List.takeWhile_append_dropWhile.symm
    refine .pass hfails hnext (Alternation.pass_word hsplit ?_
      (by simpa [Place.past] using hident) ?_)
    · intro d hd
      exact List.all_eq_true.1 List.all_takeWhile d hd
    · rw [Place.past_past]
      exact hthere ▸ htokens
  | false =>
    have hthere : there = here.past [c] t := by
      apply movesTo_unique hmove (movesTo_past (List.cons_ne_nil _ _) hrest _)
      rw [hstep, passOver_other hrest hident]
      simp [Move.pass]
    exact .pass hfails hnext (hthere ▸ htokens)

/-- Where a rule matches, the scan reports what the alternation takes. -/
theorem exists_reports_of_matchConstant (h : matchConstant here = some (rule, len)) :
    ∃ earlier later there front, constantRules = earlier ++ rule :: later ∧
      (∀ r ∈ earlier, r.Fails here) ∧ rule.Takes here there ∧
      Reports (constantStep skip) here there
        ⟨skip.demoted here.offset rule.kind, front, ⟨here.offset, there.offset⟩⟩ := by
  rcases exists_takes_of_matchConstant h with
    ⟨earlier, later, there, hrules, hearlier, htakes, hoffset⟩
  have hmem : rule ∈ constantRules := by
    rw [hrules]
    simp
  rcases htakes.longest.matching.exists_reading with ⟨front, hreading⟩
  have hstep : constantStep skip here = .report (skip.demoted here.offset rule.kind) len :=
    constantStep_of_match h
  have hlen : byteLen front = len := by
    rw [hreading.past_eq, Place.past_offset] at hoffset
    omega
  have hmove : MovesTo (constantStep skip) here there := by
    rw [hreading.past_eq]
    exact movesTo_past (hreading.ne_nil (consumes_of_mem_constantRules hmem)) hreading.rest_eq
      (by rw [hstep, hlen]; rfl)
  exact ⟨earlier, later, there, front, hrules, hearlier, htakes, hmove, by rw [hstep]; rfl,
    hreading.rest_eq, rfl⟩

/-- The scan for constants reports the tokens of the plain alternation. -/
theorem alternation_scan (skip : SpanSet) (here : Place) :
    Alternation skip here (tokensOf (scan (constantStep skip) here)) := by
  induction here using MovesTo.induction (constantStep skip) with
  | next here ih =>
    cases hrest : here.rest with
    | nil =>
      rw [scan_eq_nil hrest]
      exact .done hrest
    | cons c t =>
      cases hmatch : matchConstant here with
      | none =>
        have hstep : constantStep skip here = here.passOver := constantStep_of_none hmatch
        have hkind : (constantStep skip here).kind = none := by
          cases hident : isIdentChar c with
          | true => rw [hstep, passOver_word hrest hident]; rfl
          | false => rw [hstep, passOver_other hrest hident]; rfl
        rcases Place.CanPass.exists_movesTo (hstep ▸ canPass_passOver hrest) with ⟨there, hmove⟩
        rw [tokensOf_scan_of_silent hmove hkind]
        exact Alternation.pass_over hrest hmatch hmove (ih there hmove)
      | some pair =>
        obtain ⟨rule, len⟩ := pair
        rcases exists_reports_of_matchConstant hmatch with
          ⟨earlier, later, there, front, hrules, hearlier, htakes, hreports⟩
        rw [tokensOf_scan_of_reports hreports]
        exact .take hrules hearlier htakes hreports.rest_eq (ih there hreports.moves)

/-- The sweep for constants gives the tokens of the plain alternation and leaves the text as it
is. -/
theorem exists_alternation (text : Text) (skip : SpanSet) :
    ∃ tokens, tagConstants text skip = .ok (Sweep.inPlace text tokens) ∧
      ∀ other, Alternation skip (Place.start text) other ↔ other = tokens := by
  refine ⟨_, ofScan_eq_ok (advances_constantStep text skip), ?_⟩
  intro other
  have hscan := alternation_scan skip (Place.start text)
  constructor
  · intro h
    exact h.unique hscan
  · rintro rfl
    exact hscan

end Strata
