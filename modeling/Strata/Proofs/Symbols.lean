import Strata.Proofs.Progress
import Strata.Proofs.Words

/-!
# Where symbols and constants of C++ meet

The scan for symbols of C++ keeps up with the scan for constants as long as no `...` is directly
followed by a digit: there the scan for constants finds a number that starts with the last point,
and the scan for symbols has taken the three points at once. So symbols share bytes with constants
exactly if there is such a `...` among them.

* `InStep.symbolStep`: what a move of the scan for symbols preserves;
* `exists_overlap_iff`: the sweeps for constants and symbols over one text.
-/

namespace Strata

variable {skip ranges : SpanSet} {table : SymbolTable} {here there : Place} {text : Text} {c : Char}
  {t : Text}

/-! ## The moves of the scan for symbols -/

/-- The moves of a scan for symbols outside what it steps over, told apart by what is ahead. -/
inductive SymbolMove (skip : SpanSet) (table : SymbolTable) (here : Place) (c : Char) : Prop
  | layout (hlayout : isLayout c = true) (hmove : symbolStep skip table here = .pass 1)
  | number {len : Nat} (hnumber : numberLen? here = some len)
      (hmove : symbolStep skip table here = .pass len)
  | word (hident : isIdentChar c = true) (hnumber : numberLen? here = none)
      (hmove : symbolStep skip table here = .pass (wordLen here.rest))
  | symbol {entry : SymbolEntry} (hnumber : numberLen? here = none)
      (hmatch : table.longestMatch here.rest = some entry)
      (hmove : symbolStep skip table here = .report entry.cls.kind (byteLen entry.text))
  | unknown (hident : isIdentChar c = false) (hnumber : numberLen? here = none)
      (hmove : symbolStep skip table here = .report .unknown c.utf8Size)

/-- What the scan for symbols does at a character outside the literals. -/
theorem symbolStep_cases (hskip : skip.spanAt? here.offset = none) (hhead : here.rest = c :: t) :
    SymbolMove skip table here c := by
  cases hlayout : isLayout c with
  | true => exact .layout hlayout (by simp [symbolStep, hskip, hhead, hlayout])
  | false =>
    cases hnumber : numberLen? here with
    | some len => exact .number hnumber (by simp [symbolStep, hskip, hhead, hlayout, hnumber])
    | none =>
      cases hident : isIdentChar c with
      | true =>
        exact .word hident hnumber (by simp [symbolStep, hskip, hhead, hlayout, hnumber, hident])
      | false =>
        cases hmatch : table.longestMatch here.rest with
        | some entry =>
          refine .symbol hnumber hmatch ?_
          rw [hhead] at hmatch
          simp [symbolStep, hskip, hhead, hlayout, hnumber, hident, hmatch]
        | none =>
          refine .unknown hident hnumber ?_
          rw [hhead] at hmatch
          simp [symbolStep, hskip, hhead, hlayout, hnumber, hident, hmatch]

/-- A literal is passed up to its end. -/
theorem symbolStep_skip (table : SymbolTable) {s : Span}
    (hskip : skip.spanAt? here.offset = some s) :
    symbolStep skip table here = .pass (s.stop - here.offset) := by
  unfold symbolStep
  rw [hskip]

/-! ## The symbols of C++ -/

/-- The symbols of C++ hold no characters of words and no quotes, and a point behind the first
character only in `...`. -/
theorem apart_of_mem_cpp {e : SymbolEntry} (h : e ∈ SymbolTable.cpp.entries) :
    (∀ c ∈ e.text, isIdentChar c = false ∧ c ≠ '"' ∧ c ≠ '\'') ∧
      ('.' ∈ e.text.tail → e.text = ['.', '.', '.']) := by
  have hall : (SymbolTable.cpp.entries.all fun e =>
      (e.text.all fun c => !isIdentChar c && (c ≠ '"' && c ≠ '\'')) &&
        (!e.text.tail.contains '.' || e.text = ['.', '.', '.'])) = true := by decide +kernel
  have he := List.all_eq_true.1 hall e h
  simp only [Bool.and_eq_true, Bool.or_eq_true, List.all_eq_true, decide_eq_true_eq,
    Bool.not_eq_true'] at he
  refine ⟨he.1, fun hpoint => he.2.resolve_left ?_⟩
  rw [List.contains_iff_mem.2 hpoint]
  simp

/-! ## Bytes that no constant holds -/

/-- The scan for constants goes over the byte without reporting a constant. -/
def Unclaimed (ranges : SpanSet) (text : Text) (offset : Nat) : Prop :=
  ∃ p p', Visits (constantStep ranges) (Place.start text) p ∧
    MovesTo (constantStep ranges) p p' ∧ (p.offset ≤ offset ∧ offset < p'.offset) ∧
    ∀ kind, (constantStep ranges p).kind = some kind → kind.isConstant = false

theorem Unclaimed.apart {k : Token} {offset : Nat} (h : Unclaimed ranges text offset)
    (hk : k ∈ tokensOf (scan (constantStep ranges) (Place.start text)))
    (hconstant : k.kind.isConstant = true) : k.span.contains offset = false := by
  by_contra hcontains
  rcases h with ⟨p, p', hp, hpm, hcovers, hkind⟩
  rcases mem_tokensOf_scan.1 hk with ⟨q, q', hq, hreports⟩
  rw [Bool.not_eq_false, hreports.span_eq, Span.contains_eq_true] at hcontains
  have heq : p = q := Visits.eq_of_covers (Place.isIn_start text) hp hq hpm hreports.moves hcovers
    hcontains
  rw [heq] at hkind
  rw [hkind k.kind hreports.kind_eq] at hconstant
  cases hconstant

/-- A quote outside the literals belongs to no constant. -/
theorem InStep.unclaimed_quote (h : InStep ranges text here)
    (houtside : (Literals.ofText text).all.contains here.offset = false)
    (hhead : here.rest = c :: t) (hquote : c = '"' ∨ c = '\'') :
    Unclaimed ranges text here.offset := by
  cases h with
  | same h =>
    rcases advances_constantStep text ranges here (h.isIn (Place.isIn_start text))
      (by simp [hhead]) with ⟨there, hmove⟩
    refine ⟨here, there, h, hmove, ⟨Nat.le_refl _, hmove.offset_lt⟩, ?_⟩
    intro kind hkind
    rcases constantStep_quote hhead hquote (quotedLen?_eq_none_of_visits h houtside) with
      ⟨rfl, t', rfl⟩ | hstep
    · rw [(movesTo_emptyPair ranges hhead).2] at hkind
      rw [← Option.some.inj hkind]
      rfl
    · rw [hstep] at hkind
      cases hkind
  | @paired p t' hp hrest hhere =>
    have hpair := movesTo_emptyPair ranges hrest
    have hone : byteLen ['\''] = 1 := rfl
    have htwo : byteLen ['\'', '\''] = 2 := rfl
    refine ⟨p, _, hp, hpair.1, ?_, ?_⟩
    · rw [hhere, Place.past_offset, Place.past_offset, hone, htwo]
      omega
    · intro kind hkind
      rw [hpair.2] at hkind
      rw [← Option.some.inj hkind]
      rfl

/-- Characters that start no constant and are in no word are gone over one by one. -/
theorem unclaimed_of_others {front back : Text}
    (h : Visits (constantStep ranges) (Place.start text) here) (hrest : here.rest = front ++ back)
    (hfront : ∀ c ∈ front, isIdentChar c = false ∧ c ≠ '"' ∧ c ≠ '\'')
    (hnumber : ∀ a b, front = a ++ b → b ≠ [] → numberLen? (here.past a (b ++ back)) = none) :
    Visits (constantStep ranges) (Place.start text) (here.past front back) ∧
      ∀ o, here.offset ≤ o → o < here.offset + byteLen front → Unclaimed ranges text o := by
  -- each step passes one character, and what is behind it stands as before
  induction front generalizing here with
  | nil =>
    rw [List.nil_append] at hrest
    rw [← hrest, Place.past_nil]
    refine ⟨h, ?_⟩
    intro o hle hlt
    rw [byteLen_nil] at hlt
    omega
  | cons c front ih =>
    have hc := hfront c List.mem_cons_self
    have hnone : numberLen? here = none := by
      have := hnumber [] (c :: front) rfl (List.cons_ne_nil c front)
      rwa [← hrest, Place.past_nil] at this
    have hstep : constantStep ranges here = .pass c.utf8Size :=
      constantStep_other hrest hc.1 hc.2.1 hc.2.2 hnone
    have hmove : MovesTo (constantStep ranges) here (here.past [c] (front ++ back)) :=
      movesTo_past (by simp) hrest (by rw [hstep]; simp [Move.pass])
    have hrests : ∀ a b, front = a ++ b → b ≠ [] →
        numberLen? ((here.past [c] (front ++ back)).past a (b ++ back)) = none := by
      intro a b hab hb
      rw [Place.past_past]
      exact hnumber (c :: a) b (by rw [hab]; rfl) hb
    have hlater := ih (h.tail hmove) rfl (fun d hd => hfront d (List.mem_cons_of_mem c hd)) hrests
    rw [Place.past_past] at hlater
    refine ⟨hlater.1, ?_⟩
    intro o hle hlt
    by_cases hfirst : o < here.offset + c.utf8Size
    · refine ⟨here, _, h, hmove, ⟨hle, by simpa using hfirst⟩, ?_⟩
      intro kind hkind
      rw [hstep] at hkind
      cases hkind
    · apply hlater.2 o
      · simpa using Nat.le_of_not_lt hfirst
      · simpa [Nat.add_assoc] using hlt

/-! ## The two scans side by side -/

/-- Inside a symbol of C++ starts no number, unless it is the last point of `...`. -/
theorem numberLen?_inside_symbol {e : SymbolEntry} {back : Text}
    (he : e ∈ SymbolTable.cpp.entries) (hrest : here.rest = e.text ++ back)
    (hfirst : numberLen? here = none)
    (hpoints : e.text = ['.', '.', '.'] → back.head?.any Char.isDigit = false) :
    ∀ a b, e.text = a ++ b → b ≠ [] → numberLen? (here.past a (b ++ back)) = none := by
  intro a b hab hb
  rcases List.exists_cons_of_ne_nil hb with ⟨c, b, rfl⟩
  rcases apart_of_mem_cpp he with ⟨hchars, htail⟩
  cases a with
  | nil =>
    rw [List.nil_append] at hab
    rw [← hab, ← hrest, Place.past_nil]
    exact hfirst
  | cons x a =>
    have hc := hchars c (by rw [hab]; simp)
    by_cases hdot : c = '.'
    · -- the symbol is `...`, and behind this point stands another or no digit
      subst hdot
      have hellipsis := htail (by rw [hab]; simp)
      refine numberLen?_dot (t := b ++ back) rfl ?_
      intro d hd
      cases b with
      | nil =>
        have := hpoints hellipsis
        rw [List.nil_append] at hd
        rw [Option.mem_def.1 hd] at this
        exact this
      | cons y b =>
        have hy : y ∈ e.text := by rw [hab]; simp
        have hyd : y = d := by simpa using hd
        rw [hellipsis] at hy
        have : y = '.' := by simpa using hy
        rw [← hyd, this]
        decide
    · have hdigit : c.isDigit = false := by
        have := hc.1
        simp only [isIdentChar, Char.isAlphanum, Bool.or_eq_false_iff] at this
        exact this.1.2
      exact numberLen?_eq_none (c := c) rfl hdigit hdot

/-- The move takes three points that a digit follows. -/
def TakesPoints (step : Place → Move) (here there : Place) : Prop :=
  here.rest = '.' :: '.' :: '.' :: there.rest ∧ (step here).kind.isSome = true ∧
    there.rest.head?.any Char.isDigit = true

theorem TakesPoints.exists_reports {step : Place → Move} (h : TakesPoints step here there)
    (hmove : MovesTo step here there) : ∃ token, Reports step here there token := by
  rcases tokensOf_scan_of_movesTo hmove with ⟨hkind, -⟩ | ⟨token, hreports, -⟩
  · rw [TakesPoints, hkind] at h
    cases h.2.1
  · exact ⟨token, hreports⟩

theorem TakesPoints.offset_eq {step : Place → Move} (h : TakesPoints step here there)
    (hin : here.IsIn text) (hmove : MovesTo step here there) :
    there.offset = here.offset + 3 := by
  rcases hin.exists_past (hmove.isIn hin) (Nat.le_of_lt hmove.offset_lt) with
    ⟨front, hfront, hpast⟩
  have hpoints : front = ['.', '.', '.'] := List.append_cancel_right (hfront.symm.trans h.1)
  rw [hpast, Place.past_offset, hpoints]
  rfl

/-- At a quote outside the literals, the scan for symbols takes an unknown character. -/
theorem symbolStep_quote (hskip : skip.spanAt? here.offset = none) (hhead : here.rest = c :: t)
    (hquote : c = '"' ∨ c = '\'') : symbolStep skip .cpp here = .report .unknown 1 := by
  have hcases : SymbolMove skip .cpp here c := symbolStep_cases hskip hhead
  cases hcases with
  | layout hlayout _ =>
    rcases hquote with rfl | rfl <;> cases hlayout
  | number hnumber _ =>
    rcases digit_or_dot_of_numberLen? hhead hnumber with h | h
    · rcases hquote with rfl | rfl <;> cases h
    · rcases hquote with rfl | rfl <;> cases h
  | word hident _ _ =>
    rcases hquote with rfl | rfl <;> cases hident
  | @symbol e _ hmatch _ =>
    rcases SymbolTable.longestMatch_eq_some hmatch with ⟨hmem, back, hback⟩
    rcases List.exists_cons_of_ne_nil (SymbolTable.mem_ofList hmem).2 with ⟨d, text, hd⟩
    have hdc : d = c := by
      rw [hd] at hback
      exact Place.head_unique hback hhead
    have hchars := (apart_of_mem_cpp hmem).1 d (by rw [hd]; exact List.mem_cons_self)
    rw [hdc] at hchars
    rcases hquote with rfl | rfl
    · exact absurd rfl hchars.2.1
    · exact absurd rfl hchars.2.2
  | unknown _ _ hstep =>
    rw [hstep]
    rcases hquote with rfl | rfl <;> rfl

/-- Layout starts no constant and is in no word. -/
theorem apart_of_isLayout (h : isLayout c = true) :
    isIdentChar c = false ∧ c.isDigit = false ∧ c ≠ '.' ∧ c.utf8Size = 1 := by
  rcases eq_of_isLayout h with rfl | rfl | rfl | rfl | rfl <;> decide

/-- Away from quotes and literals, the scan for constants keeps up with every move that takes no
three points before a digit, and reports no constant where a symbol is reported. -/
theorem visits_of_symbolStep (hskip : skip.spanAt? here.offset = none)
    (h : Visits (constantStep ranges) (Place.start text) here) (hhead : here.rest = c :: t)
    (hdouble : c ≠ '"') (hsingle : c ≠ '\'')
    (hmove : MovesTo (symbolStep skip .cpp) here there)
    (hpoints : ¬TakesPoints (symbolStep skip .cpp) here there) :
    Visits (constantStep ranges) (Place.start text) there ∧
      ((symbolStep skip .cpp here).kind.isSome = true →
        ∀ o, here.offset ≤ o → o < there.offset → Unclaimed ranges text o) := by
  have hpeek : here.peek? = some c := Place.peek?_eq_some hhead
  have hcases : SymbolMove skip .cpp here c := symbolStep_cases hskip hhead
  cases hcases with
  | layout hlayout hstep =>
    rcases apart_of_isLayout hlayout with ⟨hident, hdigit, hdot, hsize⟩
    have hother : constantStep ranges here = .pass c.utf8Size :=
      constantStep_other hhead hident hdouble hsingle (numberLen?_eq_none hpeek hdigit hdot)
    refine ⟨h.tail (hmove.of_len_eq (by rw [hother, hstep, hsize])), ?_⟩
    intro hkind
    rw [hstep] at hkind
    cases hkind
  | number hnumber hstep =>
    refine ⟨h.tail (hmove.of_len_eq ?_), ?_⟩
    · rw [len_constantStep_number hnumber, hstep]
      rfl
    · intro hkind
      rw [hstep] at hkind
      cases hkind
  | word hident hnumber hstep =>
    refine ⟨h.tail (hmove.of_len_eq ?_), ?_⟩
    · rw [len_constantStep_word hhead hident hnumber, hstep]
      rfl
    · intro hkind
      rw [hstep] at hkind
      cases hkind
  | @symbol e hnumber hmatch hstep =>
    rcases SymbolTable.longestMatch_eq_some hmatch with ⟨hmem, back, hback⟩
    have hthere : there = here.past e.text back := by
      apply movesTo_unique hmove
      exact movesTo_past (SymbolTable.mem_ofList hmem).2 hback (by rw [hstep]; rfl)
    -- the move would take three points that a digit follows
    have hafter : e.text = ['.', '.', '.'] → back.head?.any Char.isDigit = false := by
      intro hellipsis
      by_contra hdigit
      rw [Bool.not_eq_false] at hdigit
      apply hpoints
      rw [hthere]
      refine ⟨?_, by rw [hstep]; rfl, hdigit⟩
      rw [hback, hellipsis]
      rfl
    have hothers := unclaimed_of_others h hback (apart_of_mem_cpp hmem).1
      (numberLen?_inside_symbol hmem hback hnumber hafter)
    rw [hthere]
    exact ⟨hothers.1, fun _ => hothers.2⟩
  | unknown hident hnumber hstep =>
    have hother : constantStep ranges here = .pass c.utf8Size :=
      constantStep_other hhead hident hdouble hsingle hnumber
    have hsame : MovesTo (constantStep ranges) here there :=
      hmove.of_len_eq (by rw [hother, hstep]; rfl)
    refine ⟨h.tail hsame, fun _ o hle hlt => ⟨here, there, h, hsame, ⟨hle, hlt⟩, ?_⟩⟩
    intro kind hkind
    rw [hother] at hkind
    cases hkind

/-- Every move of the scan for symbols keeps up with the scan for constants and reports nothing that
a constant holds, unless it takes three points that a digit follows. -/
theorem InStep.symbolStep (h : InStep ranges text here)
    (hmove : MovesTo (symbolStep (Literals.ofText text).all .cpp) here there)
    (hpoints : ¬TakesPoints (symbolStep (Literals.ofText text).all .cpp) here there) :
    InStep ranges text there ∧
      ((symbolStep (Literals.ofText text).all .cpp here).kind.isSome = true →
        ∀ o, here.offset ≤ o → o < there.offset → Unclaimed ranges text o) := by
  cases hskip : (Literals.ofText text).all.spanAt? here.offset with
  | some s =>
    have hstep := symbolStep_skip .cpp hskip
    refine ⟨h.of_spanAt? hskip hmove (by rw [hstep]; rfl), ?_⟩
    intro hkind
    rw [hstep] at hkind
    cases hkind
  | none =>
    have houtside := SpanSet.spanAt?_eq_none.1 hskip
    rcases hmove.exists_head with ⟨c, t, hhead⟩
    by_cases hquote : c = '"' ∨ c = '\''
    · have hstep := symbolStep_quote hskip hhead hquote
      refine ⟨h.of_quote houtside hhead hquote hmove (by rw [hstep]; rfl), ?_⟩
      intro _ o hle hlt
      have hoffset := hmove.offset_eq
      rw [hstep] at hoffset
      have ho : o = here.offset := by
        have : there.offset = here.offset + 1 := hoffset
        omega
      rw [ho]
      exact h.unclaimed_quote houtside hhead hquote
    · rw [not_or] at hquote
      have hvisits := h.visits hhead hquote.2
      have hlater := visits_of_symbolStep hskip hvisits hhead hquote.1 hquote.2 hmove hpoints
      exact ⟨.same hlater.1, hlater.2⟩

/-- The scan for symbols keeps up with the scan for constants up to the first three points that a
digit follows. -/
theorem inStep_or_takesPoints (ranges : SpanSet)
    (h : Visits (symbolStep (Literals.ofText text).all .cpp) (Place.start text) here) :
    InStep ranges text here ∨
      ∃ p p', Visits (symbolStep (Literals.ofText text).all .cpp) (Place.start text) p ∧
        MovesTo (symbolStep (Literals.ofText text).all .cpp) p p' ∧ InStep ranges text p ∧
        TakesPoints (symbolStep (Literals.ofText text).all .cpp) p p' ∧
        p'.offset ≤ here.offset := by
  induction h with
  | refl => exact Or.inl inStep_start
  | @tail q q' hvisits hmove ih =>
    rcases ih with hstep | ⟨p, p', hp, hpm, hpstep, hpoints, hle⟩
    · by_cases hpoints : TakesPoints (symbolStep (Literals.ofText text).all .cpp) q q'
      · exact Or.inr ⟨q, q', hvisits, hmove, hstep, hpoints, Nat.le_refl _⟩
      · exact Or.inl (hstep.symbolStep hmove hpoints).1
    · have hlt := hmove.offset_lt
      exact Or.inr ⟨p, p', hp, hpm, hpstep, hpoints, by omega⟩

/-! ## Symbols that share bytes with constants -/

/-- The token is three points that a digit follows. -/
def IsEllipsisBeforeDigit (text : Text) (t : Token) : Prop :=
  t.lexeme = ['.', '.', '.'] ∧
    ∃ front d back, text = front ++ t.lexeme ++ d :: back ∧ byteLen front = t.span.start ∧
      d.isDigit = true

/-- Three points that a digit follows, as a token and as a move. -/
theorem Reports.isEllipsisBeforeDigit_iff {step : Place → Move} {token : Token}
    (h : Reports step here there token) (hin : here.IsIn text) :
    IsEllipsisBeforeDigit text token ↔ TakesPoints step here there := by
  have hin' := hin
  rcases hin with ⟨read, htext, hoffset, -⟩
  have hstart : token.span.start = byteLen read := by rw [h.span_eq, ← hoffset]
  rw [h.rest_eq] at htext
  constructor
  · rintro ⟨hlexeme, front, d, back, hfront, hlen, hdigit⟩
    have hrest : token.lexeme ++ there.rest = token.lexeme ++ d :: back := by
      rw [List.append_assoc] at hfront
      exact (append_inj_of_byteLen (htext.symm.trans hfront) (hstart.symm.trans hlen.symm)).2
    have hback : there.rest = d :: back := List.append_cancel_left hrest
    refine ⟨?_, by rw [h.kind_eq]; rfl, by rw [hback]; exact hdigit⟩
    rw [h.rest_eq, hlexeme]
    rfl
  · rintro ⟨hpoints, -, hdigit⟩
    have hlexeme : token.lexeme = ['.', '.', '.'] := by
      exact List.append_cancel_right (h.rest_eq.symm.trans hpoints)
    cases hback : there.rest with
    | nil =>
      rw [hback] at hdigit
      cases hdigit
    | cons d back =>
      rw [hback] at hdigit htext
      exact ⟨hlexeme, read, d, back, by rw [htext, List.append_assoc], hstart.symm, hdigit⟩

/-- Some token is three points that a digit follows exactly if some move takes them. -/
theorem exists_isEllipsisBeforeDigit_iff {step : Place → Move} :
    (∃ t ∈ tokensOf (scan step (Place.start text)), IsEllipsisBeforeDigit text t) ↔
      ∃ p p', Visits step (Place.start text) p ∧ MovesTo step p p' ∧ TakesPoints step p p' := by
  constructor
  · rintro ⟨t, ht, hellipsis⟩
    rcases mem_tokensOf_scan.1 ht with ⟨p, p', hp, hreports⟩
    have hin : p.IsIn text := hp.isIn (Place.isIn_start text)
    exact ⟨p, p', hp, hreports.moves, (hreports.isEllipsisBeforeDigit_iff hin).1 hellipsis⟩
  · rintro ⟨p, p', hp, hmove, hpoints⟩
    rcases hpoints.exists_reports hmove with ⟨t, hreports⟩
    have hin : p.IsIn text := hp.isIn (Place.isIn_start text)
    exact ⟨t, mem_tokensOf_scan.2 ⟨p, p', hp, hreports⟩,
      (hreports.isEllipsisBeforeDigit_iff hin).2 hpoints⟩

/-- The scan for constants goes over a point before a point alone. -/
theorem visits_past_point (h : Visits (constantStep ranges) (Place.start text) here)
    (hrest : here.rest = '.' :: '.' :: t) :
    Visits (constantStep ranges) (Place.start text) (here.past ['.'] ('.' :: t)) := by
  have hnumber : numberLen? here = none := by
    refine numberLen?_dot hrest ?_
    intro d hd
    obtain rfl : '.' = d := by simpa using hd
    decide
  have hstep : constantStep ranges here = .pass '.'.utf8Size :=
    constantStep_other hrest (by decide) (by decide) (by decide) hnumber
  exact h.tail (movesTo_past (by simp) hrest (by rw [hstep]; rfl))

/-- Three points that a digit follows share their last byte with a number. -/
theorem exists_number_of_takesPoints (h : InStep (Literals.ofText text).ranges text here)
    (hpoints : TakesPoints (symbolStep skip table) here there) :
    ∃ k ∈ tokensOf (scan (constantStep (Literals.ofText text).ranges) (Place.start text)),
      k.kind.isConstant = true ∧ k.span.contains (here.offset + 2) = true := by
  rcases hpoints with ⟨hrest, -, hdigit⟩
  have hfirst := h.visits hrest (by decide)
  have hlast : Visits (constantStep (Literals.ofText text).ranges) (Place.start text)
      (here.past ['.', '.'] ('.' :: there.rest)) := by
    have htwice := visits_past_point (visits_past_point hfirst hrest) rfl
    rwa [Place.past_past] at htwice
  -- the number starts with the last point
  have hnumber : (numberLen? (here.past ['.', '.'] ('.' :: there.rest))).isSome = true := by
    cases hback : there.rest with
    | nil =>
      rw [hback] at hdigit
      cases hdigit
    | cons d back =>
      rw [hback] at hdigit
      exact isSome_numberLen?_dot rfl hdigit
  rcases Option.isSome_iff_exists.1 hnumber with ⟨len, hlen⟩
  rcases exists_number_of_visits hlast hlen with ⟨k, hk, hkind, hspan⟩
  refine ⟨k, hk, by simp [Kind.isConstant, hkind], ?_⟩
  have hpos : 0 < len := by
    rcases canPass_of_numberLen? hlen with ⟨front, _, hne, -, hfrontLen⟩
    have := byteLen_pos hne
    omega
  have htwo : byteLen ['.', '.'] = 2 := rfl
  rw [hspan, Span.contains_eq_true, Place.past_offset, htwo]
  constructor
  · exact Nat.le_refl _
  · show here.offset + 2 < here.offset + 2 + len
    omega

/-- Where no move takes three points that a digit follows, symbols keep apart from constants. -/
theorem overlaps_eq_false_of_not_takesPoints {t k : Token}
    (hnone : ∀ p p', Visits (symbolStep (Literals.ofText text).all .cpp) (Place.start text) p →
      MovesTo (symbolStep (Literals.ofText text).all .cpp) p p' →
      ¬TakesPoints (symbolStep (Literals.ofText text).all .cpp) p p')
    (ht : t ∈ tokensOf (scan (symbolStep (Literals.ofText text).all .cpp) (Place.start text)))
    (hk : k ∈ tokensOf (scan (constantStep ranges) (Place.start text)))
    (hconstant : k.kind.isConstant = true) : t.span.overlaps k.span = false := by
  by_contra hoverlaps
  rcases mem_tokensOf_scan.1 ht with ⟨p, p', hp, hreports⟩
  have hstep : InStep ranges text p := by
    rcases inStep_or_takesPoints ranges hp with h | ⟨q, q', hq, hqm, -, htakes, -⟩
    · exact h
    · exact absurd htakes (hnone q q' hq hqm)
  have hunclaimed := (hstep.symbolStep hreports.moves (hnone p p' hp hreports.moves)).2
    (by rw [hreports.kind_eq]; rfl)
  -- the later of the two starts is a byte that both tokens hold
  simp only [Bool.not_eq_false, Span.overlaps, hreports.span_eq, Bool.and_eq_true,
    decide_eq_true_eq] at hoverlaps
  have hlt := hreports.moves.offset_lt
  have hklt : k.span.start < k.span.stop := by
    rcases mem_tokensOf_scan.1 hk with ⟨q, q', -, hq⟩
    rw [hq.span_eq]
    exact hq.moves.offset_lt
  have hbyte := hunclaimed (max p.offset k.span.start) (by omega) (by omega)
  have hapart := hbyte.apart hk hconstant
  rw [Span.contains_eq_true.2 ⟨by omega, by omega⟩] at hapart
  cases hapart

/-- Three points that a digit follows are a symbol that shares its last byte with a number. -/
theorem exists_overlaps_of_takesPoints (h : InStep (Literals.ofText text).ranges text here)
    (hvisits : Visits (symbolStep skip table) (Place.start text) here)
    (hmove : MovesTo (symbolStep skip table) here there)
    (hpoints : TakesPoints (symbolStep skip table) here there) :
    ∃ t ∈ tokensOf (scan (symbolStep skip table) (Place.start text)),
      ∃ k ∈ tokensOf (scan (constantStep (Literals.ofText text).ranges) (Place.start text)),
        k.kind.isConstant = true ∧ t.span.overlaps k.span = true := by
  rcases hpoints.exists_reports hmove with ⟨t, hreports⟩
  rcases exists_number_of_takesPoints h hpoints with ⟨k, hk, hconstant, hcontains⟩
  refine ⟨t, mem_tokensOf_scan.2 ⟨here, there, hvisits, hreports⟩, k, hk, hconstant, ?_⟩
  have hin : here.IsIn text := hvisits.isIn (Place.isIn_start text)
  have hstop : there.offset = here.offset + 3 := hpoints.offset_eq hin hmove
  rw [Span.contains_eq_true] at hcontains
  simp only [Span.overlaps, hreports.span_eq, Bool.and_eq_true, decide_eq_true_eq]
  omega

/-- The sweep for symbols of C++ takes a byte of a constant exactly if it takes three points that a
digit follows. -/
theorem exists_overlap_iff (text : Text) :
    ∃ constants symbols, tagConstants text (Literals.ofText text).ranges = .ok constants ∧
      tagSymbols text (Literals.ofText text).all .cpp = .ok symbols ∧
      ((∃ t ∈ symbols.tokens, ∃ k ∈ constants.tokens, k.kind.isConstant = true ∧
          t.span.overlaps k.span = true) ↔
        ∃ t ∈ symbols.tokens, IsEllipsisBeforeDigit text t) := by
  refine ⟨_, _, ofScan_eq_ok (advances_constantStep text _),
    ofScan_eq_ok (advances_symbolStep _ (endsIn_literals text)), ?_⟩
  constructor
  · rintro ⟨t, ht, k, hk, hconstant, hoverlaps⟩
    by_contra hnone
    have hapart := overlaps_eq_false_of_not_takesPoints (fun p p' hp hmove htakes =>
      hnone (exists_isEllipsisBeforeDigit_iff.2 ⟨p, p', hp, hmove, htakes⟩)) ht hk hconstant
    rw [hoverlaps] at hapart
    cases hapart
  · intro hellipsis
    rcases exists_isEllipsisBeforeDigit_iff.1 hellipsis with ⟨p, p', hp, hmove, htakes⟩
    -- only the first such move is sure to be reached in step
    rcases inStep_or_takesPoints (Literals.ofText text).ranges hp with
      hstep | ⟨q, q', hq, hqm, hstep, hqtakes, -⟩
    · exact exists_overlaps_of_takesPoints hstep hp hmove htakes
    · exact exists_overlaps_of_takesPoints hstep hq hqm hqtakes

/-- Reading a source of C++ to the end, constants and symbols are swept from one text. -/
theorem exists_run_sweeps (source : Text) : ∃ passages final constants symbols,
    (Progress.start source .cpp).runRemaining = .ok (passages, final) ∧
    passages.find? (fun r => r.layer = .constants) = some constants ∧
    passages.find? (fun r => r.layer = .symbols) = some symbols ∧
    symbols.input = textAt source .condensed ∧
    tagConstants (textAt source .condensed) (Literals.ofText (textAt source .condensed)).ranges =
      .ok constants.sweep ∧
    tagSymbols (textAt source .condensed) (Literals.ofText (textAt source .condensed)).all .cpp =
      .ok symbols.sweep := by
  have hprofile : Profile.cpp.IsBuilt := ⟨_, rfl⟩
  rcases exists_runRemaining source hprofile with ⟨passages, final, hrun, -, hsteps⟩
  have hconstants : Layer.condensed.next? = some .constants := rfl
  have hsymbols : Layer.identifiers.next? = some .symbols := rfl
  rcases hsteps.exists_find hconstants (by decide) with ⟨constants, hcfind, -, hcsweep⟩
  rcases hsteps.exists_find hsymbols (by decide) with ⟨symbols, hsfind, hstext, hssweep⟩
  exact ⟨passages, final, constants, symbols, hrun, hcfind, hsfind, hstext, hcsweep, hssweep⟩

/-- Reading a source of C++ to the end, some token of the last layer takes a byte of a constant
exactly if one of them is `...` before a digit. -/
theorem exists_run_overlap_iff (source : Text) : ∃ passages final constants symbols,
    (Progress.start source .cpp).runRemaining = .ok (passages, final) ∧
    passages.find? (fun r => r.layer = .constants) = some constants ∧
    passages.find? (fun r => r.layer = .symbols) = some symbols ∧
    ((∃ t ∈ symbols.sweep.tokens, ∃ k ∈ constants.sweep.tokens, k.kind.isConstant = true ∧
        t.span.overlaps k.span = true) ↔
      ∃ t ∈ symbols.sweep.tokens, IsEllipsisBeforeDigit symbols.input t) := by
  rcases exists_run_sweeps source with
    ⟨passages, final, constants, symbols, hrun, hcfind, hsfind, htext, hcsweep, hssweep⟩
  rcases exists_overlap_iff (textAt source .condensed) with ⟨c, s, hcok, hsok, hiff⟩
  obtain rfl : c = constants.sweep := Except.ok.inj (hcok.symm.trans hcsweep)
  obtain rfl : s = symbols.sweep := Except.ok.inj (hsok.symm.trans hssweep)
  refine ⟨passages, final, constants, symbols, hrun, hcfind, hsfind, ?_⟩
  rw [htext]
  exact hiff

/-- Three points before a digit: the number starts with the third. -/
theorem run_overlap_points : ∃ passages final constants symbols,
    (Progress.start ['.', '.', '.', '5'] .cpp).runRemaining = .ok (passages, final) ∧
    passages.find? (fun r => r.layer = .constants) = some constants ∧
    passages.find? (fun r => r.layer = .symbols) = some symbols ∧
    ∃ t ∈ symbols.sweep.tokens, ∃ k ∈ constants.sweep.tokens, k.kind.isConstant = true ∧
      t.span.overlaps k.span = true := by
  rcases exists_run_sweeps ['.', '.', '.', '5'] with
    ⟨passages, final, constants, symbols, hrun, hcfind, hsfind, -, hcsweep, hssweep⟩
  have htext : textAt ['.', '.', '.', '5'] .condensed = ['.', '.', '.', '5'] := by decide +kernel
  rw [htext] at hcsweep hssweep
  have hc : (tagConstants ['.', '.', '.', '5']
      (Literals.ofText ['.', '.', '.', '5']).ranges).toOption.map (·.tokens) =
        some [⟨.float, ['.', '5'], ⟨2, 4⟩⟩] := by decide +kernel
  have hs : (tagSymbols ['.', '.', '.', '5']
      (Literals.ofText ['.', '.', '.', '5']).all .cpp).toOption.map (·.tokens) =
        some [⟨.punctuator, ['.', '.', '.'], ⟨0, 3⟩⟩] := by decide +kernel
  rw [hcsweep] at hc
  rw [hssweep] at hs
  have hc : constants.sweep.tokens = [⟨.float, ['.', '5'], ⟨2, 4⟩⟩] := Option.some.inj hc
  have hs : symbols.sweep.tokens = [⟨.punctuator, ['.', '.', '.'], ⟨0, 3⟩⟩] := Option.some.inj hs
  refine ⟨passages, final, constants, symbols, hrun, hcfind, hsfind, ?_⟩
  rw [hc, hs]
  decide

end Strata
