import Strata.Proofs.Literals
import Strata.Proofs.Segmented
import Strata.Run.Progress

/-!
# What reading a text comes to

Reading goes through the layers in order and never fails on the way: at each layer the text is known
from the source alone, what was kept from earlier layers is what would be found again, and so each
step is the sweep over that text. `Reachable` are the states that any requests lead to, with the
steps taken so far.

* `Progress.Coherent`: what every step preserves;
* `Progress.Coherent.exists_pass`: no step to the next layer fails;
* `Reachable.induction`: every request is a sequence of such steps.
-/

namespace Strata

variable {source : Text} {profile : Profile} {p p' : Progress} {layer : Layer} {passage : Passage}

/-! ## The sweeps of a source -/

def textAt (source : Text) : Layer → Text
  | .raw => source
  | .uncommented => (stripComments source).text
  | _ => (condenseLayout (stripComments source).text).text

/-- The sweep over a text that leads to a layer. -/
def sweepOf (profile : Profile) (text : Text) : Layer → Except Fault Sweep
  | .raw => .ok (Sweep.inPlace text [])
  | .uncommented => .ok (stripComments text)
  | .condensed => .ok (condenseLayout text)
  | .constants => tagConstants text (Literals.ofText text).ranges
  | .keywords => do
    return Progress.keeping .keyword
      (← tagWords text (Literals.ofText text).all profile.keywords)
  | .identifiers => do
    return Progress.keeping .identifier
      (← tagWords text (Literals.ofText text).all profile.keywords)
  | .symbols => tagSymbols text (Literals.ofText text).all profile.symbols

/-- Whether a layer is reached by a sweep that leaves its text as it is. -/
def Layer.isInPlace : Layer → Bool
  | .uncommented | .condensed => false
  | _ => true

/-- The profile's table holds given symbols, as every table that is built does. -/
def Profile.IsBuilt (profile : Profile) : Prop :=
  ∃ symbols, profile.symbols = SymbolTable.ofList symbols

theorem Layer.eq_symbols_of_next? (h : layer.next? = none) : layer = .symbols := by
  cases layer <;> first | rfl | cases h

/-- A scan that can always move gives slices of the text, and leaves the text alone. -/
theorem exists_ofScan {text : Text} {step : Place → Move} (hadv : Advances step text) :
    ∃ sweep, Sweep.ofScan text step = .ok sweep ∧ Sliced text sweep.tokens ∧
      sweep.text = text ∧ sweep.origin = OffsetMap.identity (byteLen text) := by
  have hsegmented := segmented_tokensOf (tiled_scan step (Place.start text))
    (flatMap_text_scan step (Place.start text))
  exact ⟨_, ofScan_eq_ok hadv, hsegmented.toSliced, rfl, rfl⟩

/-- No sweep fails. It finds slices of its text, and those behind the second leave it alone. -/
theorem exists_sweepOf (hprofile : profile.IsBuilt) (text : Text) (layer : Layer) :
    ∃ sweep, sweepOf profile text layer = .ok sweep ∧ Sliced text sweep.tokens ∧
      (layer.isInPlace = true →
        sweep.text = text ∧ sweep.origin = OffsetMap.identity (byteLen text)) := by
  rcases hprofile with ⟨symbols, hsymbols⟩
  have hwords : ∀ kind, ∃ words, tagWords text (Literals.ofText text).all profile.keywords =
      .ok words ∧ Sliced text (Progress.keeping kind words).tokens ∧
        (Progress.keeping kind words).text = text ∧
        (Progress.keeping kind words).origin = OffsetMap.identity (byteLen text) := by
    intro kind
    rcases exists_ofScan (advances_wordStep profile.keywords (endsIn_literals text)) with
      ⟨words, hwords, hsliced, htext, horigin⟩
    exact ⟨words, hwords, hsliced.filter _, htext, horigin⟩
  cases layer with
  | raw =>
    have hnone : Sliced text [] := ⟨List.Pairwise.nil, fun _ h => (List.not_mem_nil h).elim⟩
    exact ⟨_, rfl, hnone, fun _ => ⟨rfl, rfl⟩⟩
  | uncommented =>
    refine ⟨_, rfl, (segmented_stripComments text).toSliced, ?_⟩
    intro hin
    cases hin
  | condensed =>
    refine ⟨_, rfl, (segmented_condenseLayout text).toSliced, ?_⟩
    intro hin
    cases hin
  | constants =>
    rcases exists_ofScan (advances_constantStep text (Literals.ofText text).ranges) with
      ⟨sweep, hsweep, hsliced, hplace⟩
    exact ⟨sweep, hsweep, hsliced, fun _ => hplace⟩
  | keywords =>
    rcases hwords .keyword with ⟨words, hok, hsliced, hplace⟩
    refine ⟨Progress.keeping .keyword words, ?_, hsliced, fun _ => hplace⟩
    rw [sweepOf, hok]
    rfl
  | identifiers =>
    rcases hwords .identifier with ⟨words, hok, hsliced, hplace⟩
    refine ⟨Progress.keeping .identifier words, ?_, hsliced, fun _ => hplace⟩
    rw [sweepOf, hok]
    rfl
  | symbols =>
    rcases exists_ofScan (advances_symbolStep symbols (endsIn_literals text)) with
      ⟨sweep, hsweep, hsliced, hplace⟩
    refine ⟨sweep, ?_, hsliced, fun _ => hplace⟩
    rw [sweepOf, hsymbols]
    exact hsweep

/-- A sweep that leaves its text alone copies it whole. -/
theorem origin_sweepOf {text : Text} {sweep : Sweep} (hprofile : profile.IsBuilt)
    (hin : layer.isInPlace = true) (h : sweepOf profile text layer = .ok sweep) :
    sweep.origin = OffsetMap.identity (byteLen text) := by
  rcases exists_sweepOf hprofile text layer with ⟨sweep', hsweep', -, hplace⟩
  obtain rfl : sweep' = sweep := Except.ok.inj (hsweep'.symm.trans h)
  exact (hplace hin).2

/-- Keywords and identifiers are kept from one sweep for words. -/
theorem exists_words_of_keeping {kind : Kind} {words : Except Fault Sweep} {sweep : Sweep}
    (h : (return Progress.keeping kind (← words)) = Except.ok sweep) :
    ∃ found, words = .ok found ∧ sweep = Progress.keeping kind found := by
  cases words with
  | error fault => cases h
  | ok found =>
    cases h
    exact ⟨found, rfl, rfl⟩

/-- The sweep over the text of a layer leaves the text of the next one. -/
theorem text_sweepOf {next : Layer} {sweep : Sweep} (hprofile : profile.IsBuilt)
    (hnext : layer.next? = some next)
    (h : sweepOf profile (textAt source layer) next = .ok sweep) :
    sweep.text = textAt source next := by
  rcases exists_sweepOf hprofile (textAt source layer) next with ⟨sweep', hsweep', -, hplace⟩
  obtain rfl : sweep' = sweep := Except.ok.inj (hsweep'.symm.trans h)
  cases layer <;> cases hnext
  · cases h
    rfl
  · cases h
    rfl
  -- behind the second layer the text stays as it is
  all_goals exact (hplace rfl).1

/-! ## What every step preserves -/

/-- What is known at a layer is what the source says: the profile, the text, and what earlier steps
have kept about the text. -/
structure Progress.Coherent (source : Text) (profile : Profile) (p : Progress) : Prop where
  profile_eq : p.profile = profile
  text_eq : p.text = textAt source p.layer
  literals_eq : ∀ literals, p.literals = some literals → literals = Literals.ofText p.text
  words_eq : ∀ words, p.words = some words →
    tagWords p.text (Literals.ofText p.text).all profile.keywords = .ok words
  fresh : p.layer = .raw ∨ p.layer = .uncommented → p.literals = none ∧ p.words = none

/-- A raw text is coherent. -/
theorem coherent_start (source : Text) (profile : Profile) :
    (Progress.start source profile).Coherent source profile where
  profile_eq := rfl
  text_eq := rfl
  literals_eq := fun _ h => nomatch h
  words_eq := fun _ h => nomatch h
  fresh := fun _ => ⟨rfl, rfl⟩

theorem Progress.advance_eq_pass {next : Layer} (h : p.layer.next? = some next) :
    p.advance = p.pass next := by
  unfold Progress.advance
  rw [h]

namespace Progress.Coherent

/-- The literals of a state are those of its text. -/
theorem findLiterals_eq (h : p.Coherent source profile) :
    p.findLiterals = Literals.ofText p.text := by
  unfold findLiterals
  cases hliterals : p.literals with
  | none => rfl
  | some literals => exact h.literals_eq literals hliterals

/-- The words of a state are those of its text, outside its literals. -/
theorem findWords_eq (h : p.Coherent source profile) :
    p.findWords = tagWords p.text (Literals.ofText p.text).all profile.keywords := by
  unfold findWords
  cases hwords : p.words with
  | none => rw [h.findLiterals_eq, h.profile_eq]
  | some words => exact (h.words_eq words hwords).symm

/-- What was kept from earlier steps does not show: the step to a layer is the sweep over the text,
and what is kept for later steps is right, too. -/
theorem exists_sweepTo (h : p.Coherent source profile) {sweep : Sweep}
    (hsweep : sweepOf profile p.text layer = .ok sweep) :
    ∃ p', p.sweepTo layer = .ok (sweep, p') ∧ p'.profile = profile ∧
      (∀ literals, p'.literals = some literals → literals = Literals.ofText p.text) ∧
      (∀ words, p'.words = some words →
        tagWords p.text (Literals.ofText p.text).all profile.keywords = .ok words) ∧
      (layer.isInPlace = false → p' = p) := by
  have hliterals := h.findLiterals_eq
  have hwords := h.findWords_eq
  cases layer with
  | raw =>
    cases hsweep
    exact ⟨p, rfl, h.profile_eq, h.literals_eq, h.words_eq, fun _ => rfl⟩
  | uncommented =>
    cases hsweep
    exact ⟨p, rfl, h.profile_eq, h.literals_eq, h.words_eq, fun _ => rfl⟩
  | condensed =>
    cases hsweep
    exact ⟨p, rfl, h.profile_eq, h.literals_eq, h.words_eq, fun _ => rfl⟩
  | constants =>
    have hok : tagConstants p.text (Literals.ofText p.text).ranges = .ok sweep := hsweep
    refine ⟨{ p with literals := some (Literals.ofText p.text) }, ?_, h.profile_eq, ?_, h.words_eq,
      by simp [Layer.isInPlace]⟩
    · simp only [sweepTo, hliterals, hok]
      rfl
    · intro literals heq
      exact (Option.some.inj heq).symm
  | keywords =>
    rcases exists_words_of_keeping hsweep with ⟨words, hok, rfl⟩
    refine ⟨{ p with literals := some (Literals.ofText p.text), words := some words }, ?_,
      h.profile_eq, ?_, ?_, by simp [Layer.isInPlace]⟩
    · simp only [sweepTo, hliterals, hwords, hok]
      rfl
    · intro literals heq
      exact (Option.some.inj heq).symm
    · intro words' heq
      rw [← Option.some.inj heq]
      exact hok
  | identifiers =>
    rcases exists_words_of_keeping hsweep with ⟨words, hok, rfl⟩
    refine ⟨{ p with literals := some (Literals.ofText p.text), words := none }, ?_,
      h.profile_eq, ?_, ?_, by simp [Layer.isInPlace]⟩
    · simp only [sweepTo, hliterals, hwords, hok]
      rfl
    · intro literals heq
      exact (Option.some.inj heq).symm
    · intro words' heq
      cases heq
  | symbols =>
    have hok : tagSymbols p.text (Literals.ofText p.text).all profile.symbols = .ok sweep := hsweep
    refine ⟨{ p with literals := some (Literals.ofText p.text) }, ?_, h.profile_eq, ?_, h.words_eq,
      by simp [Layer.isInPlace]⟩
    · simp only [sweepTo, hliterals, h.profile_eq, hok]
      rfl
    · intro literals heq
      exact (Option.some.inj heq).symm

/-- The step to the next layer does not fail, and is the sweep over the text of the layer. -/
theorem exists_pass (h : p.Coherent source profile) (hprofile : profile.IsBuilt)
    (hnext : p.layer.next? = some layer) :
    ∃ sweep p', p.pass layer = .ok (⟨layer, p.text, sweep, p.origin, 0⟩, p') ∧
      sweepOf profile p.text layer = .ok sweep ∧ p'.Coherent source profile ∧
      p'.layer = layer ∧ p'.origin = sweep.origin.andThen p.origin := by
  rcases exists_sweepOf hprofile p.text layer with ⟨sweep, hsweep, -, hplace⟩
  rcases h.exists_sweepTo hsweep with ⟨q, hq, hqprofile, hliterals, hwords, hsame⟩
  have htext : sweep.text = textAt source layer := by
    rw [h.text_eq] at hsweep
    exact text_sweepOf hprofile hnext hsweep
  refine ⟨sweep, { q with layer, text := sweep.text, origin := sweep.origin.andThen p.origin }, ?_,
    hsweep, ?_, rfl, rfl⟩
  · simp only [pass, hq]
  · cases hin : layer.isInPlace with
    | true =>
      -- the text is the same, so what was kept stays right
      have hkept : sweep.text = p.text := (hplace hin).1
      refine ⟨hqprofile, htext, ?_, ?_, ?_⟩
      · rw [hkept]
        exact hliterals
      · rw [hkept]
        exact hwords
      · intro hlayer
        have hlayer : layer = .raw ∨ layer = .uncommented := hlayer
        rcases hlayer with rfl | rfl
        · cases hl : p.layer <;> rw [hl] at hnext <;> cases hnext
        · cases hin
    | false =>
      -- nothing was kept yet
      have hfresh : p.literals = none ∧ p.words = none := by
        apply h.fresh
        cases hl : p.layer <;> rw [hl] at hnext <;> cases hnext <;> simp_all [Layer.isInPlace]
      rw [hsame hin]
      refine ⟨h.profile_eq, htext, ?_, ?_, fun _ => hfresh⟩
      · intro literals heq
        have heq : p.literals = some literals := heq
        rw [hfresh.1] at heq
        cases heq
      · intro words heq
        have heq : p.words = some words := heq
        rw [hfresh.2] at heq
        cases heq

/-- Before the last layer, the next step does not fail. -/
theorem exists_advance (h : p.Coherent source profile) (hprofile : profile.IsBuilt)
    (hlayer : p.layer ≠ .symbols) : ∃ passage p', p.advance = .ok (passage, p') := by
  cases hnext : p.layer.next? with
  | none => exact absurd (Layer.eq_symbols_of_next? hnext) hlayer
  | some next =>
    rcases h.exists_pass hprofile hnext with ⟨sweep, p', hpass, -⟩
    exact ⟨⟨next, p.text, sweep, p.origin, 0⟩, p', (advance_eq_pass hnext).trans hpass⟩

end Progress.Coherent

/-! ## Reading to the end -/

/-- The steps lead to the layers in order, each by the sweep over the text of the layer before. -/
inductive StepsThrough (source : Text) (profile : Profile) : Layer → List Passage → Prop
  | done : StepsThrough source profile .symbols []
  | step {layer next sweep origin passages} (hnext : layer.next? = some next)
      (hsweep : sweepOf profile (textAt source layer) next = .ok sweep)
      (hlater : StepsThrough source profile next passages) :
      StepsThrough source profile layer (⟨next, textAt source layer, sweep, origin, 0⟩ :: passages)

/-- Each layer is numbered one higher than the one before. -/
theorem Layer.ordinal_next {next : Layer} (h : layer.next? = some next) :
    next.ordinal = layer.ordinal + 1 := by
  cases layer <;> cases h <;> rfl

/-- Steps that are not refused are a first step and the others behind it. -/
theorem advanceBy_succ_eq_ok {n : Nat} {passages : List Passage} :
    p.advanceBy (n + 1) = .ok (passages, p') ↔
      ∃ passage q later, p.advance = .ok (passage, q) ∧ q.advanceBy n = .ok (later, p') ∧
        passages = passage :: later := by
  constructor
  · intro h
    cases hfirst : p.advance with
    | error e =>
      simp only [Progress.advanceBy, hfirst] at h
      cases h
    | ok first =>
      obtain ⟨passage, q⟩ := first
      -- a refused step refuses the whole request
      cases hrest : q.advanceBy n with
      | error e =>
        simp only [Progress.advanceBy, hfirst, hrest, bind, Except.bind] at h
        cases h
      | ok rest =>
        obtain ⟨later, q'⟩ := rest
        simp only [Progress.advanceBy, hfirst, hrest, bind, Except.bind] at h
        cases h
        exact ⟨passage, q, later, rfl, hrest, rfl⟩
  · rintro ⟨passage, q, later, hfirst, hrest, rfl⟩
    simp only [Progress.advanceBy, hfirst, hrest, bind, Except.bind]
    rfl

/-- From any layer, the remaining steps lead to the last one. -/
theorem Progress.Coherent.exists_advanceBy (h : p.Coherent source profile)
    (hprofile : profile.IsBuilt) {n : Nat}
    (hn : n + p.layer.ordinal = Layer.symbols.ordinal) :
    ∃ passages p', p.advanceBy n = .ok (passages, p') ∧ p'.layer = .symbols ∧
      StepsThrough source profile p.layer passages := by
  -- the steps that are left are as many as the layers
  induction n generalizing p with
  | zero =>
    have hlast : p.layer = .symbols := by
      cases hl : p.layer <;> rw [hl] at hn <;> first | rfl | cases hn
    exact ⟨[], p, rfl, hlast, by rw [hlast]; exact .done⟩
  | succ n ih =>
    cases hnext : p.layer.next? with
    | none =>
      rw [Layer.eq_symbols_of_next? hnext] at hn
      omega
    | some next =>
      rcases h.exists_pass hprofile hnext with ⟨sweep, q, hpass, hsweep, hq, hlayer, -⟩
      have hcount : n + q.layer.ordinal = Layer.symbols.ordinal := by
        rw [hlayer, Layer.ordinal_next hnext]
        omega
      rcases ih hq hcount with ⟨passages, p', hrest, hlast, hsteps⟩
      have hadvance := (Progress.advance_eq_pass hnext).trans hpass
      refine ⟨⟨next, p.text, sweep, p.origin, 0⟩ :: passages, p',
        advanceBy_succ_eq_ok.2 ⟨_, q, passages, hadvance, hrest, rfl⟩, hlast, ?_⟩
      · rw [h.text_eq] at hsweep ⊢
        rw [hlayer] at hsteps
        exact .step hnext hsweep hsteps

theorem Layer.ordinal_le_symbols (layer : Layer) : layer.ordinal ≤ Layer.symbols.ordinal := by
  cases layer <;> decide

theorem Layer.eq_of_ordinal_eq {target : Layer} (h : layer.ordinal = target.ordinal) :
    layer = target := by
  cases layer <;> cases target <;> first | rfl | cases h

/-- Every layer still ahead is reached by one of the steps, the sweep over the text of the layer
before it. -/
theorem StepsThrough.exists_find {before target : Layer} {passages : List Passage}
    (h : StepsThrough source profile layer passages) (hbefore : before.next? = some target)
    (hle : layer.ordinal ≤ before.ordinal) :
    ∃ r, passages.find? (fun r => r.layer = target) = some r ∧ r.input = textAt source before ∧
      sweepOf profile (textAt source before) target = .ok r.sweep := by
  have htarget := Layer.ordinal_next hbefore
  induction h with
  | done =>
    have := Layer.ordinal_le_symbols target
    omega
  | @step layer next sweep origin passages hnext hsweep _ ih =>
    have hordinal := Layer.ordinal_next hnext
    by_cases heq : layer = before
    · -- this is the step
      subst heq
      obtain rfl : next = target := Option.some.inj (hnext.symm.trans hbefore)
      exact ⟨_, List.find?_cons_of_pos (by simp), rfl, hsweep⟩
    · have hlater : layer.ordinal ≠ before.ordinal := fun h => heq (Layer.eq_of_ordinal_eq h)
      have hne : next ≠ target := by
        rintro rfl
        omega
      rcases ih (by omega) with ⟨r, hfind, hr⟩
      exact ⟨r, by rwa [List.find?_cons_of_neg (by simpa using hne)], hr⟩

/-- Every source is read to the end. -/
theorem exists_runRemaining (source : Text) (hprofile : profile.IsBuilt) :
    ∃ passages p', (Progress.start source profile).runRemaining = .ok (passages, p') ∧
      p'.layer = .symbols ∧ StepsThrough source profile .raw passages :=
  (coherent_start source profile).exists_advanceBy hprofile rfl

/-! ## Requests -/

/-- The states that requests lead to from a source, with the steps taken so far. A request that is
refused leads nowhere. -/
inductive Reachable (source : Text) (profile : Profile) : Progress → List Passage → Prop
  | start : Reachable source profile (Progress.start source profile) []
  | advance {p p' passages passage} (h : Reachable source profile p passages)
      (hstep : p.advance = .ok (passage, p')) : Reachable source profile p' (passages ++ [passage])
  | run {p p' passages passage layer} (h : Reachable source profile p passages)
      (hstep : p.run layer = .ok (passage, p')) :
      Reachable source profile p' (passages ++ [passage])
  | runTo {p p' passages later target} (h : Reachable source profile p passages)
      (hsteps : p.runTo target = .ok (later, p')) : Reachable source profile p' (passages ++ later)
  | runRemaining {p p' passages later} (h : Reachable source profile p passages)
      (hsteps : p.runRemaining = .ok (later, p')) : Reachable source profile p' (passages ++ later)

theorem exists_pass_of_advance (h : p.advance = .ok (passage, p')) :
    ∃ layer, p.layer.next? = some layer ∧ p.pass layer = .ok (passage, p') := by
  unfold Progress.advance at h
  split at h
  · cases h
  · rename_i layer hnext
    exact ⟨layer, hnext, h⟩

theorem exists_pass_of_run (h : p.run layer = .ok (passage, p')) :
    ∃ layer, p.layer.next? = some layer ∧ p.pass layer = .ok (passage, p') := by
  unfold Progress.run at h
  split at h
  · cases h
  · rename_i next hnext
    split at h
    · rename_i heq
      exact ⟨layer, heq ▸ hnext, h⟩
    · cases h

section Induction

variable {motive : Progress → List Passage → Prop}

/-- What a step preserves, any number of steps preserve. -/
theorem advanceBy_induction
    (pass : ∀ p passages layer passage p', motive p passages → p.layer.next? = some layer →
      p.pass layer = .ok (passage, p') → motive p' (passages ++ [passage]))
    {n : Nat} {passages later : List Passage} (h : motive p passages)
    (hsteps : p.advanceBy n = .ok (later, p')) : motive p' (passages ++ later) := by
  induction n generalizing p passages later with
  | zero =>
    cases hsteps
    simpa using h
  | succ n ih =>
    rcases advanceBy_succ_eq_ok.1 hsteps with ⟨passage, q, later', hfirst, hrest, rfl⟩
    rcases exists_pass_of_advance hfirst with ⟨layer, hnext, hpass⟩
    have hlater := ih (pass p passages layer passage q h hnext hpass) hrest
    rwa [List.append_assoc] at hlater

/-- What holds at the start and is preserved by the step to the next layer holds wherever requests
lead. -/
theorem Reachable.induction (start : motive (Progress.start source profile) [])
    (pass : ∀ p passages layer passage p', motive p passages → p.layer.next? = some layer →
      p.pass layer = .ok (passage, p') → motive p' (passages ++ [passage]))
    {passages : List Passage} (h : Reachable source profile p passages) : motive p passages := by
  induction h with
  | start => exact start
  | advance _ hstep ih =>
    rcases exists_pass_of_advance hstep with ⟨layer, hnext, hpass⟩
    exact pass _ _ layer _ _ ih hnext hpass
  | run _ hstep ih =>
    rcases exists_pass_of_run hstep with ⟨layer, hnext, hpass⟩
    exact pass _ _ layer _ _ ih hnext hpass
  | runTo _ hsteps ih =>
    unfold Progress.runTo at hsteps
    split at hsteps
    · cases hsteps
    · exact advanceBy_induction pass ih hsteps
  | runRemaining _ hsteps ih => exact advanceBy_induction pass ih hsteps

end Induction

end Strata
