import Mathlib.Data.List.Chain
import Strata.Proofs.Embedding
import Strata.Proofs.Lines
import Strata.Run.Outcome

/-!
# Every source has an outcome

A run over a source comes to its end. Its steps lead to the layers in order, each from the text that
the one before has left, and the words are found once for the two layers that take them. What the
diagnostics are about stands in the source, so each of them has a line and a column, and nothing
keeps a run from its outcome.

* `InOrder`: what the steps of a run have to do with one another;
* `isBoundary_of_mem_sightings`: where the diagnostics of a run stand;
* `exists_run_of_ofText`: what an outcome is made of;
* `exists_outcome`: the outcome of a run, and its steps.
-/

namespace Strata

variable {source : Text} {profile : Profile} {layer : Layer} {passages : List Passage} {r : Passage}

/-! ## The steps of a run -/

/-- The steps lead to all layers that are left, in order. -/
theorem StepsThrough.layers_eq (h : StepsThrough source profile layer passages) :
    passages.map (·.layer) = Layer.all.drop (layer.ordinal + 1) := by
  induction h with
  | done => rfl
  | @step layer next sweep origin passages hnext _ _ ih =>
    rw [List.map_cons, ih, Layer.ordinal_next hnext]
    cases layer <;> cases hnext <;> rfl

/-- Each step starts from the text that the one before has left. -/
theorem StepsThrough.isChain (h : StepsThrough source profile layer passages)
    (hprofile : profile.IsBuilt) :
    passages.IsChain (fun r s => s.input = r.sweep.text) ∧
      ∀ r ∈ passages.head?, r.input = textAt source layer := by
  induction h with
  | done => exact ⟨List.isChain_nil, fun r hr => nomatch hr⟩
  | @step layer next sweep origin passages hnext hsweep _ ih =>
    constructor
    · refine List.isChain_cons.2 ⟨fun r hr => ?_, ih.1⟩
      rw [ih.2 r hr]
      exact (text_sweepOf hprofile hnext hsweep).symm
    · intro r hr
      rw [← Option.some.inj hr]

/-- Each step is the sweep over the text of the layer before. -/
theorem StepsThrough.exists_of_mem (h : StepsThrough source profile layer passages)
    (hr : r ∈ passages) :
    ∃ before, before.next? = some r.layer ∧ r.input = textAt source before ∧
      sweepOf profile (textAt source before) r.layer = .ok r.sweep := by
  induction h with
  | done => cases hr
  | @step layer next sweep origin passages hnext hsweep _ ih =>
    rcases List.mem_cons.1 hr with rfl | hr
    · exact ⟨layer, hnext, rfl, hsweep⟩
    · exact ih hr

/-- The steps of a run over a source: they lead to the layers in order, the first one starts from
the source and each later one from the text that the one before has left, and the keywords and the
identifiers are those of one sweep for words. -/
structure InOrder (source : Text) (profile : Profile) (passages : List Passage) : Prop where
  layers_eq : passages.map (·.layer) = Layer.all.tail
  starts : passages.head?.map (·.input) = some source
  chain : passages.IsChain fun r s => s.input = r.sweep.text
  words : ∃ text words, tagWords text (Literals.ofText text).all profile.keywords = .ok words ∧
    ∀ r ∈ passages,
      (r.layer = .keywords → r.input = text ∧ r.sweep = Progress.keeping .keyword words) ∧
      (r.layer = .identifiers → r.input = text ∧ r.sweep = Progress.keeping .identifier words)

/-- The words of the text that the keywords and the identifiers are taken from. -/
theorem StepsThrough.exists_words (h : StepsThrough source profile layer passages) :
    ∃ words, tagWords (textAt source .constants) (Literals.ofText (textAt source .constants)).all
        profile.keywords = .ok words ∧
      ∀ r ∈ passages,
        (r.layer = .keywords →
          r.input = textAt source .constants ∧ r.sweep = Progress.keeping .keyword words) ∧
        (r.layer = .identifiers →
          r.input = textAt source .constants ∧ r.sweep = Progress.keeping .identifier words) := by
  rcases exists_ofScan (advances_wordStep profile.keywords
    (endsIn_literals (textAt source .constants))) with ⟨words, hwords, -⟩
  refine ⟨words, hwords, ?_⟩
  intro r hr
  rcases h.exists_of_mem hr with ⟨before, hnext, hinput, hsweep⟩
  -- both layers are reached from a text that is that of the constants
  have hkeeping : ∀ kind, textAt source before = textAt source .constants →
      (do return Progress.keeping kind (← tagWords (textAt source before)
        (Literals.ofText (textAt source before)).all profile.keywords)) = Except.ok r.sweep →
      r.input = textAt source .constants ∧ r.sweep = Progress.keeping kind words := by
    intro kind htext hkept
    rcases exists_words_of_keeping hkept with ⟨found, hfound, hkeep⟩
    rw [htext] at hfound hinput
    obtain rfl : found = words := Except.ok.inj (hfound.symm.trans hwords)
    exact ⟨hinput, hkeep⟩
  constructor
  · intro hlayer
    rw [hlayer] at hnext hsweep
    refine hkeeping .keyword ?_ hsweep
    cases before <;> cases hnext
    rfl
  · intro hlayer
    rw [hlayer] at hnext hsweep
    refine hkeeping .identifier ?_ hsweep
    cases before <;> cases hnext
    rfl

/-- The steps of a run are in order, from the raw text on. -/
theorem StepsThrough.inOrder (h : StepsThrough source profile .raw passages)
    (hprofile : profile.IsBuilt) : InOrder source profile passages where
  layers_eq := h.layers_eq
  starts := by
    cases h with
    | step => rfl
  chain := (h.isChain hprofile).1
  words := ⟨textAt source .constants, h.exists_words⟩

/-! ## Diagnostics -/

/-- What a step is about stands between boundaries of the source. -/
theorem isBoundary_of_mem_sightings (hspans : ∀ r ∈ passages, r.SpansSource source)
    {s : Diagnostic.Sighting} (h : s ∈ Diagnostic.sightings passages) :
    isBoundary source s.2.2.start = true := by
  have hstart : ∀ {target : Layer} {r : Passage} {t : Token},
      r ∈ (passages.find? (·.layer = target)).toList → t ∈ r.sweep.tokens →
        isBoundary source (r.rawSpan t).start = true := by
    intro target r t hr ht
    rw [Option.mem_toList] at hr
    exact ((hspans r (List.mem_of_find?_eq_some hr)).bounds t ht).2.2.1
  unfold Diagnostic.sightings at h
  rcases List.mem_append.1 h with h | h
  · rcases List.mem_append.1 h with h | h
    · -- of a comment that is never closed, the first two bytes
      rcases List.mem_flatMap.1 h with ⟨r, hr, h⟩
      rcases List.mem_map.1 h with ⟨t, ht, rfl⟩
      exact hstart hr (List.mem_filter.1 ht).1
    · rcases List.mem_flatMap.1 h with ⟨r, hr, h⟩
      rcases List.mem_map.1 h with ⟨t, ht, rfl⟩
      exact hstart hr (List.mem_filter.1 ht).1
  · rcases List.mem_flatMap.1 h with ⟨r, hr, h⟩
    rcases List.mem_filterMap.1 h with ⟨t, ht, h⟩
    rcases Option.map_eq_some_iff.1 h with ⟨flaw, -, rfl⟩
    exact hstart hr (List.mem_filter.1 ht).1

/-- Where each element has a result, all have. -/
theorem exists_mapM {α β ε : Type} {f : α → Except ε β} {as : List α}
    (h : ∀ a ∈ as, ∃ b, f a = .ok b) : ∃ bs, as.mapM f = .ok bs := by
  induction as with
  | nil => exact ⟨[], rfl⟩
  | cons a as ih =>
    rcases h a List.mem_cons_self with ⟨b, hb⟩
    rcases ih fun c hc => h c (List.mem_cons_of_mem a hc) with ⟨bs, hbs⟩
    refine ⟨b :: bs, ?_⟩
    rw [List.mapM_cons, hb, hbs]
    rfl

/-- Each diagnostic of the steps has a line and a column. -/
theorem exists_ofPassages (hspans : ∀ r ∈ passages, r.SpansSource source) :
    ∃ diagnostics, Diagnostic.ofPassages (LineIndex.ofText source) passages = .ok diagnostics := by
  have hlocate : ∀ s ∈ Diagnostic.sightings passages,
      ∃ d, Diagnostic.locate (LineIndex.ofText source) s = .ok d := by
    intro s hs
    rcases exists_positionAt (isBoundary_of_mem_sightings hspans hs) with ⟨position, hposition⟩
    refine ⟨⟨s.1, s.2.1, s.2.2, position.line, position.column⟩, ?_⟩
    simp only [Diagnostic.locate, hposition]
    rfl
  rcases exists_mapM hlocate with ⟨diagnostics, hdiagnostics⟩
  exact ⟨_, by rw [Diagnostic.ofPassages, hdiagnostics]; rfl⟩

/-! ## Outcomes -/

/-- An outcome has the steps of a run, what is wrong with them and the tally of their tokens. -/
theorem exists_run_of_ofText {o : Outcome} (h : Outcome.ofText source profile = .ok o) :
    ∃ passages last diagnostics,
      (Progress.start source profile).runRemaining = .ok (passages, last) ∧
      Diagnostic.ofPassages (LineIndex.ofText source) passages = .ok diagnostics ∧
      o = ⟨none, profile.name, source, passages, last.literals.getD default, diagnostics,
        passages.foldl (fun t r => t.recordAll r.sweep.tokens) Tally.empty, 0⟩ := by
  unfold Outcome.ofText at h
  cases hrun : (Progress.start source profile).runRemaining with
  | error e =>
    rw [hrun] at h
    cases h
  | ok run =>
    obtain ⟨passages, last⟩ := run
    rw [hrun] at h
    cases hdiagnostics : Diagnostic.ofPassages (LineIndex.ofText source) passages with
    | error fault =>
      simp only [bind, Except.bind, hdiagnostics] at h
      cases h
    | ok diagnostics =>
      simp only [bind, Except.bind, hdiagnostics] at h
      cases h
      exact ⟨passages, last, diagnostics, rfl, hdiagnostics, rfl⟩

/-- Every source has an outcome, whose steps are those of a run to the end. -/
theorem exists_outcome (source : Text) (hprofile : profile.IsBuilt) :
    ∃ outcome last, Outcome.ofText source profile = .ok outcome ∧
      (Progress.start source profile).runRemaining = .ok (outcome.passages, last) ∧
      StepsThrough source profile .raw outcome.passages := by
  rcases exists_runRemaining source hprofile with ⟨passages, last, hrun, -, hsteps⟩
  have hspans := (faithful_of_reachable hprofile (Reachable.start.runRemaining hrun)).spans
  rcases exists_ofPassages hspans with ⟨diagnostics, hdiagnostics⟩
  rw [List.nil_append] at hdiagnostics
  refine ⟨⟨none, profile.name, source, passages, last.literals.getD default, diagnostics,
    passages.foldl (fun t r => t.recordAll r.sweep.tokens) Tally.empty, 0⟩, last, ?_, hrun, hsteps⟩
  rw [Outcome.ofText, hrun]
  simp only [bind, Except.bind, hdiagnostics]
  rfl

end Strata
