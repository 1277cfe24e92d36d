import Strata.Proofs.Excerpt
import Strata.Proofs.Outcome
import Strata.Proofs.Symbols
import Strata.Report.Document
import Strata.Report.Screen

/-!
# Runs without faults

Whatever a source and a profile hold, a run comes to its outcome, and everything that can be said
about the outcome is said: no scan stands still or goes on inside a character, no part that is cut
out of a text is anything but a part of it, and what is looked up by an offset is there. Only the
carets under a message need more. Its span must not start in the layout at the end of a line, which
is not shown; and no flaw is layout.

* `Passage.Traced`: what is known of each step;
* `Passage.Traced.marks`: where a token that starts with no layout stands in the source;
* `marks_of_mem_sightings`: where the flaws of a run stand;
* `ofPassages_eq_ok`: the diagnostics of a run, by its flaws;
* `faultless_of_traced`: what can be said about an outcome.
-/

namespace Strata

variable {source text : Text} {profile : Profile} {p : Progress} {passages : List Passage}
  {r : Passage} {t : Token} {c : Char} {span : Span} {o : Outcome} {ds : List Diagnostic}

/-! ## Scans move on -/

/-- The scan for layout never stops before the end. -/
theorem advances_layoutStep (text : Text) : Advances layoutStep text := by
  intro here _ hahead
  rcases exists_run_of_scan hahead with ⟨p, there, -, -, -, hmove, -⟩
  exact ⟨there, hmove⟩

/-- The scan for literals never stops before the end. -/
theorem advances_literalStep (text : Text) : Advances literalStep text := by
  intro here _ hahead
  rcases List.exists_cons_of_ne_nil hahead with ⟨c, t, hrest⟩
  apply Place.CanPass.exists_movesTo
  cases hquoted : quotedLen? here.rest with
  | some len =>
    rw [(literalStep_literal hquoted).1]
    exact canPass_of_quotedLen? hquoted
  | none =>
    by_cases hpair : c = '\'' ∧ t.head? = some '\''
    · rcases List.head?_eq_some_iff.1 hpair.2 with ⟨t', ht⟩
      rw [hpair.1, ht] at hrest
      rw [literalStep_emptyPair hrest]
      exact ⟨['\'', '\''], t', List.cons_ne_nil _ _, hrest, rfl⟩
    · rw [literalStep_other hrest hquoted fun hc ht => hpair ⟨hc, ht⟩]
      exact canPass_char hrest

/-! ## Steps and their maps -/

/-- A step is the sweep over the text of a layer, and its map leads along the trail of the layer. -/
def Passage.Traced (source : Text) (profile : Profile) (r : Passage) : Prop :=
  ∃ before, before.next? = some r.layer ∧ r.input = textAt source before ∧
    sweepOf profile r.input r.layer = .ok r.sweep ∧
    r.inputOrigin.Traces (trailBytes (trailAt source before)) (byteLen source)

/-- Each step of a run is traced to the source. -/
theorem traced_of_reachable (hprofile : profile.IsBuilt) (h : Reachable source profile p passages) :
    ∀ r ∈ passages, r.Traced source profile := by
  suffices hboth : p.Faithful source profile passages ∧ ∀ r ∈ passages, r.Traced source profile from
    hboth.2
  refine Reachable.induction (motive := fun p passages =>
    p.Faithful source profile passages ∧ ∀ r ∈ passages, r.Traced source profile)
    ⟨faithful_start source profile, fun _ h => (List.not_mem_nil h).elim⟩ ?_ h
  intro p passages layer passage p' hp hnext hpass
  refine ⟨hp.1.pass hprofile hnext hpass, ?_⟩
  rcases hp.1.coherent.exists_pass hprofile hnext with ⟨sweep, p'', hpass', hsweep, -⟩
  rw [hpass] at hpass'
  obtain ⟨rfl, rfl⟩ := Prod.mk.inj (Except.ok.inj hpass')
  intro r hr
  rcases List.mem_append.1 hr with hr | hr
  · exact hp.2 r hr
  · rw [List.mem_singleton.1 hr]
    exact ⟨p.layer, hnext, hp.1.coherent.text_eq, hsweep, hp.1.traces⟩

theorem Layer.eq_of_next? {before before' layer : Layer} (h : before.next? = some layer)
    (h' : before'.next? = some layer) : before = before' := by
  cases before <;> cases before' <;> cases h <;> first | rfl | cases h'

namespace Passage.Traced

/-- The layer that a step starts from is the one before. -/
theorem of_next? {before : Layer} (h : r.Traced source profile)
    (hnext : before.next? = some r.layer) :
    r.input = textAt source before ∧ sweepOf profile (textAt source before) r.layer = .ok r.sweep ∧
      r.inputOrigin.Traces (trailBytes (trailAt source before)) (byteLen source) := by
  rcases h with ⟨before', hnext', hinput, hsweep, htraces⟩
  obtain rfl := Layer.eq_of_next? hnext hnext'
  exact ⟨hinput, hinput ▸ hsweep, htraces⟩

/-- The tokens of a step are slices of the text that the step started from. -/
theorem sliced (h : r.Traced source profile) (hprofile : profile.IsBuilt) :
    Sliced r.input r.sweep.tokens := by
  rcases h with ⟨before, -, -, hsweep, -⟩
  rcases exists_sweepOf hprofile r.input r.layer with ⟨sweep, hsweep', hsliced, -⟩
  obtain rfl : sweep = r.sweep := Except.ok.inj (hsweep'.symm.trans hsweep)
  exact hsliced

/-- The tokens of a step cover parts of the source, in order. -/
theorem spansSource (h : r.Traced source profile) (hprofile : profile.IsBuilt) :
    r.SpansSource source := by
  have hsliced := h.sliced hprofile
  rcases h with ⟨before, hnext, hinput, -, htraces⟩
  rw [hinput] at hsliced
  have hspans := spansSource_of_traces htraces hnext hsliced
  exact ⟨hspans.bounds, hspans.apart, hspans.lexemes⟩

/-- What a token starts with stands in the source where the token does, unless it is layout. -/
theorem exists_source (h : r.Traced source profile) (hprofile : profile.IsBuilt)
    (ht : t ∈ r.sweep.tokens) (hhead : t.lexeme.head? = some c) (hc : isLayout c = false) :
    ∃ front back, source = front ++ c :: back ∧ (r.rawSpan t).start = byteLen front := by
  rcases (h.sliced hprofile).slices t ht with ⟨hlt, hslice⟩
  rcases h with ⟨before, -, hinput, -, htraces⟩
  rw [hinput] at hslice
  rcases exists_trail_of_slice htraces hslice hlt with
    ⟨front, a, part, back, b, htrail, hshown, -, hspan, -⟩
  have ha : shownAt before a.2 = c := by
    rw [← hshown] at hhead
    exact Option.some.inj hhead
  -- only layout is shown as another character
  have hraw : a.2 = c := by
    cases before with
    | raw | uncommented => exact ha
    | _ =>
      have ha : spaced a.2 = c := ha
      unfold spaced at ha
      split at ha
      · rw [← ha] at hc
        exact absurd hc (by decide)
      · exact ha
  have hmem : a ∈ located id 0 source := by
    apply (sublist_trailAt source before).subset
    rw [htrail]
    simp
  rcases mem_located hmem with ⟨front', back', hsource, hstart⟩
  rw [List.map_id] at hstart
  refine ⟨front', back', by rw [← hraw]; exact hsource, ?_⟩
  rw [Passage.rawSpan, hspan]
  exact hstart

end Passage.Traced

/-! ## Flaws -/

/-- A span covers a part of a text that starts with a character other than layout. -/
def Span.Marks (text : Text) (span : Span) : Prop :=
  ∃ front middle back c, text = front ++ middle ++ back ∧ middle.head? = some c ∧
    isLayout c = false ∧ span = ⟨byteLen front, byteLen (front ++ middle)⟩

theorem Span.Marks.canShow (h : span.Marks text) (hsize : byteLen text < 4294967295) :
    (LineIndex.ofText text).CanShow span := by
  rcases h with ⟨front, middle, back, c, rfl, hhead, hc, rfl⟩
  rw [byteLen_append] at hsize
  refine canShow_append front back (by omega) hhead ?_ ?_
  · rintro rfl
    cases hc
  · rintro rfl
    cases hc

theorem Span.Marks.isBoundary (h : span.Marks text) :
    isBoundary text span.start = true ∧ isBoundary text span.stop = true := by
  rcases h with ⟨front, middle, back, -, rfl, -, -, rfl⟩
  constructor
  · exact isBoundary_eq_true.2 ⟨front, middle ++ back, by rw [List.append_assoc], rfl⟩
  · exact isBoundary_eq_true.2 ⟨front ++ middle, back, rfl, rfl⟩

/-- A token that starts with no layout covers a part of the source that starts with none. -/
theorem Passage.Traced.marks (h : r.Traced source profile) (hprofile : profile.IsBuilt)
    (ht : t ∈ r.sweep.tokens) (hhead : t.lexeme.head? = some c) (hc : isLayout c = false) :
    (r.rawSpan t).Marks source := by
  rcases h.exists_source hprofile ht hhead hc with ⟨front, back, hsource, hstart⟩
  rcases (h.spansSource hprofile).bounds t ht with ⟨hlt, -, -, hstop⟩
  rcases isBoundary_eq_true.1 hstop with ⟨covered, behind, hcovered, hlen⟩
  have hboth : front ++ c :: back = covered ++ behind := hsource.symm.trans hcovered
  rcases exists_middle_of_byteLen_le hboth (by omega) with ⟨middle, rfl, hmiddle⟩
  refine ⟨front, middle, behind, c, hcovered, ?_, hc, ?_⟩
  · cases middle with
    | nil =>
      rw [List.append_nil] at hlen
      omega
    | cons d middle => rw [List.head?_cons, (List.cons.inj hmiddle).1]
  · rw [hlen, ← hstart]

/-- An unknown token of the last layer starts with no layout. -/
theorem Passage.Traced.exists_head_of_unknown (h : r.Traced source profile)
    (hlayer : r.layer = .symbols) (ht : t ∈ r.sweep.tokens) (hkind : t.kind = .unknown) :
    ∃ c, t.lexeme.head? = some c ∧ isLayout c = false := by
  rcases h with ⟨before, -, -, hsweep, -⟩
  rw [hlayer, sweepOf] at hsweep
  rw [tokens_of_ofScan hsweep] at ht
  rcases mem_tokensOf_scan.1 ht with ⟨here, there, -, hreports⟩
  have hunknown := hreports.kind_eq
  rw [hkind] at hunknown
  rcases hreports.moves.exists_head with ⟨c, back, hhead⟩
  -- the other moves report nothing, or a symbol
  cases hskip : (Literals.ofText r.input).all.spanAt? here.offset with
  | some s =>
    rw [symbolStep_skip _ hskip] at hunknown
    cases hunknown
  | none =>
    cases hlayout : isLayout c with
    | true =>
      simp only [symbolStep, hskip, hhead, hlayout, if_true] at hunknown
      cases hunknown
    | false =>
      refine ⟨c, ?_, hlayout⟩
      have hrest := hreports.rest_eq
      have hlt := hreports.moves.offset_lt
      have hlen := hreports.byteLen_lexeme
      rw [hreports.moves.offset_eq, ← hlen] at hlt
      cases hlexeme : t.lexeme with
      | nil =>
        rw [hlexeme, byteLen_nil] at hlt
        omega
      | cons d lexeme =>
        rw [hlexeme, hhead] at hrest
        rw [List.head?_cons, (List.cons.inj hrest).1]

/-- The opening of a comment. -/
theorem Passage.Traced.marks_opening (h : r.Traced source profile) (hprofile : profile.IsBuilt)
    (hlayer : r.layer = .uncommented) (ht : t ∈ r.sweep.tokens)
    (hopen : Diagnostic.isOpenComment t.lexeme = true) :
    (Span.ofLen (r.rawSpan t).start 2).Marks source := by
  rcases (h.sliced hprofile).slices t ht with ⟨hlt, hslice⟩
  have hnext : Layer.raw.next? = some r.layer := by rw [hlayer]; rfl
  rcases h.of_next? hnext with ⟨hinput, -, htraces⟩
  rw [hinput] at hslice
  rcases exists_trail_of_slice htraces hslice hlt with
    ⟨front, a, part, back, b, htrail, hshown, -, hspan, -⟩
  -- the first trail is the source itself
  have htrail : located id 0 source = front ++ (a :: part ++ back) := by
    rw [← List.append_assoc]
    exact htrail
  rcases exists_append_of_located htrail with ⟨passed, ahead, hsource, -, hahead⟩
  have hchars : ahead = t.lexeme ++ back.map (·.2) := by
    have hmap := congrArg (List.map (·.2)) hahead
    rw [map_snd_located, List.map_append] at hmap
    rw [← hshown]
    exact hmap.symm
  have hstart : a.1 = byteLen passed := by
    rw [List.map_id, Nat.zero_add] at hahead
    cases ahead with
    | nil => cases hahead
    | cons d ahead => exact congrArg Prod.fst (List.cons.inj hahead).1
  obtain ⟨body, hbody⟩ : ∃ body, t.lexeme = '/' :: '*' :: body := by
    unfold Diagnostic.isOpenComment at hopen
    split at hopen
    · rename_i body heq
      exact ⟨body, heq⟩
    · cases hopen
  refine ⟨passed, ['/', '*'], body ++ back.map (·.2), '/', ?_, rfl, by decide, ?_⟩
  · rw [hsource, hchars, hbody]
    simp
  · rw [Passage.rawSpan, hspan, byteLen_append]
    dsimp only
    rw [hstart]
    rfl

/-- What is wrong with a source is seen there. -/
theorem marks_of_mem_sightings (hprofile : profile.IsBuilt)
    (htraced : ∀ r ∈ passages, r.Traced source profile) {s : Diagnostic.Sighting}
    (h : s ∈ Diagnostic.sightings passages) : s.2.2.Marks source := by
  have hfound : ∀ {target : Layer} {r : Passage},
      r ∈ (passages.find? (·.layer = target)).toList →
        r.Traced source profile ∧ r.layer = target := by
    intro target r hr
    rw [Option.mem_toList] at hr
    exact ⟨htraced r (List.mem_of_find?_eq_some hr), by simpa using List.find?_some hr⟩
  unfold Diagnostic.sightings at h
  rcases List.mem_append.1 h with h | h
  · rcases List.mem_append.1 h with h | h
    · rcases List.mem_flatMap.1 h with ⟨r, hr, h⟩
      rcases List.mem_map.1 h with ⟨t, ht, rfl⟩
      rcases List.mem_filter.1 ht with ⟨ht, hopen⟩
      rw [Bool.and_eq_true] at hopen
      rcases hfound hr with ⟨hr, hlayer⟩
      exact hr.marks_opening hprofile hlayer ht hopen.2
    · rcases List.mem_flatMap.1 h with ⟨r, hr, h⟩
      rcases List.mem_map.1 h with ⟨t, ht, rfl⟩
      rcases List.mem_filter.1 ht with ⟨ht, hempty⟩
      rw [Bool.and_eq_true, decide_eq_true_eq, decide_eq_true_eq] at hempty
      rcases hfound hr with ⟨hr, -⟩
      have hhead : t.lexeme.head? = some '\'' := by rw [hempty.2]; rfl
      exact hr.marks hprofile ht hhead (by decide)
  · rcases List.mem_flatMap.1 h with ⟨r, hr, h⟩
    rcases List.mem_filterMap.1 h with ⟨t, ht, h⟩
    rcases Option.map_eq_some_iff.1 h with ⟨flaw, -, rfl⟩
    rcases List.mem_filter.1 ht with ⟨ht, hunknown⟩
    rw [decide_eq_true_eq] at hunknown
    rcases hfound hr with ⟨hr, hlayer⟩
    rcases hr.exists_head_of_unknown hlayer ht hunknown with ⟨c, hhead, hc⟩
    exact hr.marks hprofile ht hhead hc

/-! ## Diagnostics -/

theorem exists_of_mem_mapM {α β ε : Type} {f : α → Except ε β} {as : List α} {bs : List β} {b : β}
    (h : as.mapM f = .ok bs) (hb : b ∈ bs) : ∃ a ∈ as, f a = .ok b := by
  induction as generalizing bs with
  | nil =>
    cases h
    cases hb
  | cons a as ih =>
    rw [List.mapM_cons] at h
    cases hfirst : f a with
    | error e =>
      rw [hfirst] at h
      cases h
    | ok first =>
      cases hrest : as.mapM f with
      | error e =>
        rw [hfirst, hrest] at h
        cases h
      | ok rest =>
        rw [hfirst, hrest] at h
        cases h
        rcases List.mem_cons.1 hb with rfl | hb
        · exact ⟨a, List.mem_cons_self, hfirst⟩
        · rcases ih hrest hb with ⟨a', ha', hok⟩
          exact ⟨a', List.mem_cons_of_mem a ha', hok⟩

/-- A diagnostic without its line and column. -/
def Diagnostic.sighting (d : Diagnostic) : Diagnostic.Sighting := (d.flaw, d.layer, d.span)

/-- A diagnostic is a sighting with the line and the column of its start. -/
theorem locate_eq_ok {index : LineIndex} {s : Diagnostic.Sighting} {d : Diagnostic}
    (h : Diagnostic.locate index s = .ok d) :
    d.sighting = s ∧ ∃ position, index.positionAt d.span.start = .ok position ∧
      d.line = position.line ∧ d.column = position.column := by
  unfold Diagnostic.locate at h
  cases hposition : index.positionAt s.2.2.start with
  | error fault =>
    simp only [hposition] at h
    cases h
  | ok position =>
    simp only [hposition] at h
    cases h
    exact ⟨rfl, position, hposition, rfl, rfl⟩

theorem map_of_mapM {α β ε : Type} {f : α → Except ε β} {g : β → α} {as : List α} {bs : List β}
    (hg : ∀ a b, f a = .ok b → g b = a) (h : as.mapM f = .ok bs) : bs.map g = as := by
  induction as generalizing bs with
  | nil =>
    cases h
    rfl
  | cons a as ih =>
    rw [List.mapM_cons] at h
    cases hfirst : f a with
    | error e =>
      rw [hfirst] at h
      cases h
    | ok first =>
      cases hrest : as.mapM f with
      | error e =>
        rw [hfirst, hrest] at h
        cases h
      | ok rest =>
        rw [hfirst, hrest] at h
        cases h
        rw [List.map_cons, hg a first hfirst, ih hrest]

/-- The diagnostics are the sightings in the order of the source, each with its position. -/
theorem ofPassages_eq_ok {index : LineIndex} (h : Diagnostic.ofPassages index passages = .ok ds) :
    (ds.map Diagnostic.sighting).Perm (Diagnostic.sightings passages) ∧
      ds.Pairwise (fun a b => a.span.le b.span = true) ∧
      ∀ d ∈ ds, ∃ position, index.positionAt d.span.start = .ok position ∧
        d.line = position.line ∧ d.column = position.column := by
  unfold Diagnostic.ofPassages at h
  cases hlocated : (Diagnostic.sightings passages).mapM (Diagnostic.locate index) with
  | error fault =>
    rw [hlocated] at h
    cases h
  | ok found =>
    rw [hlocated] at h
    cases h
    refine ⟨?_, ?_, ?_⟩
    · rw [← map_of_mapM (fun s d hd => (locate_eq_ok hd).1) hlocated]
      exact (List.mergeSort_perm _ _).map _
    · exact List.pairwise_mergeSort (fun a b c => Span.le_trans a.span b.span c.span)
        (fun a b => Span.le_total a.span b.span) _
    · intro d hd
      rcases exists_of_mem_mapM hlocated (List.mem_mergeSort.1 hd) with ⟨s, -, hlocate⟩
      exact (locate_eq_ok hlocate).2

/-- Each diagnostic is about the span of a sighting. -/
theorem exists_sighting_of_mem {index : LineIndex} {d : Diagnostic}
    (h : Diagnostic.ofPassages index passages = .ok ds) (hd : d ∈ ds) :
    ∃ s ∈ Diagnostic.sightings passages, d.span = s.2.2 :=
  ⟨d.sighting, (ofPassages_eq_ok h).1.mem_iff.1 (List.mem_map_of_mem hd), rfl⟩

/-- The steps of an outcome are those of a run, and its diagnostics are read off them. -/
theorem ofText_eq_ok (h : Outcome.ofText source profile = .ok o) :
    o.source = source ∧
      (∃ last, (Progress.start source profile).runRemaining = .ok (o.passages, last)) ∧
      Diagnostic.ofPassages (LineIndex.ofText source) o.passages = .ok o.diagnostics := by
  rcases exists_run_of_ofText h with ⟨passages, last, diagnostics, hrun, hdiagnostics, rfl⟩
  exact ⟨rfl, ⟨last, hrun⟩, hdiagnostics⟩

/-- Each diagnostic is an error or a warning. -/
theorem countOf_add_countOf (ds : List Diagnostic) :
    Diagnostic.countOf .error ds + Diagnostic.countOf .warning ds = ds.length := by
  unfold Diagnostic.countOf
  rw [List.length_eq_countP_add_countP fun d : Diagnostic => d.flaw.severity = .error]
  congr 2
  funext d
  cases d.flaw.severity <;> rfl

/-! ## Reports -/

/-- Everything that can be said about an outcome is said. Tokens are slices of the text swept over
and cover parts of the source; tokens and diagnostics stand on lines and in columns; carets fit
under what a diagnostic is about; and so no report and no screen fails. -/
structure Outcome.Faultless (o : Outcome) : Prop where
  slices : ∀ r ∈ o.passages, Sliced r.input r.sweep.tokens ∧ r.SpansSource o.source
  tokens : ∀ r ∈ o.passages, ∀ t ∈ r.sweep.tokens, o.lineIndex.Finds (r.rawSpan t).start
  diagnostics : ∀ d ∈ o.diagnostics, o.lineIndex.Finds d.span.start ∧
    o.lineIndex.Finds d.span.stop ∧ o.lineIndex.CanShow d.span
  counts : o.errorCount + o.warningCount = o.diagnostics.length
  excerpts : ∃ text, Diagnostic.excerpts o.lineIndex o.diagnostics = .ok text
  report : ∀ stamp only, ∃ json, o.report stamp only = .ok json
  screen : ∀ only, ∃ text, o.screen only = .ok text

/-- Where all spans can be shown, the diagnostics are. -/
theorem exists_excerpts {index : LineIndex} {ds : List Diagnostic}
    (h : ∀ d ∈ ds, index.CanShow d.span) : ∃ text, Diagnostic.excerpts index ds = .ok text := by
  have hparts : ∀ d ∈ ds, ∃ part,
      (do return (← d.excerpt index) ++ "\n" : Except Fault String) = .ok part := by
    intro d hd
    rcases (h d hd).exists_excerpt d.label d.flaw.message with ⟨excerpt, hexcerpt⟩
    exact ⟨excerpt ++ "\n", by rw [Diagnostic.excerpt, hexcerpt]; rfl⟩
  rcases exists_mapM hparts with ⟨parts, hparts⟩
  exact ⟨_, by rw [Diagnostic.excerpts, hparts]; rfl⟩

/-- Where all tokens are found, a step is reported. -/
theorem Passage.exists_toJson {index : LineIndex}
    (h : ∀ t ∈ r.sweep.tokens, index.Finds (r.rawSpan t).start) :
    ∃ json, r.toJson index = .ok json := by
  have htokens : ∀ t ∈ r.sweep.tokens, ∃ json, r.tokenJson index t = .ok json := by
    intro t ht
    rcases h t ht with ⟨-, -, position, -, -, hposition, -⟩
    exact ⟨_, by simp only [Passage.tokenJson, hposition]; rfl⟩
  rcases exists_mapM htokens with ⟨tokens, htokens⟩
  exact ⟨_, by rw [Passage.toJson, htokens]; rfl⟩

/-- Where all tokens are found, a step is shown. -/
theorem Passage.exists_screen {index : LineIndex}
    (h : ∀ t ∈ r.sweep.tokens, index.Finds (r.rawSpan t).start) :
    ∃ text, r.screen index = .ok text := by
  unfold Passage.screen
  split
  · exact ⟨_, rfl⟩
  · have hrows : ∀ t ∈ r.sweep.tokens, ∃ row, (do
        let position ← index.positionAt (r.rawSpan t).start
        return tokenRow t.kind.label (shownLexeme t.lexeme) position.render : Except Fault String) =
          .ok row := by
      intro t ht
      rcases h t ht with ⟨-, -, position, -, -, hposition, -⟩
      exact ⟨_, by rw [hposition]; rfl⟩
    rcases exists_mapM hrows with ⟨rows, hrows⟩
    exact ⟨_, by simp only [hrows]; rfl⟩

/-- An outcome is faultless if its steps are those of its source and its diagnostics are seen
there. -/
theorem faultless_of_traced (hprofile : profile.IsBuilt) (hsize : byteLen o.source < 4294967295)
    (htraced : ∀ r ∈ o.passages, r.Traced o.source profile)
    (hmarks : ∀ d ∈ o.diagnostics, d.span.Marks o.source) : o.Faultless := by
  have htokens : ∀ r ∈ o.passages, ∀ t ∈ r.sweep.tokens,
      o.lineIndex.Finds (r.rawSpan t).start := by
    intro r hr t ht
    exact finds_of_isBoundary hsize (((htraced r hr).spansSource hprofile).bounds t ht).2.2.1
  have hshown : ∀ {only : Option Layer} {r : Passage}, r ∈ o.shown only → r ∈ o.passages :=
    fun hr => (List.mem_filter.1 hr).1
  have hexcerpts : ∃ text, Diagnostic.excerpts o.lineIndex o.diagnostics = .ok text :=
    exists_excerpts fun d hd => (hmarks d hd).canShow hsize
  refine ⟨?_, htokens, ?_, countOf_add_countOf o.diagnostics, hexcerpts, ?_, ?_⟩
  · intro r hr
    exact ⟨(htraced r hr).sliced hprofile, (htraced r hr).spansSource hprofile⟩
  · intro d hd
    have hmarks := hmarks d hd
    exact ⟨finds_of_isBoundary hsize hmarks.isBoundary.1,
      finds_of_isBoundary hsize hmarks.isBoundary.2, hmarks.canShow hsize⟩
  · intro stamp only
    have hsteps : ∀ r ∈ o.shown only, ∃ json, r.toJson o.lineIndex = .ok json :=
      fun r hr => Passage.exists_toJson (htokens r (hshown hr))
    rcases exists_mapM hsteps with ⟨steps, hsteps⟩
    exact ⟨_, by rw [Outcome.report, hsteps]; rfl⟩
  · intro only
    have hsteps : ∀ r ∈ o.shown only, ∃ text,
        (r.screen o.lineIndex).map (· ++ "\n") = .ok text := by
      intro r hr
      rcases Passage.exists_screen (htokens r (hshown hr)) with ⟨text, htext⟩
      exact ⟨text ++ "\n", by rw [htext]; rfl⟩
    have hdiagnostics : ∃ text, o.diagnosticsScreen = .ok text := by
      unfold Outcome.diagnosticsScreen
      split
      · exact ⟨"", rfl⟩
      · rcases hexcerpts with ⟨text, htext⟩
        exact ⟨text ++ "\n", by rw [htext]; rfl⟩
    rcases exists_mapM hsteps with ⟨steps, hsteps⟩
    rcases hdiagnostics with ⟨diagnostics, hdiagnostics⟩
    exact ⟨_, by rw [Outcome.screen, hsteps, hdiagnostics]; rfl⟩

/-- However long its steps took, an outcome has the same steps. -/
theorem traced_of_mem_stamped {nanos : Nat} (h : r ∈ (o.stamped nanos).passages)
    (htraced : ∀ r ∈ o.passages, r.Traced source profile) : r.Traced source profile := by
  rcases List.mem_map.1 h with ⟨s, hs, rfl⟩
  exact htraced s hs

/-- Every source of less than 4 GiB has an outcome about which everything can be said, whatever the
keywords and symbols are and however long it took. All scans on the way move on as long as there is
text ahead. -/
theorem exists_faultless_outcome (source : Text) (name : String) (keywords : KeywordTable)
    (symbols : List SymbolEntry) (hsize : byteLen source < 4294967295) :
    (Advances commentStep source ∧ Advances layoutStep (textAt source .uncommented) ∧
      ∀ text, Advances literalStep text ∧
        Advances (constantStep (Literals.ofText text).ranges) text ∧
        Advances (wordStep (Literals.ofText text).all keywords) text ∧
        Advances (symbolStep (Literals.ofText text).all (.ofList symbols)) text) ∧
      ∃ o, Outcome.ofText source ⟨name, keywords, .ofList symbols⟩ = .ok o ∧
        ∀ nanos, (o.stamped nanos).Faultless := by
  have hprofile : Profile.IsBuilt ⟨name, keywords, .ofList symbols⟩ := ⟨symbols, rfl⟩
  refine ⟨⟨advances_commentStep source, advances_layoutStep _, fun text =>
    ⟨advances_literalStep text, advances_constantStep text _,
      advances_wordStep keywords (endsIn_literals text),
      advances_symbolStep symbols (endsIn_literals text)⟩⟩, ?_⟩
  rcases exists_outcome source hprofile with ⟨o, -, hok, -, -⟩
  rcases ofText_eq_ok hok with ⟨hsource, ⟨last, hrun⟩, hdiagnostics⟩
  have htraced := traced_of_reachable hprofile (Reachable.start.runRemaining hrun)
  rw [List.nil_append] at htraced
  refine ⟨o, hok, fun nanos => ?_⟩
  apply faultless_of_traced hprofile
  · exact hsource ▸ hsize
  · intro r hr
    exact hsource ▸ traced_of_mem_stamped hr htraced
  · intro d hd
    rcases exists_sighting_of_mem hdiagnostics hd with ⟨s, hs, hspan⟩
    rw [hspan]
    exact hsource ▸ marks_of_mem_sightings hprofile htraced hs

/-- A character that no table knows, behind a comment that is never closed and holds line breaks, is
a diagnostic on one line and half of another. -/
theorem exists_faultless_outcome_open_comment :
    ∃ o, Outcome.ofText ['\'', '\'', '@', '\r', '\n', '/', '*', 'é', '\n'] ⟨"", .cpp, .ofList []⟩ =
      .ok o ∧ ∀ nanos, (o.stamped nanos).Faultless :=
  (exists_faultless_outcome ['\'', '\'', '@', '\r', '\n', '/', '*', 'é', '\n'] "" .cpp []
    (by decide)).2

end Strata
