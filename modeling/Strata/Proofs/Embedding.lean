import Strata.Proofs.Origin

/-!
# The text of every state is embedded in the source

Wherever requests lead, each byte of the text comes from a byte of the source: from the same byte,
or from a byte of layout that became a space. Bytes come in order, and none comes from a comment. So
each token of each step covers a part of the source, and for the tokens of the later steps that part
says what the token says once its comments are gone and its runs of layout are collapsed.

* `Progress.Embeds`, `Passage.SpansSource`: what holds of a state and of a step;
* `exists_trail_of_slice`: the part of the trail that a token covers;
* `exists_raw_of_strippedTrail`, `exists_raw_of_trail`: the part of the source that it comes from;
* `reachable_embeds`: what holds wherever requests lead.
-/

namespace Strata

variable {source lexeme : Text} {profile : Profile} {p : Progress} {layer : Layer} {m : OffsetMap}
  {span : Span}

/-! ## Bytes -/

/-- The bytes that layout is made of: blanks, tabs, line breaks and form feeds. -/
def layoutBytes : List UInt8 := [0x20, 0x09, 0x0A, 0x0D, 0x0C]

/-- A character of layout is a single byte. -/
theorem exists_layoutByte {c : Char} (h : isLayout c = true) :
    ∃ b ∈ layoutBytes, String.utf8EncodeChar c = [b] := by
  rcases eq_of_isLayout h with rfl | rfl | rfl | rfl | rfl
  · exact ⟨0x20, by decide, by decide⟩
  · exact ⟨0x09, by decide, by decide⟩
  · exact ⟨0x0A, by decide, by decide⟩
  · exact ⟨0x0D, by decide, by decide⟩
  · exact ⟨0x0C, by decide, by decide⟩

/-- A byte of the character that stands for a character is a byte of it, or a space for layout. -/
theorem getElem?_shownAt (layer : Layer) {c : Char} {j : Nat} (hj : j < c.utf8Size) :
    (String.utf8EncodeChar (shownAt layer c))[j]? = (String.utf8EncodeChar c)[j]? ∨
      (String.utf8EncodeChar (shownAt layer c))[j]? = some 0x20 ∧
        ∃ b ∈ layoutBytes, (String.utf8EncodeChar c)[j]? = some b := by
  have hspaced : (String.utf8EncodeChar (spaced c))[j]? = (String.utf8EncodeChar c)[j]? ∨
      (String.utf8EncodeChar (spaced c))[j]? = some 0x20 ∧
        ∃ b ∈ layoutBytes, (String.utf8EncodeChar c)[j]? = some b := by
    cases hc : isLayout c with
    | false =>
      left
      simp [spaced, hc]
    | true =>
      right
      rcases exists_layoutByte hc with ⟨b, hb, hbytes⟩
      rw [utf8Size_of_isLayout hc] at hj
      -- layout is one byte, and so is the space that it becomes
      obtain rfl : j = 0 := by omega
      refine ⟨?_, b, hb, by rw [hbytes]; rfl⟩
      simp only [spaced, hc, if_true]
      decide
  cases layer with
  | raw | uncommented => exact Or.inl rfl
  | _ => exact hspaced

/-! ## The map along a trail -/

/-- Each byte of the text of a layer belongs to a character of the trail. -/
theorem exists_of_lt_byteLen {i : Nat}
    (h : m.Traces (trailBytes (trailAt source layer)) (byteLen source))
    (hi : i < byteLen (textAt source layer)) :
    ∃ x ∈ trailAt source layer, ∃ j, j < x.2.utf8Size ∧ m.toSource i = x.1 + j ∧
      (encodeUtf8 (textAt source layer))[i]? = (String.utf8EncodeChar (shownAt layer x.2))[j]? ∧
      (encodeUtf8 source)[x.1 + j]? = (String.utf8EncodeChar x.2)[j]? := by
  rw [← length_trailBytes_trailAt, length_trailBytes] at hi
  rcases exists_located hi with ⟨z, hz, j, hj, rfl⟩
  have hmem : z.2 ∈ trailAt source layer := by
    have := List.mem_map_of_mem (f := (·.2)) hz
    rwa [map_snd_located] at this
  refine ⟨z.2, hmem, j, hj, h.toSource_of_located hz hj, ?_, ?_⟩
  · rw [encodeUtf8, textAt_eq_map, List.flatMap_map]
    exact getElem?_flatMap_of_located (fun x => by simp [utf8Size_shownAt]) hz hj
  · have hlocated : z.2 ∈ located id 0 source := (sublist_trailAt source layer).subset hmem
    exact getElem?_flatMap_of_located String.length_utf8EncodeChar hlocated hj

/-- The map of a layer leads later offsets to later ones. -/
theorem toSource_lt {i j : Nat} (h : m.Traces (trailBytes (trailAt source layer)) (byteLen source))
    (hij : i < j) (hj : j < byteLen (textAt source layer)) : m.toSource i < m.toSource j := by
  have hincreasing := List.pairwise_lt_range.sublist (sublist_trailBytes source layer)
  rw [← length_trailBytes_trailAt] at hj
  have hfirst := h.toSource i (by omega)
  have hsecond := h.toSource j hj
  rw [List.getElem?_eq_getElem (by omega)] at hfirst hsecond
  rw [← Option.some.inj hfirst, ← Option.some.inj hsecond]
  exact List.pairwise_iff_getElem.1 hincreasing i j _ _ hij

/-- The text is embedded in the source: the lengths of the map are those of the two texts, each byte
comes from the same byte of the source or is a space that comes from layout, bytes come in order,
and once comments are gone none comes from a comment. -/
structure Progress.Embeds (source : Text) (p : Progress) : Prop where
  outLen_eq : p.origin.outLen = byteLen p.text
  inLen_eq : p.origin.inLen = byteLen source
  lt : ∀ i, i < byteLen p.text → p.origin.toSource i < byteLen source
  outside : p.layer ≠ .raw → ∀ i, i < byteLen p.text →
    ∀ k ∈ (stripComments source).tokens, k.kind = .comment →
      k.span.contains (p.origin.toSource i) = false
  faithful : ∀ i, i < byteLen p.text →
    (encodeUtf8 source)[p.origin.toSource i]? = (encodeUtf8 p.text)[i]? ∨
      (encodeUtf8 p.text)[i]? = some 0x20 ∧
        ∃ b ∈ layoutBytes, (encodeUtf8 source)[p.origin.toSource i]? = some b
  increasing : ∀ i j, i < j → j < byteLen p.text → p.origin.toSource i < p.origin.toSource j

/-- A map along the trail of a layer embeds the text of the layer. -/
theorem embeds_of_traces (htext : p.text = textAt source p.layer)
    (h : p.origin.Traces (trailBytes (trailAt source p.layer)) (byteLen source)) :
    p.Embeds source where
  outLen_eq := by rw [h.outLen_eq, htext, length_trailBytes_trailAt]
  inLen_eq := h.inLen_eq
  lt := by
    intro i hi
    rw [htext] at hi
    rcases exists_of_lt_byteLen h hi with ⟨x, hx, j, hj, hsource, -, -⟩
    have := (bounds_of_mem_located ((sublist_trailAt source p.layer).subset hx)).2
    rw [List.map_id] at this
    simp only [id_eq] at this
    omega
  outside := by
    intro hlayer i hi
    rw [htext] at hi
    rcases exists_of_lt_byteLen h hi with ⟨x, hx, j, hj, hsource, -, -⟩
    rw [hsource, ← isOutsideComments_eq_true]
    exact isOutsideComments_of_mem_strippedTrail ((sublist_trailAt_of_ne_raw hlayer).subset hx) hj
  faithful := by
    intro i hi
    rw [htext] at hi ⊢
    rcases exists_of_lt_byteLen h hi with ⟨x, hx, j, hj, hsource, hshown, hraw⟩
    rw [hsource, hshown, hraw]
    rcases getElem?_shownAt p.layer hj with hsame | hspace
    · exact Or.inl hsame.symm
    · exact Or.inr hspace
  increasing := by
    intro i j hij hj
    rw [htext] at hj
    exact toSource_lt h hij hj

/-! ## The parts that tokens cover -/

/-- A map along a trail leads from each byte of a character to the source. -/
theorem toSource_eq_of_trail {front back : List (Nat × Char)} {x : Nat × Char} {j : Nat}
    (h : m.Traces (trailBytes (trailAt source layer)) (byteLen source))
    (htrail : trailAt source layer = front ++ x :: back) (hj : j < x.2.utf8Size) :
    m.toSource (byteLen (front.map (·.2)) + j) = x.1 + j := by
  have hsplit : trailBytes (trailAt source layer) =
      trailBytes front ++ (List.range' x.1 x.2.utf8Size ++ trailBytes back) := by
    rw [htrail]
    simp [trailBytes]
  have hlt : (trailBytes front).length + j < (trailBytes (trailAt source layer)).length := by
    rw [hsplit, List.length_append, List.length_append, List.length_range']
    omega
  have hread := h.toSource _ hlt
  rw [hsplit, List.getElem?_append_right (Nat.le_add_right _ _), Nat.add_sub_cancel_left,
    List.getElem?_append_left (by rw [List.length_range']; exact hj), List.getElem?_range' hj,
    Nat.one_mul, length_trailBytes] at hread
  exact (Option.some.inj hread).symm

/-- A span that is not empty comes from the source between its first byte and its last. -/
theorem spanToSource_eq (hlt : span.start < span.stop)
    (hle : m.toSource span.start ≤ m.toSource (span.stop - 1)) :
    m.spanToSource span = ⟨m.toSource span.start, m.toSource (span.stop - 1) + 1⟩ := by
  have hfull : span.isEmpty = false := by
    simp only [Span.isEmpty, decide_eq_false_iff_not]
    omega
  unfold OffsetMap.spanToSource
  rw [hfull]
  simp only [Bool.false_eq_true, if_false]
  rw [Nat.max_eq_left (by omega)]

theorem toSource_le {i j : Nat} (h : m.Traces (trailBytes (trailAt source layer)) (byteLen source))
    (hij : i ≤ j) (hj : j < byteLen (textAt source layer)) : m.toSource i ≤ m.toSource j := by
  rcases Nat.eq_or_lt_of_le hij with rfl | hlt
  · exact Nat.le_refl _
  · exact Nat.le_of_lt (toSource_lt h hlt hj)

/-- A part of the text of a layer is made from a part of its trail, and comes from the source
between the ends of that. -/
theorem exists_trail_of_slice
    (h : m.Traces (trailBytes (trailAt source layer)) (byteLen source))
    (hslice : slice (textAt source layer) span = .ok lexeme) (hlt : span.start < span.stop) :
    ∃ front a part back b, trailAt source layer = front ++ a :: part ++ back ∧
      ((a :: part).map fun x => shownAt layer x.2) = lexeme ∧ (a :: part).getLast? = some b ∧
      m.spanToSource span = ⟨a.1, b.1 + b.2.utf8Size⟩ ∧ a.1 < b.1 + b.2.utf8Size := by
  rcases slice_eq_ok.1 hslice with ⟨before, after, htext, hstart, hstop⟩
  have hlen := stop_le_of_slice hslice
  have hmap := (textAt_eq_map source layer).symm.trans htext
  -- each character of the trail shows as one of the text, so the trail splits where the text does
  rcases List.map_eq_append_iff.1 hmap with ⟨taken, back, htrail, htaken, -⟩
  rcases List.map_eq_append_iff.1 htaken with ⟨front, covered, rfl, rfl, rfl⟩
  rw [byteLen_map_shownAt] at hstart hstop
  rcases List.eq_nil_or_concat covered with rfl | ⟨init, b, hb⟩
  · rw [List.map_nil, byteLen_nil] at hstop
    omega
  rw [List.concat_eq_append] at hb
  rcases List.exists_cons_of_ne_nil (l := covered) (by simp [hb]) with ⟨a, part, ha⟩
  have hbpos := Char.utf8Size_pos b.2
  have hfirst : m.toSource span.start = a.1 := by
    have hsplit : trailAt source layer = front ++ a :: (part ++ back) := by
      rw [htrail, ha]
      simp
    have hread := toSource_eq_of_trail h hsplit (Char.utf8Size_pos a.2)
    rwa [hstart, Nat.add_zero, Nat.add_zero] at hread
  have hlast : m.toSource (span.stop - 1) + 1 = b.1 + b.2.utf8Size := by
    have hsplit : trailAt source layer = (front ++ init) ++ b :: back := by
      rw [htrail, hb]
      simp
    have hread := toSource_eq_of_trail (j := b.2.utf8Size - 1) h hsplit (by omega)
    have hindex : byteLen ((front ++ init).map (·.2)) + (b.2.utf8Size - 1) = span.stop - 1 := by
      rw [hstop, ← hstart, hb]
      simp only [List.map_append, byteLen_append, List.map_cons, List.map_nil, byteLen_cons,
        byteLen_nil]
      omega
    rw [hindex] at hread
    omega
  have hle : m.toSource span.start ≤ m.toSource (span.stop - 1) :=
    toSource_le h (by omega) (by omega)
  refine ⟨front, a, part, back, b, by rw [htrail, ha], by rw [ha], ?_, ?_, by omega⟩
  · rw [← ha, hb, List.getLast?_concat]
  · rw [spanToSource_eq hlt hle, hfirst, hlast]

/-! ## What stands there in the source -/

/-- A part of the source that starts at an offset, without the comments in it. -/
def withoutComments (source : Text) (offset : Nat) (t : Text) : Text :=
  ((located id offset t).filter fun x => isOutsideComments source x.1).map (·.2)

/-- Characters of the source stand between boundaries. -/
theorem isBoundary_of_mem_located {x : Nat × Char} (hx : x ∈ located id 0 source) :
    isBoundary source x.1 = true ∧ isBoundary source (x.1 + x.2.utf8Size) = true := by
  rcases mem_located hx with ⟨front, back, hsource, hstart⟩
  rw [List.map_id] at hstart
  constructor
  · exact isBoundary_eq_true.2 ⟨front, x.2 :: back, hsource, hstart.symm⟩
  · refine isBoundary_eq_true.2 ⟨front ++ [x.2], back, by rw [hsource]; simp, ?_⟩
    rw [byteLen_append, hstart]
    rfl

/-- A part of the first trail comes from a part of the source with the same ends, which holds
nothing else but comments. -/
theorem exists_raw_of_strippedTrail {front part back : List (Nat × Char)} {a b : Nat × Char}
    (htrail : strippedTrail source = front ++ a :: part ++ back)
    (hlast : (a :: part).getLast? = some b) :
    ∃ raw, slice source ⟨a.1, b.1 + b.2.utf8Size⟩ = .ok raw ∧
      withoutComments source a.1 raw = (a :: part).map (·.2) := by
  rcases exists_filter_eq_strippedTrail source with ⟨cut, hfilter⟩
  have hpart : (located id 0 source).filter (fun x => isOutsideComments source x.1) =
      front ++ a :: part ++ (back ++ cut) := by
    rw [hfilter, htrail]
    simp
  rcases exists_part_of_filter hpart with ⟨front', full, back', hlocated, hfull, hfulllast⟩
  rcases exists_append_of_located hlocated with ⟨taken, last, hsource, htaken, -⟩
  rcases exists_append_of_located htaken.symm with ⟨first, raw, rfl, hfirst, hraw⟩
  rw [List.map_id, Nat.zero_add] at hraw
  have hstart : a.1 = byteLen first := by
    cases raw with
    | nil => cases hraw
    | cons c raw => exact congrArg Prod.fst (List.cons.inj hraw).1
  have hstop : b.1 + b.2.utf8Size = a.1 + byteLen raw := by
    have hend := stop_of_getLast?_located (hraw ▸ hfulllast.trans hlast)
    rw [List.map_id] at hend
    rw [hstart]
    exact hend
  refine ⟨raw, slice_eq_ok.2 ⟨first, last, hsource, hstart.symm, hstop⟩, ?_⟩
  rw [withoutComments, hstart, ← hraw, hfull]

/-- A part of the last trail comes from a part of the source with the same ends, which holds nothing
else but comments and layout that goes on. -/
theorem exists_raw_of_trail {front part back : List (Nat × Char)} {a b : Nat × Char}
    (htrail : trailAt source .condensed = front ++ a :: part ++ back)
    (hlast : (a :: part).getLast? = some b) :
    ∃ raw, slice source ⟨a.1, b.1 + b.2.utf8Size⟩ = .ok raw ∧
      collapse (withoutComments source a.1 raw) = (a :: part).map fun x => spaced x.2 := by
  rcases exists_squeeze_eq_trailAt source with ⟨before, after, hsqueeze⟩
  rw [htrail] at hsqueeze
  -- the part before runs of layout were squeezed
  have hpart : squeeze (fun x => x.2) (strippedTrail source) =
      (before ++ front) ++ a :: part ++ (back ++ after) := by
    rw [hsqueeze]
    simp
  rcases exists_part_of_squeeze hpart with ⟨front', wide, back', hstripped, hwide, hwidelast⟩
  -- and before the comments in it were deleted
  rcases exists_raw_of_strippedTrail hstripped (hwidelast.trans hlast) with ⟨raw, hslice, hraw⟩
  refine ⟨raw, hslice, ?_⟩
  rw [hraw, collapse, collapseAfter_map]
  exact congrArg (List.map fun x => spaced x.2) hwide

/-! ## Steps -/

/-- Each token of a step covers a part of the source. These parts are not empty, stand between
boundaries, in order and apart. From the fourth layer on, a part says what its token says once
comments are deleted and runs of layout are collapsed. -/
structure Passage.SpansSource (source : Text) (r : Passage) : Prop where
  bounds : ∀ t ∈ r.sweep.tokens, (r.rawSpan t).start < (r.rawSpan t).stop ∧
    (r.rawSpan t).stop ≤ byteLen source ∧ isBoundary source (r.rawSpan t).start = true ∧
      isBoundary source (r.rawSpan t).stop = true
  apart : r.sweep.tokens.Pairwise fun s t => (r.rawSpan s).stop ≤ (r.rawSpan t).start
  lexemes : Layer.constants.ordinal ≤ r.layer.ordinal → ∀ t ∈ r.sweep.tokens,
    ∃ raw, slice source (r.rawSpan t) = .ok raw ∧
      collapse (withoutComments source (r.rawSpan t).start raw) = t.lexeme

/-- Slices of the text of a layer stand apart in the source, too. -/
theorem spanToSource_apart {s t : Token}
    (h : m.Traces (trailBytes (trailAt source layer)) (byteLen source))
    (hs : s.span.start < s.span.stop) (ht : t.span.start < t.span.stop)
    (hin : t.span.stop ≤ byteLen (textAt source layer)) (hst : s.span.stop ≤ t.span.start) :
    (m.spanToSource s.span).stop ≤ (m.spanToSource t.span).start := by
  have hsle := toSource_le h (show s.span.start ≤ s.span.stop - 1 by omega) (by omega)
  have htle := toSource_le h (show t.span.start ≤ t.span.stop - 1 by omega) (by omega)
  rw [spanToSource_eq hs hsle, spanToSource_eq ht htle]
  exact toSource_lt h (by omega) (by omega)

/-- Slices of the text of a layer, found on the way to the next, cover parts of the source. -/
theorem spansSource_of_traces {next : Layer} {sweep : Sweep}
    (h : m.Traces (trailBytes (trailAt source layer)) (byteLen source))
    (hnext : layer.next? = some next) (hsliced : Sliced (textAt source layer) sweep.tokens) :
    Passage.SpansSource source ⟨next, textAt source layer, sweep, m, 0⟩ where
  bounds := by
    intro t ht
    rcases hsliced.slices t ht with ⟨hlt, hslice⟩
    rcases exists_trail_of_slice h hslice hlt with
      ⟨front, a, part, back, b, htrail, -, hlast, hspan, hne⟩
    have hsource := sublist_trailAt source layer
    rw [htrail] at hsource
    have ha : a ∈ located id 0 source := hsource.subset (by simp)
    have hb : b ∈ located id 0 source :=
      hsource.subset (List.mem_append_left _ (List.mem_append_right _ (List.mem_of_getLast? hlast)))
    have hstop := (isBoundary_of_mem_located hb).2
    rw [Passage.rawSpan, hspan]
    exact ⟨hne, le_byteLen_of_isBoundary hstop, (isBoundary_of_mem_located ha).1, hstop⟩
  apart := by
    apply hsliced.apart.imp_of_mem
    intro s t hs ht hst
    rcases hsliced.slices s hs with ⟨hslt, -⟩
    rcases hsliced.slices t ht with ⟨htlt, hslice⟩
    exact spanToSource_apart h hslt htlt (stop_le_of_slice hslice) hst
  lexemes := by
    intro hlayer t ht
    rcases hsliced.slices t ht with ⟨hlt, hslice⟩
    rcases exists_trail_of_slice h hslice hlt with
      ⟨front, a, part, back, b, htrail, hshown, hlast, hspan, -⟩
    -- from the step to the fourth layer on, the text is the one that the second sweep left
    have hcondensed : trailAt source layer = trailAt source .condensed ∧
        shownAt layer = spaced := by
      have hordinal : Layer.constants.ordinal ≤ layer.ordinal + 1 := by
        rw [← Layer.ordinal_next hnext]
        exact hlayer
      cases layer with
      | raw | uncommented => exact absurd hordinal (by decide)
      | _ => exact ⟨rfl, rfl⟩
    rw [hcondensed.1] at htrail
    rw [hcondensed.2] at hshown
    rcases exists_raw_of_trail htrail hlast with ⟨raw, hraw, hcollapse⟩
    refine ⟨raw, ?_, ?_⟩
    · rw [Passage.rawSpan, hspan]
      exact hraw
    · rw [Passage.rawSpan, hspan, ← hshown]
      exact hcollapse

/-! ## Wherever requests lead -/

/-- What every step preserves: the state is what the source says, its map leads along the trail of
its layer, and the tokens of the steps so far cover parts of the source. -/
structure Progress.Faithful (source : Text) (profile : Profile) (p : Progress)
    (passages : List Passage) : Prop where
  coherent : p.Coherent source profile
  traces : p.origin.Traces (trailBytes (trailAt source p.layer)) (byteLen source)
  spans : ∀ r ∈ passages, r.SpansSource source

/-- A raw text is faithful to itself. -/
theorem faithful_start (source : Text) (profile : Profile) :
    (Progress.start source profile).Faithful source profile [] where
  coherent := coherent_start source profile
  traces := traces_identity_raw source
  spans := fun _ h => (List.not_mem_nil h).elim

/-- One step preserves that a state is faithful to its source. -/
theorem Progress.Faithful.pass {p' : Progress} {passages : List Passage} {passage : Passage}
    (h : p.Faithful source profile passages) (hprofile : profile.IsBuilt)
    (hnext : p.layer.next? = some layer) (hpass : p.pass layer = .ok (passage, p')) :
    p'.Faithful source profile (passages ++ [passage]) := by
  rcases h.coherent.exists_pass hprofile hnext with
    ⟨sweep, p'', hpass', hsweep, hcoherent, hlayer, horigin⟩
  rw [hpass] at hpass'
  obtain ⟨rfl, rfl⟩ := Prod.mk.inj (Except.ok.inj hpass')
  rw [h.coherent.text_eq] at hsweep
  rcases exists_sweepOf hprofile (textAt source p.layer) layer with
    ⟨sweep', hsweep', hsliced, -⟩
  obtain rfl : sweep' = sweep := Except.ok.inj (hsweep'.symm.trans hsweep)
  refine ⟨hcoherent, ?_, ?_⟩
  · rw [hlayer, horigin]
    exact traces_andThen_sweepOf h.traces hprofile hnext hsweep
  · intro r hr
    rcases List.mem_append.1 hr with hr | hr
    · exact h.spans r hr
    · rw [List.mem_singleton.1 hr, h.coherent.text_eq]
      exact spansSource_of_traces h.traces hnext hsliced

/-- Every state that can be reached is faithful to its source. -/
theorem faithful_of_reachable {passages : List Passage} (hprofile : profile.IsBuilt)
    (h : Reachable source profile p passages) : p.Faithful source profile passages := by
  apply Reachable.induction (faithful_start source profile) _ h
  intro p passages layer passage p' hp hnext hpass
  exact hp.pass hprofile hnext hpass

/-- Wherever requests lead from a source, the text is embedded in the source, the tokens of the
steps taken cover parts of it, and before the last layer the next step does not fail. -/
theorem reachable_embeds (source : Text) (name : String) (keywords : KeywordTable)
    (symbols : List SymbolEntry) {p : Progress} {passages : List Passage}
    (h : Reachable source ⟨name, keywords, .ofList symbols⟩ p passages) :
    p.Embeds source ∧ (∀ r ∈ passages, r.SpansSource source) ∧
      (p.layer ≠ .symbols → ∃ passage p', p.advance = .ok (passage, p')) := by
  have hprofile : Profile.IsBuilt ⟨name, keywords, .ofList symbols⟩ := ⟨symbols, rfl⟩
  have hfaithful := faithful_of_reachable hprofile h
  refine ⟨embeds_of_traces hfaithful.coherent.text_eq hfaithful.traces, hfaithful.spans, ?_⟩
  exact hfaithful.coherent.exists_advance hprofile

/-- A comment with an accented letter, then a string with a run of blanks in it, read to the end. -/
theorem reachable_embeds_accented : ∃ p passages,
    Reachable ['/', '*', 'é', '*', '/', '"', ' ', ' ', '"', '+', ' ']
      ⟨"cpp", .cpp, .ofList [⟨['+'], .operator⟩]⟩ p passages ∧ p.layer = .symbols ∧
      p.Embeds ['/', '*', 'é', '*', '/', '"', ' ', ' ', '"', '+', ' '] ∧
      ∀ r ∈ passages, r.SpansSource ['/', '*', 'é', '*', '/', '"', ' ', ' ', '"', '+', ' '] := by
  have hprofile : Profile.IsBuilt ⟨"cpp", .cpp, .ofList [⟨['+'], .operator⟩]⟩ := ⟨_, rfl⟩
  rcases exists_runRemaining ['/', '*', 'é', '*', '/', '"', ' ', ' ', '"', '+', ' '] hprofile with
    ⟨passages, p, hrun, hlayer, -⟩
  have hreachable := Reachable.start.runRemaining hrun
  have hembeds := reachable_embeds _ "cpp" .cpp _ hreachable
  exact ⟨p, [] ++ passages, hreachable, hlayer, hembeds.1, hembeds.2.1⟩

end Strata
