import Mathlib.Data.List.Flatten
import Strata.Proofs.Condensed
import Strata.Proofs.Progress

/-!
# The trail that each layer leaves

The text of a layer is made from some of the characters of the source, in order: those of its trail.
The sweep for comments leaves the first trail, the sweep for layout leaves a part of it, and no
later sweep changes the text. The map that a state carries leads along the trail of its layer, since
each step leads one map on through the other.

* `trailAt`, `textAt_eq_map`: the trail of a layer, and the text that is made from it;
* `sublist_trailAt`: a trail goes through the source in order;
* `exists_squeeze_eq_trailAt`: the last trail, by the runs of layout between comments;
* `traces_andThen_sweepOf`: each step leads on along the trails.
-/

namespace Strata

variable {source : Text} {profile : Profile} {p : Progress} {layer : Layer}

/-! ## Trails -/

/-- The characters of the source that a layer has left, with their offsets in the source. -/
def trailAt (source : Text) : Layer → List (Nat × Char)
  | .raw => located id 0 source
  | .uncommented => strippedTrail source
  | _ => (condensedTrail (stripComments source).text).map fun x =>
    ((stripComments source).origin.toSource x.1, x.2)

/-- The character that stands at a layer for a character of the source. -/
def shownAt : Layer → Char → Char
  | .raw | .uncommented => id
  | _ => spaced

/-- A character is shown in as many bytes as it takes up in the source. -/
theorem utf8Size_shownAt (layer : Layer) (c : Char) : (shownAt layer c).utf8Size = c.utf8Size := by
  cases layer <;> first | rfl | exact utf8Size_spaced c

/-- The text of a layer is made from its trail. -/
theorem textAt_eq_map (source : Text) (layer : Layer) :
    textAt source layer = (trailAt source layer).map fun x => shownAt layer x.2 := by
  have hcondensed : (condenseLayout (stripComments source).text).text =
      ((condensedTrail (stripComments source).text).map fun x =>
        ((stripComments source).origin.toSource x.1, x.2)).map fun x => spaced x.2 := by
    rw [text_condenseLayout, List.map_map]
    rfl
  cases layer with
  | raw => exact map_snd_located.symm
  | uncommented => exact text_stripComments source
  | _ => exact hcondensed

theorem byteLen_map_shownAt (layer : Layer) (trail : List (Nat × Char)) :
    byteLen (trail.map fun x => shownAt layer x.2) = byteLen (trail.map (·.2)) := by
  induction trail with
  | nil => rfl
  | cons x trail ih => simp [ih, utf8Size_shownAt]

/-- A layer has as many bytes as its trail. -/
theorem length_trailBytes_trailAt (source : Text) (layer : Layer) :
    (trailBytes (trailAt source layer)).length = byteLen (textAt source layer) := by
  rw [length_trailBytes, textAt_eq_map, byteLen_map_shownAt]

/-! ## Through the map of the first sweep -/

theorem toSource_of_mem_strippedTrail {z : Nat × Nat × Char}
    (hz : z ∈ located (fun x => x.2) 0 (strippedTrail source)) {j : Nat} (hj : j < z.2.2.utf8Size) :
    (stripComments source).origin.toSource (z.1 + j) = z.2.1 + j :=
  (copies_stripComments source).traces.toSource_of_located hz hj

/-- The characters left by the first sweep are those of its text, led back to the source. -/
theorem map_located_eq_strippedTrail (source : Text) :
    (located id 0 (stripComments source).text).map
      (fun x => ((stripComments source).origin.toSource x.1, x.2)) = strippedTrail source := by
  have hback : (located (fun x => x.2) 0 (strippedTrail source)).map
      (fun z => ((stripComments source).origin.toSource z.1, z.2.2)) =
        (located (fun x => x.2) 0 (strippedTrail source)).map fun z => z.2 := by
    apply List.map_congr_left
    intro z hz
    have := toSource_of_mem_strippedTrail hz (Char.utf8Size_pos z.2.2)
    rw [Nat.add_zero, Nat.add_zero] at this
    rw [this]
  rw [text_stripComments, located_map, List.map_map]
  exact hback.trans map_snd_located

/-- A character of the text between the sweeps stands where a character of the source is led. -/
theorem toSource_of_mem_located {x : Nat × Char}
    (hx : x ∈ located id 0 (stripComments source).text) {j : Nat} (hj : j < x.2.utf8Size) :
    (stripComments source).origin.toSource (x.1 + j) =
      (stripComments source).origin.toSource x.1 + j := by
  rw [text_stripComments, located_map] at hx
  rcases List.mem_map.1 hx with ⟨z, hz, rfl⟩
  have hfirst := toSource_of_mem_strippedTrail hz (Char.utf8Size_pos z.2.2)
  have hbyte := toSource_of_mem_strippedTrail hz hj
  rw [Nat.add_zero, Nat.add_zero] at hfirst
  rw [hfirst]
  exact hbyte

/-- The last trail is a part of what is left when the runs of layout outside comments are
squeezed. -/
theorem exists_squeeze_eq_trailAt (source : Text) :
    ∃ front back, squeeze (fun x => x.2) (strippedTrail source) =
      front ++ trailAt source .condensed ++ back := by
  rcases exists_squeeze_eq_condensedTrail (stripComments source).text with ⟨front, back, h⟩
  have hmap := congrArg
    (List.map fun x => ((stripComments source).origin.toSource x.1, x.2)) h
  rw [squeeze, ← squeezeAfter_map (fun x : Nat × Char => x.2)
    (fun x : Nat × Char => ((stripComments source).origin.toSource x.1, x.2)),
    map_located_eq_strippedTrail, List.map_append, List.map_append] at hmap
  exact ⟨_, _, hmap⟩

/-! ## Trails go through the source -/

/-- The first sweep leaves characters of the source, in order. -/
theorem sublist_strippedTrail (source : Text) :
    (strippedTrail source).Sublist (located id 0 source) := by
  rcases exists_filter_eq_strippedTrail source with ⟨cut, hcut⟩
  have hfilter := List.filter_sublist (p := fun x => isOutsideComments source x.1)
    (l := located id 0 source)
  rw [hcut] at hfilter
  exact (List.sublist_append_left _ cut).trans hfilter

/-- The second sweep leaves a part of what the first one left. -/
theorem sublist_trailAt_condensed (source : Text) :
    (trailAt source .condensed).Sublist (strippedTrail source) := by
  rcases exists_squeeze_eq_trailAt source with ⟨front, back, h⟩
  have hsqueeze : (squeeze (fun x => x.2) (strippedTrail source)).Sublist (strippedTrail source) :=
    sift_sublist
  rw [h] at hsqueeze
  exact ((List.sublist_append_right front _).trans (List.sublist_append_left _ back)).trans hsqueeze

/-- From the second layer on, nothing is left but what is outside the comments. -/
theorem sublist_trailAt_of_ne_raw (hlayer : layer ≠ .raw) :
    (trailAt source layer).Sublist (strippedTrail source) := by
  cases layer with
  | raw => exact absurd rfl hlayer
  | uncommented => exact List.Sublist.refl _
  | _ => exact sublist_trailAt_condensed source

/-- A trail goes through the source in order. -/
theorem sublist_trailAt (source : Text) (layer : Layer) :
    (trailAt source layer).Sublist (located id 0 source) := by
  by_cases hlayer : layer = .raw
  · rw [hlayer]
    exact List.Sublist.refl _
  · exact (sublist_trailAt_of_ne_raw hlayer).trans (sublist_strippedTrail source)

/-- The bytes of a trail are bytes of the source, in order. -/
theorem sublist_trailBytes (source : Text) (layer : Layer) :
    (trailBytes (trailAt source layer)).Sublist (List.range (byteLen source)) := by
  have hsublist := (sublist_trailAt source layer).flatMap fun x => List.range' x.1 x.2.utf8Size
  rw [List.range_eq_range', ← trailBytes_located]
  exact hsublist

/-- No layer has more bytes than the source. -/
theorem byteLen_textAt_le (source : Text) (layer : Layer) :
    byteLen (textAt source layer) ≤ byteLen source := by
  have hle := (sublist_trailBytes source layer).length_le
  rwa [length_trailBytes_trailAt, List.length_range] at hle

/-! ## Steps lead on along the trails -/

/-- The bytes that the second sweep leaves, led on through the map of the first. -/
theorem map_trailBytes_condensedTrail (source : Text) :
    (trailBytes (condensedTrail (stripComments source).text)).map
      (stripComments source).origin.toSource = trailBytes (trailAt source .condensed) := by
  have htrail : trailAt source .condensed =
      (condensedTrail (stripComments source).text).map fun x =>
        ((stripComments source).origin.toSource x.1, x.2) := rfl
  rw [htrail, trailBytes, trailBytes, List.map_flatMap, List.flatMap_map]
  apply List.flatMap_congr
  intro x hx
  apply List.ext_getElem?
  intro j
  by_cases hj : j < x.2.utf8Size
  · simp [hj, toSource_of_mem_located ((sublist_condensedTrail _).subset hx) hj]
  · simp [hj]

/-- The bytes that the second sweep leaves are bytes of its text. -/
theorem lt_of_mem_trailBytes_condensedTrail {text : Text} {i : Nat}
    (h : i ∈ trailBytes (condensedTrail text)) : i < byteLen text := by
  have hmem : i ∈ trailBytes (located id 0 text) :=
    ((sublist_condensedTrail text).flatMap fun x => List.range' x.1 x.2.utf8Size).subset h
  rw [trailBytes_located, List.mem_range'_1] at hmem
  omega

/-- The identity leads along the trail of the raw text. -/
theorem traces_identity_raw (source : Text) : (OffsetMap.identity (byteLen source)).Traces
    (trailBytes (trailAt source .raw)) (byteLen source) := by
  have hraw : trailBytes (trailAt source .raw) = List.range (byteLen source) := by
    rw [List.range_eq_range']
    exact trailBytes_located 0 source
  rw [hraw]
  exact OffsetMap.traces_identity (byteLen source)

/-- The map of the sweep to a layer, led on through a map along the trail of the layer before, is a
map along the trail of the layer. -/
theorem traces_andThen_sweepOf {m : OffsetMap} {next : Layer} {sweep : Sweep}
    (h : m.Traces (trailBytes (trailAt source layer)) (byteLen source))
    (hprofile : profile.IsBuilt) (hnext : layer.next? = some next)
    (hsweep : sweepOf profile (textAt source layer) next = .ok sweep) :
    (sweep.origin.andThen m).Traces (trailBytes (trailAt source next)) (byteLen source) := by
  have hle : (trailBytes (trailAt source layer)).length ≤ byteLen source := by
    rw [length_trailBytes_trailAt]
    exact byteLen_textAt_le source layer
  -- behind the second layer, neither the text nor the trail changes
  have hsame : next.isInPlace = true → trailAt source next = trailAt source layer →
      (sweep.origin.andThen m).Traces (trailBytes (trailAt source next)) (byteLen source) := by
    intro hin htrail
    rw [origin_sweepOf hprofile hin hsweep, htrail, ← length_trailBytes_trailAt]
    exact h.identity_andThen
  cases layer with
  | raw =>
    cases hnext
    cases hsweep
    have hin : ∀ i ∈ trailBytes (strippedTrail source), i < byteLen source := fun i hi =>
      List.mem_range.1 ((sublist_trailBytes source .uncommented).subset hi)
    have hlead := (copies_stripComments source).traces_andThen_of_traces h
      (traces_identity_raw source)
      (fun i hi => by rw [length_trailBytes_trailAt]; exact hin i hi) hle
    have hid : (trailBytes (strippedTrail source)).map
        (OffsetMap.identity (byteLen source)).toSource = trailBytes (strippedTrail source) := by
      have hself : ∀ i ∈ trailBytes (strippedTrail source),
          (OffsetMap.identity (byteLen source)).toSource i = id i := by
        intro i hi
        exact OffsetMap.toSource_identity (Nat.le_of_lt (hin i hi))
      rw [List.map_congr_left hself, List.map_id]
    rw [hid] at hlead
    exact hlead
  | uncommented =>
    cases hnext
    cases hsweep
    rw [← map_trailBytes_condensedTrail]
    apply (copies_condenseLayout _).traces_andThen_of_traces h (copies_stripComments source).traces
      _ hle
    intro i hi
    rw [length_trailBytes_trailAt]
    exact lt_of_mem_trailBytes_condensedTrail hi
  | condensed | constants | keywords | identifiers =>
    cases hnext
    exact hsame rfl rfl
  | symbols => cases hnext

end Strata
