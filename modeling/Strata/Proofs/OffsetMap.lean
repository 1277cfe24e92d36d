import Strata.Text.OffsetMap

/-!
# Where the bytes of a derived text come from

A map that was built by copying parts one after another is the list of the sources of all bytes of
the derived text: `Copies` says which list. Adding a part adds its sources at the end, however the
parts are joined; leading one map on through another replaces each source by its own source, however
the parts are split. Looking an offset up reads the list.

* `Builder.Copies.copy`, `Builder.Copies.pushThrough`: what building does to the list;
* `Copies.toSource`: what looking up reads;
* `Copies.traces_andThen`: the sources along two maps.
-/

namespace Strata

namespace OffsetMap

/-! ## Parts side by side -/

/-- The sources of the bytes of copied parts, in the order of the derived text. -/
def sources (parts : List Copied) : List Nat := parts.flatMap fun p => List.range' p.inStart p.len

/-- The parts stand side by side in the derived text from one offset to another, none empty. -/
def LaidFrom (start stop : Nat) : List Copied → Prop
  | [] => start = stop
  | p :: ps => p.outStart = start ∧ 0 < p.len ∧ LaidFrom (start + p.len) stop ps

/-- The sources of parts that are put together are put together. -/
theorem sources_append (ps qs : List Copied) : sources (ps ++ qs) = sources ps ++ sources qs :=
  List.flatMap_append

/-- Parts lie side by side if some do up to an offset, and the others from there on. -/
theorem laidFrom_append {start stop : Nat} {ps qs : List Copied} :
    LaidFrom start stop (ps ++ qs) ↔ ∃ mid, LaidFrom start mid ps ∧ LaidFrom mid stop qs := by
  induction ps generalizing start with
  | nil =>
    constructor
    · intro h
      exact ⟨start, rfl, h⟩
    · rintro ⟨mid, hmid, h⟩
      rw [show start = mid from hmid]
      exact h
  | cons p ps ih =>
    simp only [List.cons_append, LaidFrom, ih]
    constructor
    · rintro ⟨hstart, hlen, mid, hps, hqs⟩
      exact ⟨mid, ⟨hstart, hlen, hps⟩, hqs⟩
    · rintro ⟨mid, ⟨hstart, hlen, hps⟩, hqs⟩
      exact ⟨hstart, hlen, mid, hps, hqs⟩

/-- The part found for an offset holds it, and knows its source. -/
theorem partFrom_of_laidFrom {start stop offset : Nat} {p : Copied} {ps : List Copied}
    (h : LaidFrom start stop (p :: ps)) (hle : start ≤ offset) (hlt : offset < stop) :
    (partFrom offset p ps).outStart ≤ offset ∧
      offset < (partFrom offset p ps).outStart + (partFrom offset p ps).len ∧
      (sources (p :: ps))[offset - start]? =
        some ((partFrom offset p ps).inStart + (offset - (partFrom offset p ps).outStart)) := by
  induction ps generalizing start p with
  | nil =>
    rcases h with ⟨hstart, -, hstop⟩
    have hstop : start + p.len = stop := hstop
    have hin : offset - start < p.len := by omega
    refine ⟨by simp only [partFrom]; omega, by simp only [partFrom]; omega, ?_⟩
    simp [sources, partFrom, hstart, hin]
  | cons q qs ih =>
    rcases h with ⟨hstart, hlen, hq⟩
    have hsources : sources (p :: q :: qs) = List.range' p.inStart p.len ++ sources (q :: qs) := rfl
    by_cases hnext : q.outStart ≤ offset
    · -- the offset is behind the first part
      have hqstart : q.outStart = start + p.len := hq.1
      have hlater := ih hq (by omega)
      rw [partFrom, if_pos hnext]
      refine ⟨hlater.1, hlater.2.1, ?_⟩
      rw [hsources, List.getElem?_append_right (by rw [List.length_range']; omega),
        List.length_range', ← hlater.2.2]
      congr 1
      omega
    · have hqstart : q.outStart = start + p.len := hq.1
      rw [partFrom, if_neg hnext, hsources,
        List.getElem?_append_left (by rw [List.length_range']; omega)]
      have hin : offset - start < p.len := by omega
      refine ⟨by omega, by omega, ?_⟩
      simp [hstart, hin]

theorem LaidFrom.le_outStart {start stop : Nat} {ps : List Copied} (h : LaidFrom start stop ps) :
    ∀ p ∈ ps, start ≤ p.outStart := by
  induction ps generalizing start with
  | nil =>
    intro p hp
    cases hp
  | cons q qs ih =>
    rcases h with ⟨hstart, -, hqs⟩
    intro p hp
    rcases List.mem_cons.1 hp with rfl | hp
    · exact Nat.le_of_eq hstart.symm
    · have := ih hqs p hp
      omega

/-- The part of an offset is the only one that starts at or before it with none starting between,
in whatever way it is searched for. -/
theorem LaidFrom.partAt_eq_some {start stop offset : Nat} {p : Copied} {ps : List Copied}
    (h : LaidFrom start stop ps) (hp : p ∈ ps) (hle : p.outStart ≤ offset)
    (hlast : ∀ q ∈ ps, q.outStart ≤ offset → q.outStart ≤ p.outStart) :
    partAt offset ps = some p := by
  cases ps with
  | nil => cases hp
  | cons first ps =>
    rw [partAt, Option.some.injEq]
    induction ps generalizing first start with
    | nil => exact (List.mem_singleton.1 hp).symm
    | cons second ps ih =>
      have hlen := h.2.1
      have hstart : second.outStart = start + first.len := h.2.2.1
      by_cases hnext : second.outStart ≤ offset
      · -- the first part is not the last one that starts in time
        rw [partFrom, if_pos hnext]
        apply ih second h.2.2
        · rcases List.mem_cons.1 hp with rfl | hp
          · have := hlast second (by simp) hnext
            have := h.1
            omega
          · exact hp
        · exact fun q hq => hlast q (List.mem_cons_of_mem first hq)
      · rw [partFrom, if_neg hnext]
        rcases List.mem_cons.1 hp with rfl | hp
        · rfl
        · have := h.2.2.le_outStart p hp
          omega

/-! ## Building -/

namespace Builder

/-- The parts so far are those bytes of a source of `inLen` bytes. -/
structure Copies (b : Builder) (bytes : List Nat) (inLen : Nat) : Prop where
  laid : LaidFrom 0 bytes.length b.latest.reverse
  sources_eq : sources b.latest.reverse = bytes
  outLen_eq : b.outLen = bytes.length
  inLen_eq : b.inLen = inLen

variable {b : Builder} {bytes : List Nat} {inLen : Nat}

/-- A new map has copied nothing. -/
theorem copies_builder (inLen : Nat) : (builder inLen).Copies [] inLen := ⟨rfl, rfl, rfl, rfl⟩

/-- A part behind all others adds its sources. -/
theorem Copies.cons_latest (h : b.Copies bytes inLen) {part : Copied}
    (hpart : part.outStart = bytes.length) (hlen : part.len ≠ 0) :
    LaidFrom 0 (bytes.length + part.len) (part :: b.latest).reverse ∧
      sources (part :: b.latest).reverse = bytes ++ List.range' part.inStart part.len := by
  rw [List.reverse_cons]
  constructor
  · exact laidFrom_append.2 ⟨bytes.length, h.laid, hpart, Nat.pos_of_ne_zero hlen, rfl⟩
  · rw [sources_append, h.sources_eq]
    simp [sources]

/-- A part that goes on where the last one stops adds its sources by lengthening that. -/
theorem Copies.lengthen_latest (h : b.Copies bytes inLen) {last : Copied} {older : List Copied}
    (hlatest : b.latest = last :: older) {inStart : Nat} (len : Nat)
    (hjoin : last.inStart + last.len = inStart) :
    LaidFrom 0 (bytes.length + len) ({ last with len := last.len + len } :: older).reverse ∧
      sources ({ last with len := last.len + len } :: older).reverse =
        bytes ++ List.range' inStart len := by
  have hlaid := h.laid
  have hsources := h.sources_eq
  rw [hlatest, List.reverse_cons] at hlaid hsources
  rw [List.reverse_cons]
  constructor
  · rcases laidFrom_append.1 hlaid with ⟨mid, holder, hstart, hlast, hstop⟩
    have hstop : mid + last.len = bytes.length := hstop
    refine laidFrom_append.2 ⟨mid, holder, hstart, Nat.lt_add_right len hlast, ?_⟩
    show mid + (last.len + len) = bytes.length + len
    omega
  · rw [sources_append, ← hsources, sources_append, List.append_assoc]
    congr 1
    simp only [sources, List.flatMap_cons, List.flatMap_nil, List.append_nil]
    rw [← hjoin, List.range'_append_1]

/-- A part added at the end adds its sources, whether it lengthens the last part or not. -/
theorem Copies.push (h : b.Copies bytes inLen) {part : Copied}
    (hpart : part.outStart = bytes.length) :
    (b.push part).Copies (bytes ++ List.range' part.inStart part.len) inLen := by
  have hout : max b.outLen (part.outStart + part.len) =
      (bytes ++ List.range' part.inStart part.len).length := by
    rw [h.outLen_eq, hpart, List.length_append, List.length_range']
    omega
  have hlength : bytes.length + part.len =
      (bytes ++ List.range' part.inStart part.len).length := by simp
  unfold Builder.push
  split
  · -- nothing is added
    rename_i hlen
    simpa [hlen] using h
  · rename_i hlen
    dsimp only
    split
    · rename_i last older hlatest
      split
      · rename_i hjoin
        have hparts := h.lengthen_latest hlatest part.len hjoin.2
        rw [hlength] at hparts
        exact ⟨hparts.1, hparts.2, hout, h.inLen_eq⟩
      · have hparts := h.cons_latest hpart hlen
        rw [hlength] at hparts
        exact ⟨hparts.1, hparts.2, hout, h.inLen_eq⟩
    · rename_i hlatest
      have hparts := h.cons_latest hpart hlen
      rw [hlength, hlatest] at hparts
      exact ⟨hparts.1, hparts.2, hout, h.inLen_eq⟩

/-- One more part is copied behind the others. -/
theorem Copies.copy (h : b.Copies bytes inLen) (inStart len : Nat) :
    (b.copy inStart len).Copies (bytes ++ List.range' inStart len) inLen :=
  h.push h.outLen_eq

/-- Parts that are copied one by one are copied in their order. -/
theorem Copies.foldl_copy {α : Type} (start len : α → Nat) (as : List α)
    (h : b.Copies bytes inLen) :
    (as.foldl (fun b a => b.copy (start a) (len a)) b).Copies
      (bytes ++ as.flatMap fun a => List.range' (start a) (len a)) inLen := by
  induction as generalizing b bytes with
  | nil => simpa using h
  | cons a as ih =>
    have hlater := ih (h.copy (start a) (len a))
    rwa [List.append_assoc] at hlater

end Builder

/-! ## Looking up -/

/-- The map copies those bytes of a source of `inLen` bytes, part by part. -/
structure Copies (m : OffsetMap) (bytes : List Nat) (inLen : Nat) : Prop where
  isIdentity_eq : m.isIdentity = false
  laid : LaidFrom 0 bytes.length m.parts
  sources_eq : sources m.parts = bytes
  outLen_eq : m.outLen = bytes.length
  inLen_eq : m.inLen = inLen

/-- The map leads from each byte of the derived text to one of those bytes of a source of `inLen`
bytes. -/
structure Traces (m : OffsetMap) (bytes : List Nat) (inLen : Nat) : Prop where
  outLen_eq : m.outLen = bytes.length
  inLen_eq : m.inLen = inLen
  toSource : ∀ offset, offset < bytes.length → bytes[offset]? = some (m.toSource offset)

variable {m inner : OffsetMap} {bytes : List Nat} {inLen : Nat}

theorem Builder.Copies.finish {b : Builder} (h : b.Copies bytes inLen) {outLen : Nat}
    (hlen : outLen = bytes.length) : (b.finish outLen).Copies bytes inLen :=
  ⟨rfl, h.laid, h.sources_eq, hlen, h.inLen_eq⟩

/-- A map leads a byte to the byte that it was copied from. -/
theorem Copies.toSource (h : m.Copies bytes inLen) {offset : Nat} (hlt : offset < bytes.length) :
    bytes[offset]? = some (m.toSource offset) := by
  have hlaid := h.laid
  have hsources := h.sources_eq
  unfold OffsetMap.toSource
  rw [if_neg (by simp [h.isIdentity_eq])]
  cases hparts : m.parts with
  | nil =>
    rw [hparts] at hsources
    rw [← hsources] at hlt
    cases hlt
  | cons p ps =>
    rw [hparts] at hlaid hsources
    have hfound := partFrom_of_laidFrom hlaid (Nat.zero_le offset) hlt
    rw [← hsources, ← Nat.sub_zero offset, hfound.2.2, Nat.sub_zero]
    simp only [partAt]
    rw [if_pos (by omega)]

theorem Copies.traces (h : m.Copies bytes inLen) : m.Traces bytes inLen :=
  ⟨h.outLen_eq, h.inLen_eq, fun _ => h.toSource⟩

/-- The sources of all offsets of the derived text. -/
theorem Traces.map_toSource (h : m.Traces bytes inLen) :
    (List.range m.outLen).map m.toSource = bytes := by
  apply List.ext_getElem?
  intro i
  rw [List.getElem?_map, h.outLen_eq]
  by_cases hi : i < bytes.length
  · rw [List.getElem?_range hi, Option.map_some, h.toSource i hi]
  · have hrange : (List.range bytes.length).length ≤ i := by
      rw [List.length_range]
      omega
    rw [List.getElem?_eq_none hrange, List.getElem?_eq_none (by omega), Option.map_none]

/-- Two maps that lead to the same bytes are the same up to the end of the text. -/
theorem Traces.toSource_eq {m' : OffsetMap} {inLen' : Nat} (h : m.Traces bytes inLen)
    (h' : m'.Traces bytes inLen') {offset : Nat} (hlt : offset < bytes.length) :
    m.toSource offset = m'.toSource offset :=
  Option.some.inj ((h.toSource offset hlt).symm.trans (h'.toSource offset hlt))

theorem toSource_identity {len offset : Nat} (h : offset ≤ len) :
    (identity len).toSource offset = offset :=
  Nat.min_eq_left h

/-- The identity leads each byte to itself. -/
theorem traces_identity (len : Nat) : (identity len).Traces (List.range len) len where
  outLen_eq := List.length_range.symm
  inLen_eq := rfl
  toSource := by
    intro offset hlt
    rw [List.length_range] at hlt
    rw [List.getElem?_range hlt, toSource_identity (Nat.le_of_lt hlt)]

/-! ## Leading on -/

/-- A run follows the map. -/
theorem toSource_of_lt_runLength {mid start count run offset : Nat}
    (hrun : ∀ i < run, m.toSource (mid + i) = start + i)
    (hlt : offset < m.runLength mid start count run) :
    m.toSource (mid + offset) = start + offset := by
  induction count generalizing run with
  | zero => exact hrun offset hlt
  | succ count ih =>
    unfold runLength at hlt
    split at hlt
    · rename_i hnext
      apply ih _ hlt
      intro i hi
      rcases Nat.lt_succ_iff_lt_or_eq.1 hi with hi | rfl
      · exact hrun i hi
      · exact hnext
    · exact hrun offset hlt

theorem runLength_le (m : OffsetMap) (mid start count run : Nat) :
    m.runLength mid start count run ≤ run + count := by
  induction count generalizing run with
  | zero => simp [runLength]
  | succ count ih =>
    unfold runLength
    split
    · have := ih (run + 1)
      omega
    · omega

/-- A part led on through a map adds the sources of its sources, wherever it is split. -/
theorem Builder.Copies.pushThrough {b : Builder} {outStart mid left : Nat}
    (h : b.Copies bytes inLen) (hout : outStart = bytes.length) :
    (m.pushThrough b outStart mid left).Copies
      (bytes ++ (List.range' mid left).map m.toSource) inLen := by
  -- each step adds the longest run whose sources follow one another as well
  fun_induction OffsetMap.pushThrough m b outStart mid left generalizing bytes with
  | case1 b outStart mid => simpa using h
  | case2 =>
    rename_i b outStart mid left hleft start run hless ih
    have hle : run ≤ left := by
      have := m.runLength_le mid start (left - 1) 1
      have : run = m.runLength mid start (left - 1) 1 := rfl
      omega
    have hfollows : (List.range' mid run).map m.toSource = List.range' start run := by
      apply List.ext_getElem?
      intro i
      by_cases hi : i < run
      · have hstart : ∀ i < 1, m.toSource (mid + i) = start + i := by
          intro i hi
          obtain rfl : i = 0 := by omega
          rfl
        have := toSource_of_lt_runLength hstart hi
        simp [hi, this]
      · simp [hi]
    have hpushed : (b.push ⟨outStart, start, run⟩).Copies (bytes ++ List.range' start run) inLen :=
      h.push hout
    have hlater := ih hpushed (by simp [hout])
    have hsplit : List.range' mid left =
        List.range' mid run ++ List.range' (mid + run) (left - run) := by
      rw [List.range'_append_1, Nat.add_sub_cancel' hle]
    rw [hsplit, List.map_append, hfollows, ← List.append_assoc]
    exact hlater

theorem Builder.Copies.foldl_pushThrough {b : Builder} {parts : List Copied} {stop : Nat}
    (h : b.Copies bytes inLen) (hlaid : LaidFrom bytes.length stop parts) :
    (parts.foldl (fun b p => m.pushThrough b p.outStart p.inStart p.len) b).Copies
      (bytes ++ (sources parts).map m.toSource) inLen := by
  induction parts generalizing b bytes with
  | nil => simpa [sources] using h
  | cons p ps ih =>
    rcases hlaid with ⟨hstart, -, hps⟩
    have hp : (m.pushThrough b p.outStart p.inStart p.len).Copies
        (bytes ++ (List.range' p.inStart p.len).map m.toSource) inLen := h.pushThrough hstart
    have hlater := ih hp (by simpa using hps)
    rw [List.append_assoc, ← List.map_append] at hlater
    exact hlater

/-- Led on through a map that is no identity, each byte goes to the source of its source. -/
theorem Copies.andThen {midLen : Nat} (h : m.Copies bytes midLen)
    (hidentity : inner.isIdentity = false) :
    (m.andThen inner).Copies (bytes.map inner.toSource) inner.inLen := by
  have hcopied := (Builder.copies_builder inner.inLen).foldl_pushThrough (m := inner) h.laid
  rw [h.sources_eq, List.nil_append] at hcopied
  unfold OffsetMap.andThen
  rw [if_neg (by simp [h.isIdentity_eq]), if_neg (by simp [hidentity])]
  exact hcopied.finish (by rw [List.length_map, h.outLen_eq])

/-- The map from the first text to the last leads to the sources of the sources. -/
theorem Copies.traces_andThen {midLen : Nat} (h : m.Copies bytes midLen)
    (hmid : ∀ s ∈ bytes, s ≤ inner.inLen) :
    (m.andThen inner).Traces (bytes.map inner.toSource) inner.inLen := by
  cases hidentity : inner.isIdentity with
  | true =>
    have hsame : bytes.map inner.toSource = bytes := by
      have hid : ∀ s ∈ bytes, inner.toSource s = id s := by
        intro s hs
        simp [OffsetMap.toSource, hidentity, Nat.min_eq_left (hmid s hs)]
      rw [List.map_congr_left hid, List.map_id]
    have hcopies : ({ m with inLen := inner.inLen } : OffsetMap).Copies bytes inner.inLen :=
      ⟨h.isIdentity_eq, h.laid, h.sources_eq, h.outLen_eq, rfl⟩
    unfold OffsetMap.andThen
    rw [if_neg (by simp [h.isIdentity_eq]), if_pos hidentity, hsame]
    exact hcopies.traces
  | false => exact (h.andThen hidentity).traces

/-- Maps that lead to the same bytes lead on in the same way. -/
theorem Copies.traces_andThen_of_traces {outer : OffsetMap} {mid : List Nat} {midLen inLen' : Nat}
    (h : outer.Copies bytes midLen) (hm : m.Traces mid inLen) (hinner : inner.Traces mid inLen')
    (hin : ∀ s ∈ bytes, s < mid.length) (hle : mid.length ≤ inLen) :
    (outer.andThen m).Traces (bytes.map inner.toSource) inLen := by
  have hmid : ∀ s ∈ bytes, s ≤ m.inLen := by
    intro s hs
    have := hin s hs
    rw [hm.inLen_eq]
    omega
  have hsame : bytes.map inner.toSource = bytes.map m.toSource :=
    List.map_congr_left fun s hs => hinner.toSource_eq hm (hin s hs)
  have htraces := h.traces_andThen hmid
  rwa [hm.inLen_eq, ← hsame] at htraces

/-- Behind a text that was copied whole, a map leads on as before. -/
theorem Traces.identity_andThen (h : m.Traces bytes inLen) :
    ((identity bytes.length).andThen m).Traces bytes inLen where
  outLen_eq := rfl
  inLen_eq := h.inLen_eq
  toSource := h.toSource

end OffsetMap

end Strata
