import Strata.Text.SpanSet

/-!
# What a set of spans covers

Joining spans loses no byte and adds none, and what is joined ends where one of the spans ended. The
joined spans are separate, which is why the first one that ends behind an offset is the only one
that can cover it.

* `contains_ofSpans`: the offsets that a set covers;
* `spanAt?_ofSpans`: the span of a set that covers an offset.
-/

namespace Strata

/-! ## The order of spans -/

theorem Span.contains_eq_true {s : Span} {offset : Nat} :
    s.contains offset = true ↔ s.start ≤ offset ∧ offset < s.stop := by
  simp [Span.contains]

theorem Span.le_eq_true {s t : Span} :
    s.le t = true ↔ s.start < t.start ∨ s.start = t.start ∧ s.stop ≤ t.stop := by
  unfold Span.le Span.order
  rcases Nat.lt_trichotomy s.start t.start with h | h | h
  · simp [Nat.compare_eq_lt.2 h, h]
  · rcases Nat.lt_trichotomy s.stop t.stop with h' | h' | h'
    · simp [Nat.compare_eq_lt.2 h', h, Nat.le_of_lt h']
    · simp [h, h']
    · simp [Nat.compare_eq_gt.2 h', h, Nat.not_le_of_lt h']
  · simp [Nat.compare_eq_gt.2 h]
    omega

theorem Span.le_trans (s t u : Span) (hst : s.le t = true) (htu : t.le u = true) :
    s.le u = true := by
  rw [Span.le_eq_true] at *
  omega

theorem Span.le_total (s t : Span) : (s.le t || t.le s) = true := by
  simp only [Bool.or_eq_true, Span.le_eq_true]
  omega

namespace SpanSet

variable {spans : List Span} {current s : Span} {offset : Nat}

/-! ## Joining -/

/-- The spans are in order, none is empty, and no two touch. -/
structure Separate (spans : List Span) : Prop where
  nonempty : ∀ s ∈ spans, s.start < s.stop
  apart : spans.Pairwise fun s t => s.stop < t.start

/-- The spans start no earlier than the ones before them. -/
def Ascending (spans : List Span) : Prop := spans.Pairwise fun s t => s.start ≤ t.start

/-- What is joined to a span starts no earlier. -/
theorem Ascending.join {current s : Span} {spans : List Span}
    (h : Ascending (current :: s :: spans)) :
    Ascending (⟨current.start, max current.stop s.stop⟩ :: spans) := by
  rcases List.pairwise_cons.1 h with ⟨hfirst, hrest⟩
  rcases List.pairwise_cons.1 hrest with ⟨-, hspans⟩
  exact List.pairwise_cons.2 ⟨fun t ht => hfirst t (List.mem_cons_of_mem s ht), hspans⟩

theorem start_le_of_mem_joinInto (h : Ascending (current :: spans)) :
    ∀ s ∈ joinInto current spans, current.start ≤ s.start := by
  fun_induction joinInto current spans with
  | case1 current => simp
  | case2 current s spans _ ih => exact ih h.join
  | case3 current s spans _ ih =>
    intro t ht
    rcases List.pairwise_cons.1 h with ⟨hfirst, hrest⟩
    rcases List.mem_cons.1 ht with rfl | ht
    · exact Nat.le_refl _
    · have hs : current.start ≤ s.start := hfirst s List.mem_cons_self
      exact Nat.le_trans hs (ih hrest t ht)

/-- Joining spans in ascending order leaves them apart. -/
theorem separate_joinInto (h : Ascending (current :: spans))
    (hne : ∀ s ∈ current :: spans, s.start < s.stop) : Separate (joinInto current spans) := by
  fun_induction joinInto current spans with
  | case1 current => exact ⟨hne, List.pairwise_singleton _ _⟩
  | case2 current s spans _ ih =>
    -- `s` is joined to the current span
    apply ih h.join
    intro t ht
    rcases List.mem_cons.1 ht with rfl | ht
    · have := hne current List.mem_cons_self
      exact Nat.lt_of_lt_of_le this (Nat.le_max_left _ _)
    · exact hne t (by simp [ht])
  | case3 current s spans hgap ih =>
    -- a gap: all that is joined from `s` on starts behind it
    rcases List.pairwise_cons.1 h with ⟨-, hrest⟩
    have hlater := ih hrest fun t ht => hne t (List.mem_cons_of_mem current ht)
    constructor
    · intro t ht
      rcases List.mem_cons.1 ht with rfl | ht
      · exact hne t List.mem_cons_self
      · exact hlater.nonempty t ht
    · apply List.pairwise_cons.2
      refine ⟨?_, hlater.apart⟩
      intro t ht
      have := start_le_of_mem_joinInto hrest t ht
      omega

/-- Joining covers the same offsets. -/
theorem exists_contains_joinInto (h : Ascending (current :: spans)) :
    (∃ s ∈ joinInto current spans, s.contains offset = true) ↔
      ∃ s ∈ current :: spans, s.contains offset = true := by
  fun_induction joinInto current spans with
  | case1 current => exact Iff.rfl
  | case2 current s spans htouch ih =>
    rw [ih h.join]
    have hs : current.start ≤ s.start := (List.pairwise_cons.1 h).1 s List.mem_cons_self
    have hjoined : (⟨current.start, max current.stop s.stop⟩ : Span).contains offset = true ↔
        current.contains offset = true ∨ s.contains offset = true := by
      simp only [Span.contains_eq_true]
      omega
    simp only [List.mem_cons, exists_eq_or_imp, hjoined, or_assoc]
  | case3 current s spans _ ih =>
    have hlater := ih (List.pairwise_cons.1 h).2
    simp only [List.mem_cons, exists_eq_or_imp] at hlater ⊢
    rw [hlater]

/-- What is joined ends where one of the spans ended. -/
theorem exists_stop_eq_of_mem_joinInto (h : s ∈ joinInto current spans) :
    ∃ t ∈ current :: spans, t.stop = s.stop := by
  fun_induction joinInto current spans with
  | case1 current => exact ⟨s, h, rfl⟩
  | case2 current t spans _ ih =>
    rcases ih h with ⟨u, hu, hstop⟩
    rcases List.mem_cons.1 hu with rfl | hu
    · rcases Nat.le_total current.stop t.stop with hle | hle
      · exact ⟨t, by simp, by simpa [Nat.max_eq_right hle] using hstop⟩
      · exact ⟨current, by simp, by simpa [Nat.max_eq_left hle] using hstop⟩
    · exact ⟨u, by simp [hu], hstop⟩
  | case3 current t spans _ ih =>
    rcases List.mem_cons.1 h with rfl | h
    · exact ⟨s, by simp, rfl⟩
    · rcases ih h with ⟨u, hu, hstop⟩
      exact ⟨u, List.mem_cons_of_mem current hu, hstop⟩

/-! ## The set of some spans -/

/-- The spans of a set, before they are joined. -/
def sorted (spans : List Span) : List Span := (spans.filter (!·.isEmpty)).mergeSort Span.le

theorem mem_sorted : s ∈ sorted spans ↔ s ∈ spans ∧ s.start ≠ s.stop := by
  simp [sorted, Span.isEmpty]

theorem ascending_sorted (spans : List Span) : Ascending (sorted spans) := by
  apply (List.pairwise_mergeSort Span.le_trans Span.le_total _).imp
  intro s t hle
  rcases Span.le_eq_true.1 hle with h | h <;> omega

theorem nonempty_of_mem_sorted (hforward : ∀ s ∈ spans, s.start ≤ s.stop) (h : s ∈ sorted spans) :
    s.start < s.stop := by
  rcases mem_sorted.1 h with ⟨hs, hne⟩
  exact Nat.lt_of_le_of_ne (hforward s hs) hne

/-- The spans of a set are apart and in order, if none of those given goes backwards. -/
theorem separate_ofSpans (hforward : ∀ s ∈ spans, s.start ≤ s.stop) :
    Separate (ofSpans spans).spans := by
  have hascending := ascending_sorted spans
  have hne : ∀ s ∈ sorted spans, s.start < s.stop := fun _ => nonempty_of_mem_sorted hforward
  change Separate (joinSorted (sorted spans))
  cases hsorted : sorted spans with
  | nil => exact ⟨fun _ h => (List.not_mem_nil h).elim, List.Pairwise.nil⟩
  | cons s ss =>
    rw [hsorted] at hascending hne
    exact separate_joinInto hascending hne

theorem exists_contains_ofSpans :
    (∃ s ∈ (ofSpans spans).spans, s.contains offset = true) ↔
      ∃ s ∈ spans, s.contains offset = true := by
  have hascending := ascending_sorted spans
  have hinputs : (∃ s ∈ sorted spans, s.contains offset = true) ↔
      ∃ s ∈ spans, s.contains offset = true := by
    constructor
    · rintro ⟨s, hs, hcontains⟩
      exact ⟨s, (mem_sorted.1 hs).1, hcontains⟩
    · rintro ⟨s, hs, hcontains⟩
      have hne : s.start ≠ s.stop := by
        have := Span.contains_eq_true.1 hcontains
        omega
      exact ⟨s, mem_sorted.2 ⟨hs, hne⟩, hcontains⟩
  rw [← hinputs]
  change (∃ s ∈ joinSorted (sorted spans), _) ↔ _
  cases hsorted : sorted spans with
  | nil => exact Iff.rfl
  | cons s ss =>
    rw [hsorted] at hascending
    exact exists_contains_joinInto hascending

/-- The spans of a set end where one of the spans joined ended. -/
theorem exists_stop_eq_of_mem_ofSpans (h : s ∈ (ofSpans spans).spans) :
    ∃ t ∈ spans, t.stop = s.stop := by
  change s ∈ joinSorted (sorted spans) at h
  cases hsorted : sorted spans with
  | nil =>
    rw [hsorted] at h
    cases h
  | cons t ts =>
    rw [hsorted] at h
    rcases exists_stop_eq_of_mem_joinInto h with ⟨u, hu, hstop⟩
    rw [← hsorted] at hu
    exact ⟨u, (mem_sorted.1 hu).1, hstop⟩

/-! ## Looking up -/

/-- There is no span at an offset that the set does not cover. -/
theorem spanAt?_eq_none {set : SpanSet} :
    set.spanAt? offset = none ↔ set.contains offset = false := by
  simp [contains]

/-- The span at an offset is one of the set that covers it. -/
theorem spanAt?_eq_some {set : SpanSet} (h : set.spanAt? offset = some s) :
    s ∈ set.spans ∧ s.start ≤ offset ∧ offset < s.stop := by
  rcases Option.filter_eq_some_iff.1 h with ⟨hfind, hcontains⟩
  exact ⟨List.mem_of_find?_eq_some hfind, Span.contains_eq_true.1 hcontains⟩

/-- In a set of separate spans, every covered offset is found. -/
theorem contains_eq_true {set : SpanSet} (h : Separate set.spans) :
    set.contains offset = true ↔ ∃ s ∈ set.spans, s.contains offset = true := by
  unfold contains
  rw [Option.isSome_iff_exists]
  constructor
  · rintro ⟨s, hs⟩
    rcases spanAt?_eq_some hs with ⟨hmem, hcontains⟩
    exact ⟨s, hmem, Span.contains_eq_true.2 hcontains⟩
  · rintro ⟨s, hmem, hcontains⟩
    have hbounds := Span.contains_eq_true.1 hcontains
    refine ⟨s, Option.filter_eq_some_iff.2 ⟨?_, hcontains⟩⟩
    rcases List.append_of_mem hmem with ⟨older, newer, hspans⟩
    rw [List.find?_eq_some_iff_append]
    -- the spans before it end before it starts, so it is the first that ends behind the offset
    refine ⟨by simpa using hbounds.2, older, newer, hspans, ?_⟩
    intro t ht
    have hapart := h.apart
    rw [hspans] at hapart
    have hlt := (List.pairwise_append.1 hapart).2.2 t ht s List.mem_cons_self
    simp only [Bool.not_eq_eq_eq_not, Bool.not_true, decide_eq_false_iff_not]
    omega

/-- The set of some spans covers what the spans cover. -/
theorem contains_ofSpans (hforward : ∀ s ∈ spans, s.start ≤ s.stop) :
    (ofSpans spans).contains offset = true ↔ ∃ s ∈ spans, s.contains offset = true := by
  rw [contains_eq_true (separate_ofSpans hforward), exists_contains_ofSpans]

/-- The span of a set that covers an offset is covered whole, and ends where one of the spans
joined ended. -/
theorem spanAt?_ofSpans (hforward : ∀ s ∈ spans, s.start ≤ s.stop)
    (h : (ofSpans spans).spanAt? offset = some s) :
    offset < s.stop ∧ (∃ t ∈ spans, t.stop = s.stop) ∧
      ∀ o, offset ≤ o → o < s.stop → (ofSpans spans).contains o = true := by
  rcases spanAt?_eq_some h with ⟨hmem, hstart, hstop⟩
  refine ⟨hstop, exists_stop_eq_of_mem_ofSpans hmem, ?_⟩
  intro o hle hlt
  apply (contains_eq_true (separate_ofSpans hforward)).2
  exact ⟨s, hmem, Span.contains_eq_true.2 ⟨Nat.le_trans hstart hle, hlt⟩⟩

end SpanSet

end Strata
