import Mathlib.Data.List.Perm.Basic
import Strata.Proofs.SpanSet

/-!
# Runs of covered bytes

The spans of a set are the maximal runs of bytes that are covered: what is covered on both sides of
a place is one span, however many spans it was covered by. So a set says only which bytes are
covered, and neither the order of the spans it was made of nor their number leaves a trace. The runs
come in order of their ends as well as of their starts, which is what lets the run around an offset
be looked for by halves.

* `Separate.mem_iff`: the spans of a set are the maximal runs;
* `ofSpans_eq_of_covers`: sets that cover the same bytes are the same;
* `exists_cut`: where to look for the run around an offset;
* `joins_ofSpans`: what a set holds and answers, by the spans it is made of.
-/

namespace Strata

namespace SpanSet

variable {spans others : List Span} {covered : Nat → Prop} {run other s : Span} {offset : Nat}

/-! ## Maximal runs -/

/-- A byte is in one of the spans. -/
def Covers (spans : List Span) (offset : Nat) : Prop := ∃ s ∈ spans, s.contains offset = true

/-- A span is a run of covered bytes that goes no further on either side. -/
structure IsRun (covered : Nat → Prop) (run : Span) : Prop where
  nonempty : run.start < run.stop
  inside : ∀ offset, run.start ≤ offset → offset < run.stop → covered offset
  before : ∀ offset, offset + 1 = run.start → ¬covered offset
  behind : ¬covered run.stop

/-- Around a byte there is only one maximal run. -/
theorem IsRun.unique (h : IsRun covered run) (hother : IsRun covered other)
    (hcontains : run.contains offset = true) (hcontains' : other.contains offset = true) :
    run = other := by
  rw [Span.contains_eq_true] at hcontains hcontains'
  -- where one starts earlier or ends later, it holds the byte that bounds the other
  have start_le : ∀ {r r' : Span}, IsRun covered r → IsRun covered r' → r'.start ≤ offset →
      offset < r.stop → r'.start ≤ r.start := by
    intro r r' hr hr' hle hlt
    by_contra hearlier
    exact hr'.before (r'.start - 1) (by omega) (hr.inside _ (by omega) (by omega))
  have stop_le : ∀ {r r' : Span}, IsRun covered r → IsRun covered r' → r.start ≤ offset →
      offset < r'.stop → r.stop ≤ r'.stop := by
    intro r r' hr hr' hle hlt
    by_contra hlater
    exact hr'.behind (hr.inside _ (by omega) (by omega))
  have hstart : run.start = other.start :=
    Nat.le_antisymm (start_le hother h hcontains.1 hcontains'.2)
      (start_le h hother hcontains'.1 hcontains.2)
  have hstop : run.stop = other.stop :=
    Nat.le_antisymm (stop_le h hother hcontains.1 hcontains'.2)
      (stop_le hother h hcontains'.1 hcontains.2)
  cases run
  cases other
  simp_all

/-- Of separate spans, each is a maximal run of what they cover. -/
theorem Separate.isRun (h : Separate spans) (hs : s ∈ spans) : IsRun (Covers spans) s := by
  rcases List.append_of_mem hs with ⟨older, newer, rfl⟩
  rcases List.pairwise_append.1 h.apart with ⟨-, hnewer, holder⟩
  have hnext := (List.pairwise_cons.1 hnewer).1
  have hne := h.nonempty s hs
  -- what stands next to a span on either side is in none of them
  have away : ∀ offset, (offset + 1 = s.start ∨ offset = s.stop) →
      ¬Covers (older ++ s :: newer) offset := by
    rintro offset hside ⟨t, ht, hcontains⟩
    rw [Span.contains_eq_true] at hcontains
    rcases List.mem_append.1 ht with ht | ht
    · have := holder t ht s List.mem_cons_self
      omega
    · rcases List.mem_cons.1 ht with rfl | ht
      · omega
      · have := hnext t ht
        omega
  constructor
  case nonempty => exact hne
  case inside =>
    intro offset hstart hstop
    exact ⟨s, hs, Span.contains_eq_true.2 ⟨hstart, hstop⟩⟩
  case before => exact fun offset hbefore => away offset (Or.inl hbefore)
  case behind => exact away s.stop (Or.inr rfl)

/-- Separate spans are the maximal runs of what they cover. -/
theorem Separate.mem_iff (h : Separate spans) : s ∈ spans ↔ IsRun (Covers spans) s := by
  constructor
  · exact h.isRun
  · intro hrun
    rcases hrun.inside s.start (Nat.le_refl _) hrun.nonempty with ⟨t, ht, hcontains⟩
    have hself : s.contains s.start = true :=
      Span.contains_eq_true.2 ⟨Nat.le_refl _, hrun.nonempty⟩
    rwa [hrun.unique (h.isRun ht) hself hcontains]

/-! ## What makes a set -/

/-- Separate spans come in order of their starts and of their ends. -/
theorem Separate.ordered (h : Separate spans) :
    spans.Pairwise fun s t => s.start < t.start ∧ s.stop < t.stop := by
  apply h.apart.imp_of_mem
  intro s t hs ht hapart
  have hsne := h.nonempty s hs
  have htne := h.nonempty t ht
  omega

/-- Separate spans that cover the same bytes are the same. -/
theorem Separate.eq_of_covers (h : Separate spans) (hothers : Separate others)
    (hcovers : ∀ offset, Covers spans offset ↔ Covers others offset) : spans = others := by
  have hsame : Covers spans = Covers others := funext fun offset => propext (hcovers offset)
  have hnodup : ∀ {ss : List Span}, Separate ss → ss.Nodup := by
    intro ss hss
    apply hss.ordered.imp
    rintro s t ⟨hlt, -⟩ rfl
    exact Nat.lt_irrefl _ hlt
  have hperm : spans.Perm others := by
    apply (List.perm_ext_iff_of_nodup (hnodup h) (hnodup hothers)).2
    intro s
    rw [h.mem_iff, hothers.mem_iff, hsame]
  apply hperm.eq_of_pairwise _ h.ordered hothers.ordered
  -- no two spans start before each other
  rintro s t _ _ ⟨hst, -⟩ ⟨hts, -⟩
  exact absurd hst (Nat.lt_asymm hts)

/-- Spans that cover the same bytes make the same set. -/
theorem ofSpans_eq_of_covers (hforward : ∀ s ∈ spans, s.start ≤ s.stop)
    (hforward' : ∀ s ∈ others, s.start ≤ s.stop)
    (hcovers : ∀ offset, Covers spans offset ↔ Covers others offset) :
    ofSpans spans = ofSpans others := by
  have hspans : (ofSpans spans).spans = (ofSpans others).spans := by
    apply (separate_ofSpans hforward).eq_of_covers (separate_ofSpans hforward')
    intro offset
    exact exists_contains_ofSpans.trans ((hcovers offset).trans exists_contains_ofSpans.symm)
  cases hset : ofSpans spans
  cases hset' : ofSpans others
  simp_all

/-! ## Looking for a run -/

/-- Where the ends ascend, the spans that end no later than an offset come before the others. -/
theorem exists_cut (h : spans.Pairwise fun s t => s.stop < t.stop) (offset : Nat) :
    ∃ older newer, spans = older ++ newer ∧ (∀ s ∈ older, s.stop ≤ offset) ∧
      (∀ s ∈ newer, offset < s.stop) ∧ spans.find? (offset < ·.stop) = newer.head? := by
  induction spans with
  | nil => exact ⟨[], [], rfl, by simp, by simp, rfl⟩
  | cons s spans ih =>
    rcases List.pairwise_cons.1 h with ⟨hfirst, hrest⟩
    by_cases hs : offset < s.stop
    · -- this one ends behind the offset, and the others end later
      refine ⟨[], s :: spans, rfl, by simp, ?_, List.find?_cons_of_pos (by simpa using hs)⟩
      intro t ht
      rcases List.mem_cons.1 ht with rfl | ht
      · exact hs
      · exact Nat.lt_trans hs (hfirst t ht)
    · rcases ih hrest with ⟨older, newer, rfl, holder, hnewer, hfind⟩
      refine ⟨s :: older, newer, rfl, ?_, hnewer, ?_⟩
      · intro t ht
        rcases List.mem_cons.1 ht with rfl | ht
        · exact Nat.le_of_not_lt hs
        · exact holder t ht
      · rw [List.find?_cons_of_neg (by simpa using hs), hfind]

/-- The span around an offset is the maximal run that it is in. -/
theorem Separate.spanAt?_eq_some_iff {set : SpanSet} (h : Separate set.spans) :
    set.spanAt? offset = some run ↔
      run.contains offset = true ∧ IsRun (Covers set.spans) run := by
  constructor
  · intro hspan
    rcases spanAt?_eq_some hspan with ⟨hmem, hbounds⟩
    exact ⟨Span.contains_eq_true.2 hbounds, h.isRun hmem⟩
  · rintro ⟨hcontains, hrun⟩
    have hset : set.contains offset = true :=
      (contains_eq_true h).2 ⟨run, h.mem_iff.2 hrun, hcontains⟩
    rcases Option.isSome_iff_exists.1 hset with ⟨s, hs⟩
    rcases spanAt?_eq_some hs with ⟨hmem, hbounds⟩
    rw [hs, (h.isRun hmem).unique hrun (Span.contains_eq_true.2 hbounds) hcontains]

/-! ## The set of some spans -/

/-- What a set that some spans are joined to holds and answers. -/
structure Joins (set : SpanSet) (spans : List Span) : Prop where
  /-- None of its spans is empty, and there is a gap between each two of them. -/
  separate : Separate set.spans
  ordered : set.spans.Pairwise fun s t => s.start < t.start ∧ s.stop < t.stop
  /-- It does not matter in which order and how often the spans are given. -/
  same : ∀ others : List Span, (∀ s, s ∈ others ↔ s ∈ spans) → ofSpans others = set
  contains : ∀ offset, set.contains offset = true ↔ Covers spans offset
  /-- The span around an offset is the maximal run of covered bytes that the offset is in. -/
  span : ∀ offset run, set.spanAt? offset = some run ↔
    run.contains offset = true ∧ IsRun (Covers spans) run
  nothing : ∀ offset, set.spanAt? offset = none ↔ ¬Covers spans offset
  /-- The spans that end no later than an offset come first, and the answer is the one behind them
  if it contains the offset. -/
  cut : ∀ offset, ∃ older newer, set.spans = older ++ newer ∧ (∀ s ∈ older, s.stop ≤ offset) ∧
    (∀ s ∈ newer, offset < s.stop) ∧
    set.spanAt? offset = newer.head?.filter (·.contains offset)

/-- Spans in any order, with any overlaps, are joined to the maximal runs of the bytes that they
cover. -/
theorem joins_ofSpans (hforward : ∀ s ∈ spans, s.start ≤ s.stop) : (ofSpans spans).Joins spans := by
  have hseparate := separate_ofSpans hforward
  have hcovers : Covers (ofSpans spans).spans = Covers spans :=
    funext fun offset => propext exists_contains_ofSpans
  have hcontains : ∀ offset, (ofSpans spans).contains offset = true ↔ Covers spans offset :=
    fun offset => contains_ofSpans hforward
  constructor
  case separate => exact hseparate
  case ordered => exact hseparate.ordered
  case same =>
    intro others hmem
    apply ofSpans_eq_of_covers (fun s hs => hforward s ((hmem s).1 hs)) hforward
    intro offset
    exact exists_congr fun s => and_congr_left fun _ => hmem s
  case contains => exact hcontains
  case span =>
    intro offset run
    rw [hseparate.spanAt?_eq_some_iff, hcovers]
  case nothing =>
    intro offset
    rw [spanAt?_eq_none, ← Bool.not_eq_true, hcontains]
  case cut =>
    intro offset
    rcases exists_cut (hseparate.ordered.imp And.right) offset with
      ⟨older, newer, hspans, holder, hnewer, hfind⟩
    exact ⟨older, newer, hspans, holder, hnewer, by rw [spanAt?, hfind]⟩

instance : DecidablePred (Covers spans) := fun offset =>
  inferInstanceAs (Decidable (∃ s ∈ spans, s.contains offset = true))

/-- Overlapping, touching, repeated and empty spans make one run, in whatever order they come. -/
theorem joins_ofSpans_touching :
    (∀ s ∈ [⟨6, 6⟩, ⟨1, 3⟩, ⟨0, 2⟩, ⟨3, 4⟩, ⟨1, 3⟩], Span.start s ≤ s.stop) ∧
    (ofSpans [⟨6, 6⟩, ⟨1, 3⟩, ⟨0, 2⟩, ⟨3, 4⟩, ⟨1, 3⟩]).spanAt? 2 = some ⟨0, 4⟩ ∧
    (ofSpans [⟨6, 6⟩, ⟨1, 3⟩, ⟨0, 2⟩, ⟨3, 4⟩, ⟨1, 3⟩]).spanAt? 4 = none ∧
    ofSpans [⟨0, 2⟩, ⟨1, 3⟩, ⟨3, 4⟩, ⟨6, 6⟩] =
      ofSpans [⟨6, 6⟩, ⟨1, 3⟩, ⟨0, 2⟩, ⟨3, 4⟩, ⟨1, 3⟩] := by
  have hforward : ∀ s ∈ [⟨6, 6⟩, ⟨1, 3⟩, ⟨0, 2⟩, ⟨3, 4⟩, ⟨1, 3⟩], Span.start s ≤ s.stop := by
    decide
  have hrun : IsRun (Covers [⟨6, 6⟩, ⟨1, 3⟩, ⟨0, 2⟩, ⟨3, 4⟩, ⟨1, 3⟩]) ⟨0, 4⟩ := by
    constructor
    case nonempty => decide
    case inside =>
      have hall : ∀ offset < 4,
          Covers [⟨6, 6⟩, ⟨1, 3⟩, ⟨0, 2⟩, ⟨3, 4⟩, ⟨1, 3⟩] offset := by decide
      exact fun offset _ hlt => hall offset hlt
    case before => exact fun offset hbefore => absurd hbefore (Nat.succ_ne_zero offset)
    case behind => decide
  refine ⟨hforward, ((joins_ofSpans hforward).span 2 ⟨0, 4⟩).2 ⟨by decide, hrun⟩,
    ((joins_ofSpans hforward).nothing 4).2 (by decide), (joins_ofSpans hforward).same _ ?_⟩
  intro s
  simp only [List.mem_cons, List.not_mem_nil, or_false]
  tauto

end SpanSet

end Strata
