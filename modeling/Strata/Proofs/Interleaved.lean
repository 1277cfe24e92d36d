import Mathlib.Data.List.Chain
import Strata.Proofs.Place
import Strata.Token.Segments

/-!
# Tokens and gaps in turn

Tokens that are well formed cut their text into tokens and gaps. Each gap is all that stands between
two tokens, so no two gaps follow each other, and put together the segments are the text again. They
can also be asked for one at a time: `SegmentWalk` remembers how far it has come, and which token is
due behind the gap that it gave last. Such a walk comes to its end, and what it gives on the way are
the segments.

* `yields_of_segmentsFrom`: a walk against `segmentsFrom`;
* `InterleavedFrom.token`, `InterleavedFrom.gap`: what one more segment preserves;
* `exists_segmentsFrom`: the segments behind a part of the text;
* `reconstruct_of_wellFormed`: the segments put together;
* `exists_interleaved`: the segments of a text, and the walk over them.
-/

namespace Strata

variable {text : Text} {tokens ts : List Token} {t : Token} {parts : List Segment} {cursor : Nat}

/-! ## One segment at a time -/

/-- A walk over the segments of a text. -/
structure SegmentWalk where
  /-- How far the walk has come. -/
  cursor : Nat
  /-- The token due behind the gap that came last. -/
  pending : Option Token
  /-- The tokens that come then. -/
  tokens : List Token

namespace SegmentWalk

def start (tokens : List Token) : SegmentWalk := ⟨0, none, tokens⟩

/-- The next segment, and the walk behind it. -/
def next? (text : Text) : SegmentWalk → Except Fault (Option (Segment × SegmentWalk))
  | ⟨_, some t, ts⟩ => .ok (some (.token t, ⟨t.span.stop, none, ts⟩))
  | ⟨cursor, none, t :: ts⟩ =>
    if cursor < t.span.start then do
      let gap ← slice text ⟨cursor, t.span.start⟩
      return some (.gap gap, ⟨t.span.start, some t, ts⟩)
    else
      .ok (some (.token t, ⟨t.span.stop, none, ts⟩))
  | ⟨cursor, none, []⟩ =>
    if cursor < byteLen text then do
      let gap ← slice text ⟨cursor, byteLen text⟩
      return some (.gap gap, ⟨byteLen text, none, []⟩)
    else
      .ok none

/-- The walk comes to its end, and gives some segments on the way. -/
inductive Yields (text : Text) : SegmentWalk → List Segment → Prop
  | done {w : SegmentWalk} (h : w.next? text = .ok none) : Yields text w []
  | next {w w' : SegmentWalk} {part : Segment} {parts : List Segment}
      (h : w.next? text = .ok (some (part, w'))) (hparts : Yields text w' parts) :
      Yields text w (part :: parts)

/-- A walk yields one list of segments at most. -/
theorem Yields.unique {w : SegmentWalk} {parts parts' : List Segment} (h : Yields text w parts)
    (h' : Yields text w parts') : parts = parts' := by
  induction h generalizing parts' with
  | done hend =>
    cases h' with
    | done _ => rfl
    | next hnext _ => rw [hend] at hnext; cases hnext
  | next hnext _ ih =>
    cases h' with
    | done hend => rw [hend] at hnext; cases hnext
    | next hnext' hparts' =>
      obtain ⟨rfl, rfl⟩ := by simpa using hnext.symm.trans hnext'
      rw [ih hparts']

/-- What the segments from a token on are: that token behind a gap, if there is one, and those
behind the token. -/
theorem exists_of_segmentsFrom_cons (h : segmentsFrom text cursor (t :: ts) = .ok parts) :
    ∃ rest, segmentsFrom text t.span.stop ts = .ok rest ∧
      ((¬cursor < t.span.start ∧ parts = .token t :: rest) ∨
        ∃ gap, cursor < t.span.start ∧ slice text ⟨cursor, t.span.start⟩ = .ok gap ∧
          parts = .gap gap :: .token t :: rest) := by
  rw [segmentsFrom] at h
  cases hrest : segmentsFrom text t.span.stop ts with
  | error fault =>
    rw [hrest] at h
    split at h
    · cases hgap : slice text ⟨cursor, t.span.start⟩ <;> rw [hgap] at h <;> cases h
    · cases h
  | ok rest =>
    rw [hrest] at h
    refine ⟨rest, rfl, ?_⟩
    split at h
    · rename_i hlt
      cases hgap : slice text ⟨cursor, t.span.start⟩ with
      | error fault =>
        rw [hgap] at h
        cases h
      | ok gap =>
        rw [hgap] at h
        cases h
        exact .inr ⟨gap, hlt, rfl, rfl⟩
    · rename_i hnot
      cases h
      exact .inl ⟨hnot, rfl⟩

/-- A walk gives the segments. -/
theorem yields_of_segmentsFrom (h : segmentsFrom text cursor tokens = .ok parts) :
    Yields text ⟨cursor, none, tokens⟩ parts := by
  induction tokens generalizing cursor parts with
  | nil =>
    rw [segmentsFrom] at h
    split at h
    · rename_i hlt
      cases hgap : slice text ⟨cursor, byteLen text⟩ with
      | error fault =>
        rw [hgap] at h
        cases h
      | ok gap =>
        rw [hgap] at h
        cases h
        have hnext : next? text ⟨cursor, none, []⟩ =
            .ok (some (.gap gap, ⟨byteLen text, none, []⟩)) := by
          rw [next?, if_pos hlt, hgap]
          rfl
        exact .next hnext (.done (by rw [next?, if_neg (Nat.lt_irrefl _)]))
    · rename_i hnot
      cases h
      exact .done (by rw [next?, if_neg hnot])
  | cons t ts ih =>
    rcases exists_of_segmentsFrom_cons h with
      ⟨rest, hrest, ⟨hnot, rfl⟩ | ⟨gap, hlt, hgap, rfl⟩⟩
    · exact .next (by rw [next?, if_neg hnot]) (ih hrest)
    · have hnext : next? text ⟨cursor, none, t :: ts⟩ =
          .ok (some (.gap gap, ⟨t.span.start, some t, ts⟩)) := by
        rw [next?, if_pos hlt, hgap]
        rfl
      exact .next hnext (.next rfl (ih hrest))

end SegmentWalk

/-! ## The segments of well-formed tokens -/

/-- The token that a segment is, if it is no gap. -/
def Segment.token? : Segment → Option Token
  | gap _ => none
  | token t => some t

/-- Where the last token of some segments ends, which are those from `cursor` on. -/
def lastStop (cursor : Nat) (parts : List Segment) : Nat :=
  (parts.filterMap Segment.token?).getLast?.elim cursor (·.span.stop)

/-- Where the first token of some segments starts, which are those up to the end of a text. -/
def firstStart (text : Text) (parts : List Segment) : Nat :=
  (parts.filterMap Segment.token?).head?.elim (byteLen text) (·.span.start)

/-- The segments of a text from `cursor` on: the tokens in their order, and everything between two
of them as one gap. -/
structure InterleavedFrom (text : Text) (cursor : Nat) (tokens : List Token)
    (parts : List Segment) : Prop where
  tokens_eq : parts.filterMap Segment.token? = tokens
  gap_ne_nil : ∀ gap, .gap gap ∈ parts → gap ≠ []
  /-- Of two segments side by side, one is a token. -/
  isChain : parts.IsChain fun a b => a.token?.isSome ∨ b.token?.isSome
  /-- A gap goes from the token before it to the token behind it. -/
  gap_eq : ∀ before gap after, parts = before ++ .gap gap :: after →
    slice text ⟨lastStop cursor before, firstStart text after⟩ = .ok gap

theorem wellFormedFrom_cons :
    wellFormedFrom text cursor (t :: ts) = true ↔
      cursor ≤ t.span.start ∧ t.span.start < t.span.stop ∧ slice text t.span = .ok t.lexeme ∧
        wellFormedFrom text t.span.stop ts = true := by
  rw [wellFormedFrom]
  cases hslice : slice text t.span with
  | error fault => simp
  | ok lexeme =>
    rcases slice_eq_ok.1 hslice with ⟨front, back, -, -, hstop⟩
    have hlt : t.span.start < t.span.stop ↔ t.span.start ≠ t.span.stop := by omega
    simp [Span.isEmpty, hlt, and_assoc]

/-- What stands between two tokens is a gap, unless it is nothing. -/
def gapOf : Text → List Segment
  | [] => []
  | c :: t => [.gap (c :: t)]

theorem flatMap_text_gapOf (gap : Text) : (gapOf gap).flatMap Segment.text = gap := by
  cases gap with
  | nil => rfl
  | cons c t => exact List.append_nil _

/-- Behind the last token there is only a gap, or nothing. -/
theorem segmentsFrom_nil {passed gap : Text} (htext : text = passed ++ gap) :
    segmentsFrom text (byteLen passed) [] = .ok (gapOf gap) := by
  have hlen : byteLen text = byteLen passed + byteLen gap := by rw [htext, byteLen_append]
  cases gap with
  | nil =>
    rw [segmentsFrom, if_neg (by simp [hlen])]
    rfl
  | cons c t =>
    have hpos := byteLen_pos (List.cons_ne_nil c t)
    have hslice : slice text ⟨byteLen passed, byteLen text⟩ = .ok (c :: t) :=
      slice_eq_ok.2 ⟨passed, [], by rw [htext, List.append_nil], rfl, hlen⟩
    rw [segmentsFrom, if_pos (by omega), hslice]
    rfl

/-- The segments up to a token are the gap before it, unless it is empty, and the token. -/
theorem segmentsFrom_cons {passed gap back : Text} (htext : text = passed ++ gap ++ back)
    (hstart : t.span.start = byteLen (passed ++ gap))
    (hparts : segmentsFrom text t.span.stop ts = .ok parts) :
    segmentsFrom text (byteLen passed) (t :: ts) = .ok (gapOf gap ++ .token t :: parts) := by
  rw [byteLen_append] at hstart
  cases gap with
  | nil =>
    rw [segmentsFrom, if_neg (by simp [hstart]), hparts]
    rfl
  | cons c u =>
    have hpos := byteLen_pos (List.cons_ne_nil c u)
    have hslice : slice text ⟨byteLen passed, t.span.start⟩ = .ok (c :: u) :=
      slice_eq_ok.2 ⟨passed, back, htext, rfl, hstart⟩
    rw [segmentsFrom, if_pos (by omega), hslice, hparts]
    rfl

theorem lastStop_token (before : List Segment) :
    lastStop cursor (.token t :: before) = lastStop t.span.stop before := by
  have hcons : (Segment.token t :: before).filterMap Segment.token? =
      t :: before.filterMap Segment.token? := rfl
  rw [lastStop, hcons, List.getLast?_cons, lastStop]
  cases (before.filterMap Segment.token?).getLast? <;> rfl

/-- A gap alone is interleaved with no tokens. -/
theorem interleavedFrom_nil {passed gap : Text} (htext : text = passed ++ gap) :
    InterleavedFrom text (byteLen passed) [] (gapOf gap) := by
  cases gap with
  | nil => exact ⟨rfl, by simp [gapOf], List.isChain_nil, by simp [gapOf]⟩
  | cons c t =>
    refine ⟨rfl, by simp [gapOf], List.isChain_singleton _, ?_⟩
    intro before gap after hparts
    obtain ⟨rfl, rfl, rfl⟩ : before = [] ∧ gap = c :: t ∧ after = [] := by
      cases before <;> simp_all [gapOf]
    exact slice_eq_ok.2 ⟨passed, [], by rw [htext, List.append_nil], rfl,
      by rw [htext]; exact byteLen_append _ _⟩

/-- What one more token preserves. -/
theorem InterleavedFrom.token (h : InterleavedFrom text t.span.stop ts parts) :
    InterleavedFrom text cursor (t :: ts) (.token t :: parts) where
  tokens_eq := congrArg (t :: ·) h.tokens_eq
  gap_ne_nil gap hgap := h.gap_ne_nil gap (by simpa using hgap)
  isChain := List.isChain_cons.2 ⟨fun _ _ => .inl rfl, h.isChain⟩
  gap_eq before gap after hparts := by
    cases before with
    | nil => cases hparts
    | cons part before =>
      obtain ⟨rfl, hrest⟩ := List.cons.inj hparts
      rw [lastStop_token]
      exact h.gap_eq before gap after hrest

/-- What one more gap preserves, which a token is behind. -/
theorem InterleavedFrom.gap {gap : Text}
    (h : InterleavedFrom text cursor tokens (.token t :: parts)) (hne : gap ≠ [])
    (hgap : slice text ⟨cursor, t.span.start⟩ = .ok gap) :
    InterleavedFrom text cursor tokens (.gap gap :: .token t :: parts) where
  tokens_eq := h.tokens_eq
  gap_ne_nil other hother := by
    rcases List.mem_cons.1 hother with heq | hother
    · cases heq
      exact hne
    · exact h.gap_ne_nil other hother
  isChain := List.isChain_cons.2 ⟨fun _ hpart => by cases hpart; exact .inr rfl, h.isChain⟩
  gap_eq before other after hparts := by
    rcases before with _ | ⟨part, _ | ⟨part', before⟩⟩
    · cases hparts
      exact hgap
    · cases hparts
    · obtain ⟨rfl, hrest⟩ := List.cons.inj hparts
      exact h.gap_eq (part' :: before) other after hrest

/-- The segments behind a part of the text. -/
theorem exists_segmentsFrom {passed rest : Text} (htext : text = passed ++ rest)
    (h : wellFormedFrom text (byteLen passed) tokens = true) :
    ∃ parts, segmentsFrom text (byteLen passed) tokens = .ok parts ∧
      InterleavedFrom text (byteLen passed) tokens parts ∧
      parts.flatMap Segment.text = rest := by
  -- what has been passed ends where the last token did
  induction tokens generalizing passed rest with
  | nil =>
    exact ⟨_, segmentsFrom_nil htext, interleavedFrom_nil htext, flatMap_text_gapOf rest⟩
  | cons t ts ih =>
    rcases wellFormedFrom_cons.1 h with ⟨hle, -, hslice, hlater⟩
    rcases slice_eq_ok.1 hslice with ⟨front, back, hfront, hstart, hstop⟩
    rw [← hstart] at hle
    rw [List.append_assoc] at hfront
    rcases exists_middle_of_byteLen_le (htext.symm.trans hfront) hle with ⟨gap, rfl, rfl⟩
    have hstop' : t.span.stop = byteLen (passed ++ gap ++ t.lexeme) := by
      rw [hstop, ← hstart, byteLen_append (passed ++ gap)]
    rw [← List.append_assoc] at hfront
    rw [hstop'] at hlater
    rcases ih hfront hlater with ⟨parts, hparts, hinterleaved, hflat⟩
    rw [← hstop'] at hparts hinterleaved
    refine ⟨gapOf gap ++ .token t :: parts,
      segmentsFrom_cons (by rw [hfront, List.append_assoc]) hstart.symm hparts, ?_, ?_⟩
    · cases gap with
      | nil => exact hinterleaved.token
      | cons c u =>
        have htoken : InterleavedFrom text (byteLen passed) (t :: ts) (.token t :: parts) :=
          hinterleaved.token
        refine htoken.gap (List.cons_ne_nil c u) (slice_eq_ok.2 ?_)
        exact ⟨passed, t.lexeme ++ back, htext.trans (by simp), rfl,
          by rw [← hstart, byteLen_append]⟩
    · rw [List.flatMap_append, flatMap_text_gapOf, List.flatMap_cons, hflat]
      rfl

/-- Well-formed tokens, with the gaps around them, are the text. -/
theorem reconstruct_of_wellFormed (h : wellFormed text tokens = true) :
    reconstruct text tokens = .ok text := by
  have htext : text = [] ++ text := rfl
  rcases exists_segmentsFrom htext h with ⟨parts, hparts, -, hflat⟩
  have hsegments : segments text tokens = .ok parts := hparts
  rw [reconstruct, hsegments]
  exact congrArg Except.ok hflat

/-- Whatever well-formed tokens a text has, a walk over them comes to its end. It gives the tokens
in their order, and between two of them everything as one gap, which is left out if there is
nothing. Put together, what it gives is the text. -/
theorem exists_interleaved (h : wellFormed text tokens = true) :
    ∃ parts, segments text tokens = .ok parts ∧
      (∀ other, (SegmentWalk.start tokens).Yields text other ↔ other = parts) ∧
      InterleavedFrom text 0 tokens parts ∧ parts.flatMap Segment.text = text := by
  have htext : text = [] ++ text := rfl
  rcases exists_segmentsFrom htext h with ⟨parts, hparts, hinterleaved, hflat⟩
  have hyields : (SegmentWalk.start tokens).Yields text parts :=
    SegmentWalk.yields_of_segmentsFrom hparts
  refine ⟨parts, hparts, ?_, hinterleaved, hflat⟩
  intro other
  constructor
  · intro hother
    exact hother.unique hyields
  · rintro rfl
    exact hyields

/-- Two tokens side by side, of which the first has an accent, and gaps around a third. -/
theorem exists_interleaved_accented :
    wellFormed ['é', 'a', '=', ' ', '1', ';'] [⟨.unknown, ['é'], ⟨0, 2⟩⟩,
        ⟨.identifier, ['a'], ⟨2, 3⟩⟩, ⟨.decimal, ['1'], ⟨5, 6⟩⟩] = true ∧
      ∃ parts, segments ['é', 'a', '=', ' ', '1', ';'] [⟨.unknown, ['é'], ⟨0, 2⟩⟩,
          ⟨.identifier, ['a'], ⟨2, 3⟩⟩, ⟨.decimal, ['1'], ⟨5, 6⟩⟩] = .ok parts ∧
        parts.flatMap Segment.text = ['é', 'a', '=', ' ', '1', ';'] := by
  have hwell : wellFormed ['é', 'a', '=', ' ', '1', ';'] [⟨.unknown, ['é'], ⟨0, 2⟩⟩,
      ⟨.identifier, ['a'], ⟨2, 3⟩⟩, ⟨.decimal, ['1'], ⟨5, 6⟩⟩] = true := by decide +kernel
  rcases exists_interleaved hwell with ⟨parts, hparts, -, -, hflat⟩
  exact ⟨hwell, parts, hparts, hflat⟩

end Strata
