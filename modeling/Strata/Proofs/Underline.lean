import Strata.Proofs.Positions

/-!
# Carets under a span

The carets under a line start in the column that a span starts in, and there is one at least. If the
span goes on to another line, they go on to the end of the line as it is shown, and the one that
there must be may stand a column behind it. But the line is shown without the carriage returns at
its end, and the column is counted with them. So a span that starts behind the first of them cannot
be marked: its carets would have to end before they start. All this is said of texts whose lines and
columns 32 bits keep.

* `length_shown_lt_iff`: when a line is shown only up to a place before a boundary on it;
* `underlined_iff`: which spans are marked, and how.
-/

namespace Strata

variable {front middle back line t : Text} {index : LineIndex} {span : Span}
  {start stop : Position} {shown : Text} {label message : String}

/-! ## What is drawn -/

/-- A line with carets under it. -/
structure Underline where
  start : Position
  shown : Text
  carets : Nat

/-- A message with its line and its carets, which stand behind margins of the same width. -/
def Underline.render (u : Underline) (label message : String) : String :=
  let number := toString u.start.line
  let margin := String.ofList (List.replicate number.length ' ')
  label ++ ": " ++ message ++ "\n  --> " ++ u.start.render ++ "\n" ++ margin ++ " |\n" ++
    number ++ " | " ++ String.ofList u.shown ++ "\n" ++ margin ++ " | " ++
    String.ofList (List.replicate (u.start.column - 1) ' ' ++ List.replicate u.carets '^') ++ "\n"

/-- The line is the one that the span starts on, and the carets are under the span. -/
structure Underline.Marks (u : Underline) (index : LineIndex) (span : Span) : Prop where
  start : index.positionAt span.start = .ok u.start
  fits : u.start.Fits
  shown : index.line? u.start.line = some u.shown
  carets_pos : 0 < u.carets
  /-- On one line, the carets go up to the end of the span. -/
  same : ∀ stop, index.positionAt span.stop = .ok stop → stop.line = u.start.line →
    u.carets = max (stop.column - u.start.column) 1
  /-- If the span goes on to a later line, no caret is more than a column behind the line. -/
  other : ∀ stop, index.positionAt span.stop = .ok stop → u.start.line < stop.line →
    u.start.column + u.carets ≤ u.shown.length + 2

/-- Where the ends of a span are, and the line that it starts on, as it is shown. -/
structure LineIndex.Sees (index : LineIndex) (span : Span) (start stop : Position) (shown : Text) :
    Prop where
  starts : index.positionAt span.start = .ok start
  fits : start.Fits
  stops : index.positionAt span.stop = .ok stop
  line : index.line? start.line = some shown

/-- A message is drawn as soon as the carets are counted. -/
theorem LineIndex.Sees.excerpt (h : index.Sees span start stop shown) (label message : String) :
    index.excerpt span label message =
      (LineIndex.caretCount span start stop shown).map fun carets =>
        Underline.render ⟨start, shown, carets⟩ label message := by
  simp only [LineIndex.excerpt, h.starts, h.stops, bind, Except.bind, h.line]
  cases LineIndex.caretCount span start stop shown <;> rfl

/-- A span is marked if it ends on the line that it starts on. -/
theorem LineIndex.Sees.exists_underline_same (h : index.Sees span start stop shown)
    (hline : start.line = stop.line) (hle : start.column ≤ stop.column) (label message : String) :
    ∃ u : Underline, u.Marks index span ∧
      index.excerpt span label message = .ok (u.render label message) := by
  refine ⟨⟨start, shown, max (stop.column - start.column) 1⟩, ?_, ?_⟩
  · constructor
    case start => exact h.starts
    case fits => exact h.fits
    case shown => exact h.line
    case carets_pos => exact Nat.lt_of_lt_of_le Nat.one_pos (Nat.le_max_right _ _)
    case same =>
      intro other hother _
      rw [h.stops] at hother
      cases hother
      rfl
    case other =>
      intro other hother hlt
      rw [h.stops] at hother
      cases hother
      exact absurd hline (Nat.ne_of_lt hlt)
  · rw [h.excerpt, caretCount_same hline hle]
    rfl

/-- A span that goes on to another line is marked if it does not start behind the line. -/
theorem LineIndex.Sees.exists_underline_other (h : index.Sees span start stop shown)
    (hline : start.line ≠ stop.line) (hle : start.column ≤ shown.length + 1)
    (label message : String) :
    ∃ u : Underline, u.Marks index span ∧
      index.excerpt span label message = .ok (u.render label message) := by
  refine ⟨⟨start, shown, max (shown.length + 1 - start.column) 1⟩, ?_, ?_⟩
  · constructor
    case start => exact h.starts
    case fits => exact h.fits
    case shown => exact h.line
    case carets_pos => exact Nat.lt_of_lt_of_le Nat.one_pos (Nat.le_max_right _ _)
    case same =>
      intro other hother hsame
      rw [h.stops] at hother
      cases hother
      exact absurd hsame.symm hline
    case other =>
      intro other _ _
      dsimp only
      omega
  · rw [h.excerpt, caretCount_other hline, if_neg (Nat.not_lt_of_le hle)]
    rfl

/-- If it does, no message is drawn. -/
theorem LineIndex.Sees.excerpt_eq_error (h : index.Sees span start stop shown)
    (hline : start.line ≠ stop.line) (hlt : shown.length + 1 < start.column)
    (label message : String) : index.excerpt span label message = .error (.backwards span) := by
  rw [h.excerpt, caretCount_other hline, if_pos hlt]
  rfl

/-! ## Spans that start among carriage returns -/

/-- A span starts in the end of a line, behind the first of its carriage returns, and holds the line
feed that ends it. -/
def StartsInReturns (t : Text) (span : Span) : Prop :=
  ∃ front returns back, t = front ++ '\r' :: (returns ++ '\n' :: back) ∧ (∀ c ∈ returns, c = '\r') ∧
    span.start = byteLen front + 1 ∧ span.start + byteLen returns < span.stop

/-- A line is shown only up to a place before a boundary on it if it ends in carriage returns from
before the boundary on. -/
theorem length_shown_lt_iff :
    ((front ++ back).rdropWhile (· = '\r')).length < front.length ↔
      front.getLast? = some '\r' ∧ ∀ c ∈ back, c = '\r' := by
  constructor
  · intro hlt
    constructor
    · cases front using List.reverseRecOn with
      | nil => exact absurd hlt (Nat.not_lt_zero _)
      | append_singleton front c =>
        by_contra hc
        have hshown := length_lt_of_shown front back (c := c) (by simpa using hc)
        rw [List.append_assoc, List.length_append] at hlt
        simp only [List.cons_append, List.nil_append, List.length_singleton] at hlt
        omega
    · intro c hc
      by_contra hne
      rcases List.append_of_mem hc with ⟨before, behind, rfl⟩
      have hshown := length_lt_of_shown (front ++ before) behind hne
      rw [← List.append_assoc] at hlt
      rw [List.length_append] at hshown
      omega
  · rintro ⟨hlast, hback⟩
    rcases List.getLast?_eq_some_iff.1 hlast with ⟨front, rfl⟩
    have hreturns : ∀ c ∈ (['\r'] ++ back).reverse, decide (c = '\r') = true := by
      intro c hc
      simp only [List.mem_reverse, List.singleton_append, List.mem_cons] at hc
      rcases hc with rfl | hc
      · rfl
      · simpa using hback c hc
    have hshown : (front ++ ['\r'] ++ back).rdropWhile (· = '\r') =
        front.rdropWhile (· = '\r') := by
      rw [List.append_assoc, List.rdropWhile, List.reverse_append,
        List.dropWhile_append_of_pos hreturns, ← List.rdropWhile]
    have hle := (List.rdropWhile_prefix (fun c => decide (c = '\r')) (l := front)).length_le
    rw [hshown, List.length_append, List.length_singleton]
    omega

/-- Such a span holds a line feed, and there are only carriage returns between its start and the
end of the line. -/
theorem mem_of_startsInReturns
    (h : StartsInReturns (front ++ middle ++ back) ⟨byteLen front, byteLen (front ++ middle)⟩) :
    '\n' ∈ middle ∧ (lastLine front).getLast? = some '\r' ∧
      ∀ c ∈ (middle ++ back).takeWhile (· ≠ '\n'), c = '\r' := by
  rcases h with ⟨f, returns, b, htext, hreturns, hstart, hstop⟩
  have hsize : ('\r' : Char).utf8Size = 1 := rfl
  have hfront : front = f ++ ['\r'] ∧ middle ++ back = returns ++ '\n' :: b := by
    apply append_inj_of_byteLen
    · simpa using htext
    · rw [byteLen_append, byteLen_cons, byteLen_nil, hsize]
      exact hstart
  rcases hfront with ⟨rfl, hrest⟩
  have hbreak : ∀ c ∈ returns, decide (c ≠ '\n') = true := by
    intro c hc
    rw [hreturns c hc]
    rfl
  refine ⟨?_, ?_, ?_⟩
  · dsimp only at hstop
    rw [byteLen_append (f ++ ['\r'])] at hstop
    rcases exists_middle_of_byteLen_le hrest.symm (by omega) with ⟨m, rfl, hm⟩
    cases m with
    | nil => simp at hstop
    | cons c m =>
      rw [List.cons_append] at hm
      rw [← (List.cons.inj hm).1]
      simp
  · rw [lastLine_concat f (by decide)]
    exact List.getLast?_concat
  · rw [hrest, List.takeWhile_append_of_pos hbreak, List.takeWhile_cons_of_neg (by simp),
      List.append_nil]
    exact hreturns

/-- Between a carriage return and the line feed that the span holds, there are only others. -/
theorem startsInReturns_of_mem (hbreak : '\n' ∈ middle)
    (hlast : (lastLine front).getLast? = some '\r')
    (hreturns : ∀ c ∈ (middle ++ back).takeWhile (· ≠ '\n'), c = '\r') :
    StartsInReturns (front ++ middle ++ back) ⟨byteLen front, byteLen (front ++ middle)⟩ := by
  rcases List.eq_append_cons_of_mem hbreak with ⟨returns, m, rfl, hnone⟩
  have hothers : ∀ c ∈ returns, decide (c ≠ '\n') = true := by
    intro c hc
    rw [decide_eq_true_eq]
    rintro rfl
    exact hnone hc
  rw [List.append_assoc, List.takeWhile_append_of_pos hothers, List.cons_append,
    List.takeWhile_cons_of_neg (by simp), List.append_nil] at hreturns
  rcases exists_lastLine front with ⟨earlier, hfront, -, -⟩
  rcases List.getLast?_eq_some_iff.1 hlast with ⟨l, hl⟩
  rw [hl, ← List.append_assoc] at hfront
  have hsize : ('\r' : Char).utf8Size = 1 := rfl
  refine ⟨earlier ++ l, returns, m ++ back, ?_, hreturns, ?_, ?_⟩
  · rw [hfront]
    simp
  · rw [hfront, byteLen_append, byteLen_cons, byteLen_nil, hsize]
  · have hpos := ('\n' : Char).utf8Size_pos
    simp only [byteLen_append, byteLen_cons]
    omega

/-! ## Which spans are marked -/

/-- A part of a text, as it is seen. -/
theorem sees_append (hsize : byteLen (front ++ middle ++ back) < 4294967295) :
    (LineIndex.ofText (front ++ middle ++ back)).Sees ⟨byteLen front, byteLen (front ++ middle)⟩
      ⟨byteLen front, front.count '\n' + 1, (lastLine front).length + 1⟩
      ⟨byteLen (front ++ middle), (front ++ middle).count '\n' + 1,
        (lastLine (front ++ middle)).length + 1⟩
      ((lastLine front ++ (middle ++ back).takeWhile (· ≠ '\n')).rdropWhile (· = '\r')) := by
  have hmiddle := byteLen_lt_of_append hsize
  have hfront := byteLen_lt_of_append hmiddle
  rw [← behind_of_lt hfront, ← behind_of_lt hmiddle]
  constructor
  case starts =>
    rw [List.append_assoc]
    exact positionAt_append front (middle ++ back)
  case fits => exact fits_behind hfront
  case stops => exact positionAt_append (front ++ middle) back
  case line =>
    rw [behind_of_lt hfront]
    rw [List.append_assoc]
    exact line?_eq_some_iff.2 ⟨_, isLineAt_append front (middle ++ back), rfl⟩

/-- A span is marked, unless it starts in the returns at the end of its line. -/
theorem exists_underline (hsize : byteLen (front ++ middle ++ back) < 4294967295)
    (label message : String)
    (h : ¬StartsInReturns (front ++ middle ++ back) ⟨byteLen front, byteLen (front ++ middle)⟩) :
    ∃ u : Underline, u.Marks (LineIndex.ofText (front ++ middle ++ back))
        ⟨byteLen front, byteLen (front ++ middle)⟩ ∧
      (LineIndex.ofText (front ++ middle ++ back)).excerpt
        ⟨byteLen front, byteLen (front ++ middle)⟩ label message =
          .ok (u.render label message) := by
  by_cases hbreak : '\n' ∈ middle
  · apply (sees_append hsize).exists_underline_other (count_ne_of_mem hbreak)
    by_contra hbehind
    have hshown := length_shown_lt_iff.1 (Nat.lt_of_succ_lt_succ (Nat.lt_of_not_le hbehind))
    exact h (startsInReturns_of_mem hbreak hshown.1 hshown.2)
  · apply (sees_append hsize).exists_underline_same
    · dsimp only
      rw [List.count_append, List.count_eq_zero_of_not_mem hbreak, Nat.add_zero]
    · dsimp only
      rw [lastLine_append hbreak, List.length_append]
      omega

/-- The carets of a span that does would have to end before they start. -/
theorem excerpt_of_startsInReturns (hsize : byteLen (front ++ middle ++ back) < 4294967295)
    (label message : String)
    (h : StartsInReturns (front ++ middle ++ back) ⟨byteLen front, byteLen (front ++ middle)⟩) :
    (LineIndex.ofText (front ++ middle ++ back)).excerpt
        ⟨byteLen front, byteLen (front ++ middle)⟩ label message =
      .error (.backwards ⟨byteLen front, byteLen (front ++ middle)⟩) := by
  rcases mem_of_startsInReturns h with ⟨hbreak, hlast, hreturns⟩
  apply (sees_append hsize).excerpt_eq_error (count_ne_of_mem hbreak)
  exact Nat.succ_lt_succ (length_shown_lt_iff.2 ⟨hlast, hreturns⟩)

/-- A span of a text is marked with a caret at least, exactly if it does not start behind the first
carriage return of the end of a line that it goes beyond. -/
theorem underlined_iff (hsize : byteLen t < 4294967295) (hforward : span.start ≤ span.stop)
    (hstart : isBoundary t span.start = true) (hstop : isBoundary t span.stop = true)
    (label message : String) :
    ((∃ u : Underline, u.Marks (LineIndex.ofText t) span ∧
        (LineIndex.ofText t).excerpt span label message = .ok (u.render label message)) ↔
      ¬StartsInReturns t span) ∧
    (StartsInReturns t span →
      (LineIndex.ofText t).excerpt span label message = .error (.backwards span)) := by
  rcases span with ⟨start, stop⟩
  rcases isBoundary_eq_true.1 hstart with ⟨front, rest, htext, rfl⟩
  rcases isBoundary_eq_true.1 hstop with ⟨front', back, rfl, rfl⟩
  rcases exists_middle_of_byteLen_le htext.symm hforward with ⟨middle, rfl, -⟩
  refine ⟨⟨?_, exists_underline hsize label message⟩,
    excerpt_of_startsInReturns hsize label message⟩
  rintro ⟨u, -, hdrawn⟩ hreturns
  rw [excerpt_of_startsInReturns hsize label message hreturns] at hdrawn
  cases hdrawn

/-- A line feed with what follows it is marked behind a line without carriage returns. -/
theorem underlined_iff_line_feed : byteLen ['a', '\n', 'b'] < 4294967295 ∧
    isBoundary ['a', '\n', 'b'] 1 = true ∧ isBoundary ['a', '\n', 'b'] 3 = true ∧
    ∃ u : Underline, u.Marks (LineIndex.ofText ['a', '\n', 'b']) ⟨1, 3⟩ ∧
      (LineIndex.ofText ['a', '\n', 'b']).excerpt ⟨1, 3⟩ "error" "m" =
        .ok (u.render "error" "m") := by
  have hsize : byteLen ['a', '\n', 'b'] < 4294967295 := by decide
  have hstart : isBoundary ['a', '\n', 'b'] 1 = true :=
    isBoundary_eq_true.2 ⟨['a'], ['\n', 'b'], rfl, rfl⟩
  have hstop : isBoundary ['a', '\n', 'b'] 3 = true :=
    isBoundary_eq_true.2 ⟨['a', '\n', 'b'], [], rfl, rfl⟩
  refine ⟨hsize, hstart, hstop,
    (underlined_iff hsize (by decide) hstart hstop "error" "m").1.2 ?_⟩
  rintro ⟨front, returns, back, htext, -⟩
  have hreturn : '\r' ∈ ['a', '\n', 'b'] := by
    rw [htext]
    simp
  revert hreturn
  decide

/-- A line feed behind a carriage return is no span that can be marked. -/
theorem line_feed_behind_return_not_drawn :
    isBoundary ['a', '\r', '\n', 'b'] 2 = true ∧ isBoundary ['a', '\r', '\n', 'b'] 3 = true ∧
      (LineIndex.ofText ['a', '\r', '\n', 'b']).excerpt ⟨2, 3⟩ "error" "m" =
        .error (.backwards ⟨2, 3⟩) := by
  refine ⟨isBoundary_eq_true.2 ⟨['a', '\r'], ['\n', 'b'], rfl, rfl⟩,
    isBoundary_eq_true.2 ⟨['a', '\r', '\n'], ['b'], rfl, rfl⟩, ?_⟩
  exact @excerpt_of_startsInReturns ['a', '\r'] ['\n'] ['b'] (by decide) "error" "m"
    ⟨['a'], [], ['b'], rfl, by simp, by decide, by decide⟩

end Strata
