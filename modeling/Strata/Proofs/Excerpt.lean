import Strata.Proofs.Lines

/-!
# Lines with carets

A message is shown with the line that its span starts on, and carets under the span. The carets
start in the column of the span and go on to its end, or to the end of the line if the span goes on
to another one. Carriage returns at the end of a line are not shown, so a span that started in one
of them could be behind the end of its line; a span that starts with any other character is not.

* `length_lt_of_shown`: how far a line is shown;
* `caretCount_same`, `caretCount_other`: how many carets there are;
* `canShow_append`: a span that carets can be put under;
* `LineIndex.CanShow.exists_excerpt`: a message with its line and its carets;
* `fits_behind`, `finds_of_isBoundary`: lines and columns count from one, and are numbers of 32
  bits.
-/

namespace Strata

variable {front middle back t shown : Text} {c : Char} {index : LineIndex} {span : Span}
  {start stop : Position}

/-! ## Shown lines -/

/-- A line is shown at least up to a character that is no carriage return. -/
theorem length_lt_of_shown (front back : Text) (hc : c ≠ '\r') :
    front.length < ((front ++ c :: back).rdropWhile (· = '\r')).length := by
  have hreverse : (front ++ c :: back).reverse = back.reverse ++ c :: front.reverse := by simp
  rw [List.rdropWhile, List.length_reverse, hreverse, List.dropWhile_append]
  split
  · rw [List.dropWhile_cons_of_neg (by simpa using hc), List.length_cons, List.length_reverse]
    exact Nat.lt_succ_self _
  · rw [List.length_append, List.length_cons, List.length_reverse]
    omega

/-! ## Carets -/

/-- On one line, carets go up to the end of the span. -/
theorem caretCount_same (hline : start.line = stop.line) (hle : start.column ≤ stop.column) :
    LineIndex.caretCount span start stop shown = .ok (max (stop.column - start.column) 1) := by
  rw [LineIndex.caretCount, if_pos hline]
  exact if_neg (Nat.not_lt_of_le hle)

/-- If the span ends on another line, carets go up to the end of the line, unless the span starts
behind it. -/
theorem caretCount_other (hline : start.line ≠ stop.line) :
    LineIndex.caretCount span start stop shown =
      if shown.length + 1 < start.column then .error (.backwards span)
      else .ok (max (shown.length + 1 - start.column) 1) := by
  rw [LineIndex.caretCount, if_neg hline]

/-- Behind a part with a line feed, a reader is on a later line. -/
theorem count_ne_of_mem (h : '\n' ∈ middle) :
    front.count '\n' + 1 ≠ (front ++ middle).count '\n' + 1 := by
  have := List.count_pos_iff.2 h
  rw [List.count_append]
  omega

/-- A span can be shown: both its ends have positions, it starts on a line, and carets can be put
under it. -/
def LineIndex.CanShow (index : LineIndex) (span : Span) : Prop :=
  ∃ start stop shown carets, index.positionAt span.start = .ok start ∧
    index.positionAt span.stop = .ok stop ∧ index.line? start.line = some shown ∧
    LineIndex.caretCount span start stop shown = .ok carets

/-- A part of a text can be shown if it starts with any other character than the end of a line. -/
theorem canShow_append (front back : Text) (hsize : byteLen (front ++ middle) < 4294967295)
    (hmiddle : middle.head? = some c) (hfeed : c ≠ '\n') (hreturn : c ≠ '\r') :
    (LineIndex.ofText (front ++ middle ++ back)).CanShow
      ⟨byteLen front, byteLen (front ++ middle)⟩ := by
  have hfront := byteLen_lt_of_append hsize
  have hstart := positionAt_append front (middle ++ back)
  have hstop := positionAt_append (front ++ middle) back
  rw [behind_of_lt hfront] at hstart
  rw [behind_of_lt hsize] at hstop
  have hline := line?_eq_some_iff.2 ⟨_, isLineAt_append front (middle ++ back), rfl⟩
  rw [← List.append_assoc] at hstart hline
  by_cases hbreak : '\n' ∈ middle
  · -- the line is shown up to the start of the part at least
    rcases List.head?_eq_some_iff.1 hmiddle with ⟨t, rfl⟩
    rw [List.cons_append, List.takeWhile_cons_of_pos (by simpa using hfeed)] at hline
    have hlt := length_lt_of_shown (lastLine front) ((t ++ back).takeWhile (· ≠ '\n')) hreturn
    refine ⟨_, _, _, _, hstart, hstop, hline,
      (caretCount_other (count_ne_of_mem hbreak)).trans (if_neg ?_)⟩
    dsimp only
    omega
  · refine ⟨_, _, _, _, hstart, hstop, hline, caretCount_same ?_ ?_⟩
    · dsimp only
      rw [List.count_append, List.count_eq_zero_of_not_mem hbreak, Nat.add_zero]
    · dsimp only
      rw [lastLine_append hbreak, List.length_append]
      omega

/-- A message about a span that can be shown is shown. -/
theorem LineIndex.CanShow.exists_excerpt (h : index.CanShow span) (label message : String) :
    ∃ excerpt, index.excerpt span label message = .ok excerpt := by
  rcases h with ⟨start, stop, shown, carets, hstart, hstop, hline, hcarets⟩
  simp only [LineIndex.excerpt, hstart, hstop, bind, Except.bind, hline, hcarets]
  exact ⟨_, rfl⟩

/-! ## Places of characters -/

/-- Line and column count from one, and are numbers of 32 bits. -/
structure Position.Fits (position : Position) : Prop where
  line_pos : 0 < position.line
  line_lt : position.line < 4294967296
  column_pos : 0 < position.column
  column_lt : position.column < 4294967296

/-- An offset is found: it is on a line that starts no later, and its position counts small
numbers. -/
def LineIndex.Finds (index : LineIndex) (offset : Nat) : Prop :=
  ∃ n line position, index.lineAt? offset = some (n, line) ∧ line.start ≤ offset ∧
    index.positionAt offset = .ok position ∧ position.Fits

/-- In a text of less than 4 GiB, lines and columns count from one and fit. -/
theorem fits_behind (h : byteLen front < 4294967295) : (Position.behind front).Fits := by
  have hcount := count_break_le front
  have hlength := length_lastLine_le front
  rw [behind_of_lt h]
  constructor
  case line_pos => exact Nat.succ_pos _
  case line_lt =>
    dsimp only
    omega
  case column_pos => exact Nat.succ_pos _
  case column_lt =>
    dsimp only
    omega

/-- In a text that is not too long, every boundary is found. -/
theorem finds_of_isBoundary {offset : Nat} (hsize : byteLen t < 4294967295)
    (h : isBoundary t offset = true) : (LineIndex.ofText t).Finds offset := by
  rcases isBoundary_eq_true.1 h with ⟨front, back, rfl, rfl⟩
  rcases exists_lineFrom front back 0 1 with ⟨first, rest, l, -, hlocate, hfrom, -, hstart⟩
  rw [Nat.zero_add] at hfrom hstart
  have hline : (LineIndex.ofText (front ++ back)).lineAt? (byteLen front) =
      some (1 + front.count '\n', l) := by
    rw [LineIndex.lineAt?, LineIndex.ofText, hlocate]
    dsimp only
    rw [hfrom]
  exact ⟨_, l, _, hline, by omega, positionAt_append front back,
    fits_behind (byteLen_lt_of_append hsize)⟩

end Strata
