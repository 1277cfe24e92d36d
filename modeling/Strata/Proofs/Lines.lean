import Mathlib.Data.List.DropRight
import Mathlib.Data.List.Basic
import Strata.Proofs.Place
import Strata.Text.Lines

/-!
# Lines and columns

Where a reader counts lines and columns, the text before decides: a place is on the line behind as
many line feeds as there are before it, in the column behind as many characters as there are since
the last of them. So each boundary of a text has a position. The lines themselves are the parts of
the text between its line feeds.

* `splitLines_append`: a text without line feeds before a text is at the start of its first line;
* `getElem?_splitLines`: the lines of a text;
* `line?_eq_some_iff`: the lines as they are shown;
* `exists_lineFrom`, `isLineAt_append`: the line that a boundary is on;
* `positionAt_append`: the position of a boundary;
* `behind_of_lt`: lines and columns that 32 bits keep.
-/

namespace Strata

variable {front middle back line t : Text} {c : Char} {lines : List Text} {start n : Nat}

/-! ## Lines -/

theorem splitLines_ne_nil (t : Text) : splitLines t ≠ [] := by
  cases t with
  | nil => simp [splitLines]
  | cons c t =>
    rw [splitLines]
    split
    · exact List.cons_ne_nil _ _
    · split <;> exact List.cons_ne_nil _ _

theorem splitLines_break (t : Text) : splitLines ('\n' :: t) = [] :: splitLines t := by
  rw [splitLines, if_pos rfl]

theorem splitLines_cons (hc : c ≠ '\n') (h : splitLines back = line :: lines) :
    splitLines (c :: back) = (c :: line) :: lines := by
  rw [splitLines, if_neg hc, h]

/-- What comes before a text without a line feed comes before its first line. -/
theorem splitLines_append (hfront : '\n' ∉ front) (h : splitLines back = line :: lines) :
    splitLines (front ++ back) = (front ++ line) :: lines := by
  induction front with
  | nil => exact h
  | cons c front ih =>
    rw [List.mem_cons, not_or] at hfront
    exact splitLines_cons (fun hc => hfront.1 hc.symm) (ih hfront.2)

/-- The part of a text behind its last line feed. -/
def lastLine (t : Text) : Text := t.rtakeWhile (· ≠ '\n')

theorem lastLine_break (t : Text) : lastLine (t ++ ['\n']) = [] :=
  List.rtakeWhile_concat_neg (fun c => decide (c ≠ '\n')) t '\n' (by simp)

theorem lastLine_concat (t : Text) (hc : c ≠ '\n') : lastLine (t ++ [c]) = lastLine t ++ [c] :=
  List.rtakeWhile_concat_pos (fun c => decide (c ≠ '\n')) t c (by simpa using hc)

/-- What comes before a line feed does not count. -/
theorem lastLine_append_break (t : Text) : lastLine (front ++ '\n' :: t) = lastLine t := by
  induction t using List.reverseRecOn with
  | nil => exact lastLine_break front
  | append_singleton t c ih =>
    have hassoc : front ++ '\n' :: (t ++ [c]) = (front ++ '\n' :: t) ++ [c] := by simp
    by_cases hc : c = '\n'
    · rw [hassoc, hc, lastLine_break, lastLine_break]
    · rw [hassoc, lastLine_concat _ hc, lastLine_concat _ hc, ih]

/-- Behind a part without line feeds, a reader is as many columns further on. -/
theorem lastLine_append (h : '\n' ∉ middle) :
    lastLine (front ++ middle) = lastLine front ++ middle := by
  induction middle using List.reverseRecOn with
  | nil => rw [List.append_nil, List.append_nil]
  | append_singleton middle c ih =>
    rw [List.mem_append, not_or] at h
    have hc : c ≠ '\n' := fun hc => h.2 (by rw [hc]; exact List.mem_singleton_self _)
    rw [← List.append_assoc, lastLine_concat _ hc, ih h.1, List.append_assoc]

/-- Without a line feed, all of a text is its last line. -/
theorem lastLine_of_not_mem (h : '\n' ∉ front) : lastLine front = front :=
  (lastLine_append h : lastLine ([] ++ front) = lastLine [] ++ front)

/-- A line of a text, its number counted from one: it stands between two line feeds, or between a
line feed and an end of the text. -/
def IsLineAt (t : Text) (n : Nat) (line : Text) : Prop :=
  ∃ front back, t = front ++ line ++ back ∧ '\n' ∉ line ∧ (∀ c ∈ front.getLast?, c = '\n') ∧
    (∀ c ∈ back.head?, c = '\n') ∧ n = front.count '\n' + 1

theorem splitLines_of_not_mem (h : '\n' ∉ t) : splitLines t = [t] := by
  have := splitLines_append h (rfl : splitLines [] = [[]])
  rwa [List.append_nil] at this

/-- A text is split at each of its line feeds. -/
theorem splitLines_append_break (front back : Text) :
    splitLines (front ++ '\n' :: back) = splitLines front ++ splitLines back := by
  induction front with
  | nil => exact splitLines_break back
  | cons c front ih =>
    rw [List.cons_append]
    by_cases hc : c = '\n'
    · rw [hc, splitLines_break, splitLines_break, ih, List.cons_append]
    · rcases List.exists_cons_of_ne_nil (splitLines_ne_nil front) with ⟨line, lines, hl⟩
      rw [hl, List.cons_append] at ih
      rw [splitLines_cons hc ih, splitLines_cons hc hl, List.cons_append]

/-- There is one line more than there are line feeds. -/
theorem length_splitLines (t : Text) : (splitLines t).length = t.count '\n' + 1 := by
  induction t with
  | nil => rfl
  | cons c t ih =>
    by_cases hc : c = '\n'
    · rw [hc, splitLines_break, List.length_cons, ih, List.count_cons_self]
    · rcases List.exists_cons_of_ne_nil (splitLines_ne_nil t) with ⟨line, lines, hl⟩
      rw [hl] at ih
      rw [splitLines_cons hc hl, List.count_cons_of_ne hc, ← ih, List.length_cons,
        List.length_cons]

/-- What stands before a line feed, or before the end, is the first line. -/
theorem exists_splitLines (hline : '\n' ∉ line) (hback : ∀ c ∈ back.head?, c = '\n') :
    ∃ lines, splitLines (line ++ back) = line :: lines := by
  cases back with
  | nil => exact ⟨[], by rw [List.append_nil, splitLines_of_not_mem hline]⟩
  | cons c back =>
    rw [hback c rfl, splitLines_append_break, splitLines_of_not_mem hline]
    exact ⟨splitLines back, rfl⟩

/-- A line that stands in a text is among its lines, in its place. -/
theorem getElem?_splitLines_of_isLineAt (h : IsLineAt t (n + 1) line) :
    (splitLines t)[n]? = some line := by
  rcases h with ⟨front, back, rfl, hline, hfront, hback, hn⟩
  rcases exists_splitLines hline hback with ⟨lines, hlines⟩
  cases front using List.reverseRecOn with
  | nil =>
    obtain rfl : n = 0 := by simpa using hn
    rw [List.nil_append, hlines]
    rfl
  | append_singleton front c =>
    obtain rfl : c = '\n' := hfront c (by simp)
    have htext : front ++ ['\n'] ++ line ++ back = front ++ '\n' :: (line ++ back) := by simp
    have hlength : n = (splitLines front).length := by
      rw [length_splitLines]
      simpa using hn
    rw [htext, splitLines_append_break, hlines, hlength,
      List.getElem?_append_right (Nat.le_refl _), Nat.sub_self]
    rfl

/-- The last line of a text comes behind its last line feed. -/
theorem exists_lastLine (t : Text) : ∃ earlier, t = earlier ++ lastLine t ∧
    (∀ c ∈ earlier.getLast?, c = '\n') ∧ '\n' ∉ lastLine t := by
  induction t using List.reverseRecOn with
  | nil => exact ⟨[], rfl, by simp, by simp [lastLine]⟩
  | append_singleton t c ih =>
    by_cases hc : c = '\n'
    · rw [hc, lastLine_break]
      exact ⟨t ++ ['\n'], by simp, by simp, by simp⟩
    · rcases ih with ⟨earlier, htext, hearlier, hlast⟩
      rw [lastLine_concat t hc]
      refine ⟨earlier, ?_, hearlier, ?_⟩
      · rw [← List.append_assoc, ← htext]
      · simpa [hlast] using Ne.symm hc

/-- The line that a boundary is on: what comes before the boundary since the last line feed, and
what comes behind it up to the next one. -/
theorem isLineAt_append (front back : Text) :
    IsLineAt (front ++ back) (front.count '\n' + 1)
      (lastLine front ++ back.takeWhile (· ≠ '\n')) := by
  rcases exists_lastLine front with ⟨earlier, hfront, hearlier, hlast⟩
  refine ⟨earlier, back.dropWhile (· ≠ '\n'), ?_, ?_, hearlier, ?_, ?_⟩
  · rw [← List.append_assoc, ← hfront, List.append_assoc, List.takeWhile_append_dropWhile]
  · rw [List.mem_append, not_or]
    refine ⟨hlast, fun hmem => ?_⟩
    simpa using List.all_eq_true.1 List.all_takeWhile _ hmem
  · intro c hc
    simpa using eq_false_of_mem_head?_dropWhile hc
  · have hcount := congrArg (List.count '\n') hfront
    rw [List.count_append, List.count_eq_zero_of_not_mem hlast, Nat.add_zero] at hcount
    rw [hcount]

/-- Behind any number of its line feeds, a text goes on. -/
theorem exists_append_count (h : n ≤ t.count '\n') :
    ∃ front back, t = front ++ back ∧ front.count '\n' = n := by
  induction t generalizing n with
  | nil => exact ⟨[], [], rfl, (Nat.le_zero.1 h).symm⟩
  | cons c t ih =>
    cases n with
    | zero => exact ⟨[], c :: t, rfl, rfl⟩
    | succ n =>
      by_cases hc : c = '\n'
      · rw [hc, List.count_cons_self] at h
        rcases ih (Nat.le_of_succ_le_succ h) with ⟨front, back, rfl, hcount⟩
        exact ⟨c :: front, back, rfl, by rw [hc, List.count_cons_self, hcount]⟩
      · rw [List.count_cons_of_ne hc] at h
        rcases ih h with ⟨front, back, rfl, hcount⟩
        exact ⟨c :: front, back, rfl, by rw [List.count_cons_of_ne hc, hcount]⟩

/-- Splitting a text gives its lines. -/
theorem getElem?_splitLines : (splitLines t)[n]? = some line ↔ IsLineAt t (n + 1) line := by
  constructor
  · intro h
    have hn := (List.getElem?_eq_some_iff.1 h).1
    rw [length_splitLines] at hn
    rcases exists_append_count (Nat.le_of_lt_succ hn) with ⟨front, back, rfl, rfl⟩
    have hline := isLineAt_append front back
    rw [getElem?_splitLines_of_isLineAt hline] at h
    cases h
    exact hline
  · exact getElem?_splitLines_of_isLineAt

/-! ## Lines with their places -/

theorem map_text_locateLines (start : Nat) (texts : List Text) :
    (locateLines start texts).map (·.text) = texts := by
  induction texts generalizing start with
  | nil => rfl
  | cons line texts ih => rw [locateLines, List.map_cons, ih]

/-- A line is shown without the carriage returns at its end. -/
theorem line?_eq_some_iff {shown : Text} : (LineIndex.ofText t).line? n = some shown ↔
    ∃ line, IsLineAt t n line ∧ shown = line.rdropWhile (· = '\r') := by
  cases n with
  | zero =>
    constructor
    · intro h
      cases h
    · rintro ⟨line, ⟨front, back, -, -, -, -, hn⟩, -⟩
      cases hn
  | succ n =>
    have hline : (LineIndex.ofText t).line? (n + 1) =
        (splitLines t)[n]?.map fun line => line.rdropWhile (· = '\r') := by
      rw [LineIndex.line?, if_neg (Nat.succ_ne_zero n), Nat.add_sub_cancel, LineIndex.ofText,
        ← congrArg (·[n]?) (map_text_locateLines 0 (splitLines t)), List.getElem?_map,
        Option.map_map]
      rfl
    rw [hline, Option.map_eq_some_iff]
    apply exists_congr
    intro line
    rw [getElem?_splitLines]
    exact and_congr_right fun _ => eq_comm

/-- The line that a boundary is on: behind as many lines as there are line feeds before it, and what
is before the boundary on it comes behind the last of them. -/
theorem exists_lineFrom (front back : Text) (start n : Nat) :
    ∃ first rest l behind, locateLines start (splitLines (front ++ back)) = first :: rest ∧
      LineIndex.lineFrom (start + byteLen front) n first rest = (n + front.count '\n', l) ∧
      l.text = lastLine front ++ behind ∧
      l.start + byteLen (lastLine front) = start + byteLen front := by
  induction hlen : front.length using Nat.strongRecOn generalizing front start n with
  | ind k ih =>
    by_cases hbreak : '\n' ∈ front
    · -- the first line is passed whole
      rcases List.eq_append_cons_of_mem hbreak with ⟨a, b, rfl, ha⟩
      have hsplit : splitLines (a ++ '\n' :: b ++ back) = a :: splitLines (b ++ back) := by
        rw [List.append_assoc, List.cons_append,
          splitLines_append ha (splitLines_break (b ++ back)), List.append_nil]
      have hshort : b.length < k := by
        rw [List.length_append, List.length_cons] at hlen
        omega
      rcases ih b.length hshort b (start + byteLen a + 1) (n + 1) rfl with
        ⟨first, rest, l, behind, hlocate, hfrom, htext, hstart⟩
      have hsize : ('\n' : Char).utf8Size = 1 := rfl
      have hbytes : start + byteLen (a ++ '\n' :: b) = start + byteLen a + 1 + byteLen b := by
        rw [byteLen_append, byteLen_cons, hsize]
        omega
      have hfirst : first.start = start + byteLen a + 1 := by
        rcases List.exists_cons_of_ne_nil (splitLines_ne_nil (b ++ back)) with ⟨line, lines, hl⟩
        rw [hl, locateLines] at hlocate
        rw [← (List.cons.inj hlocate).1]
      refine ⟨⟨start, a⟩, first :: rest, l, behind, ?_, ?_, ?_, ?_⟩
      · rw [hsplit, locateLines, hlocate]
      · rw [LineIndex.lineFrom, if_pos (by omega), hbytes, hfrom, List.count_append,
          List.count_cons_self, List.count_eq_zero_of_not_mem ha]
        congr 1
        omega
      · rw [lastLine_append_break, htext]
      · rw [lastLine_append_break, hstart, hbytes]
    · rcases List.exists_cons_of_ne_nil (splitLines_ne_nil back) with ⟨line, lines, hl⟩
      have hsplit := splitLines_append hbreak hl
      refine ⟨⟨start, front ++ line⟩, locateLines (start + byteLen (front ++ line) + 1) lines,
        ⟨start, front ++ line⟩, line, by rw [hsplit]; rfl, ?_, ?_, ?_⟩
      · have hcount : n + front.count '\n' = n := by rw [List.count_eq_zero_of_not_mem hbreak]; rfl
        rw [hcount]
        cases lines with
        | nil => rfl
        | cons next lines =>
          -- the next line starts behind the boundary
          have hlater : ¬start + byteLen (front ++ line) + 1 ≤ start + byteLen front := by
            rw [byteLen_append]
            omega
          rw [locateLines, LineIndex.lineFrom, if_neg hlater]
      · rw [lastLine_of_not_mem hbreak]
      · rw [lastLine_of_not_mem hbreak]

/-! ## Positions -/

/-- The position behind a part of a text: its line is behind as many lines as there are line feeds
in the part, and its column is behind as many columns as there are characters since the last of
them. -/
def Position.behind (front : Text) : Position :=
  ⟨byteLen front, inWord (front.count '\n' + 1), inWord ((lastLine front).length + 1)⟩

/-- The last line has no more characters than the text has bytes. -/
theorem length_lastLine_le (front : Text) : (lastLine front).length ≤ byteLen front :=
  Nat.le_trans (List.rtakeWhile_suffix (· ≠ '\n') front).length_le (length_le_byteLen front)

theorem count_break_le (front : Text) : front.count '\n' ≤ byteLen front :=
  Nat.le_trans List.count_le_length (length_le_byteLen front)

/-- What a text starts with stays below the bounds of the text. -/
theorem byteLen_lt_of_append (h : byteLen (front ++ back) < n) : byteLen front < n := by
  rw [byteLen_append] at h
  omega

/-- There are no more lines and columns than bytes, and one, so 32 bits keep those of a text that is
not too long. -/
theorem behind_of_lt (h : byteLen front < 4294967295) : Position.behind front =
    ⟨byteLen front, front.count '\n' + 1, (lastLine front).length + 1⟩ := by
  have hcount := count_break_le front
  have hlength := length_lastLine_le front
  rw [Position.behind, inWord, inWord, Nat.mod_eq_of_lt (by omega), Nat.mod_eq_of_lt (by omega)]

/-- The position of a boundary. -/
theorem positionAt_append (front back : Text) :
    (LineIndex.ofText (front ++ back)).positionAt (byteLen front) =
      .ok (Position.behind front) := by
  rcases exists_lineFrom front back 0 1 with
    ⟨first, rest, l, behind, hlocate, hfrom, htext, hstart⟩
  rw [Nat.zero_add] at hfrom hstart
  have hmin : min (byteLen front) (LineIndex.ofText (front ++ back)).size = byteLen front := by
    apply Nat.min_eq_left
    rw [LineIndex.ofText, byteLen_append]
    exact Nat.le_add_right _ _
  have hline : (LineIndex.ofText (front ++ back)).lineAt? (byteLen front) =
      some (front.count '\n' + 1, l) := by
    rw [LineIndex.lineAt?, LineIndex.ofText, hlocate]
    dsimp only
    rw [hfrom, Nat.add_comm]
  have hcount : charsBefore? 0 (byteLen front - l.start) l.text =
      some (lastLine front).length := by
    have htake : takeBytes? (byteLen front - l.start) l.text = some (lastLine front) :=
      takeBytes?_eq_some.2 ⟨behind, htext, by omega⟩
    rw [charsBefore?_eq_map_takeBytes?, htake, Option.map_some, Nat.zero_add]
  unfold LineIndex.positionAt
  dsimp only
  rw [hmin, hline]
  dsimp only
  rw [hcount]
  rfl

/-- Each boundary of a text has a position. -/
theorem exists_positionAt {t : Text} {offset : Nat} (h : isBoundary t offset = true) :
    ∃ position, (LineIndex.ofText t).positionAt offset = .ok position := by
  rcases isBoundary_eq_true.1 h with ⟨front, back, rfl, rfl⟩
  exact ⟨_, positionAt_append front back⟩

/-- Columns count characters, and a line starts anew behind each line feed. -/
example : (LineIndex.ofText ['a', '\n', 'é', 'b']).positionAt 4 = .ok ⟨4, 2, 2⟩ :=
  positionAt_append ['a', '\n', 'é'] ['b']

end Strata
