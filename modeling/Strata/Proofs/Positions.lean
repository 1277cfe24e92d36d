import Strata.Proofs.Excerpt

/-!
# Positions and lines of a text

Each line of a text starts behind the one before it. So the line that an offset is on is the last
one that starts no later, and a reader who goes on by a character gets to a later column of a line
or to a later line.

* `exists_lineAt?`: the line that an offset is on;
* `position_lt`: what comes later in a text has a later position;
* `counts_ofText`: how lines and columns are counted.
-/

namespace Strata

variable {front middle back t : Text} {l first : Line} {lines : List Line}
  {start n offset : Nat}

/-! ## Lines in order -/

theorem start_le_of_mem_locateLines {texts : List Text} (h : l ∈ locateLines start texts) :
    start ≤ l.start := by
  induction texts generalizing start with
  | nil => cases h
  | cons line texts ih =>
    rcases List.mem_cons.1 h with rfl | h
    · exact Nat.le_refl _
    · have := ih h
      omega

/-- Each line starts behind the ones before it. -/
theorem pairwise_start_locateLines (start : Nat) (texts : List Text) :
    (locateLines start texts).Pairwise fun l m => l.start < m.start := by
  induction texts generalizing start with
  | nil => exact List.Pairwise.nil
  | cons line texts ih =>
    refine List.pairwise_cons.2 ⟨?_, ih _⟩
    intro m hm
    have := start_le_of_mem_locateLines hm
    dsimp only
    omega

/-- The number of lines. -/
theorem count_ofText (t : Text) : (LineIndex.ofText t).count = t.count '\n' + 1 := by
  rw [LineIndex.count, LineIndex.ofText, ← length_splitLines,
    ← congrArg List.length (map_text_locateLines 0 (splitLines t)), List.length_map]

/-- There is a line for each number from one up to the number of lines. -/
theorem isSome_line? {index : LineIndex} :
    (index.line? n).isSome = true ↔ 1 ≤ n ∧ n ≤ index.count := by
  rw [LineIndex.line?, LineIndex.count]
  split
  · simp_all
  · rw [Option.isSome_map, isSome_getElem?]
    omega

/-- The lines are looked for from the first on, up to the last one that starts no later. -/
theorem exists_lineFrom_cut (h : (first :: lines).Pairwise fun l m => l.start < m.start)
    (hle : first.start ≤ offset) : ∃ older l newer, first :: lines = older ++ l :: newer ∧
      LineIndex.lineFrom offset n first lines = (n + older.length, l) ∧ l.start ≤ offset ∧
      ∀ m ∈ newer, offset < m.start := by
  induction lines generalizing n first with
  | nil => exact ⟨[], first, [], rfl, rfl, hle, by simp⟩
  | cons next lines ih =>
    rcases List.pairwise_cons.1 h with ⟨-, hrest⟩
    rw [LineIndex.lineFrom]
    split
    · rename_i hnext
      rcases ih (n := n + 1) hrest hnext with ⟨older, l, newer, hlines, hfrom, hl, hnewer⟩
      refine ⟨first :: older, l, newer, by rw [hlines]; rfl, ?_, hl, hnewer⟩
      rw [hfrom, List.length_cons, Nat.add_assoc, Nat.add_comm 1]
    · rename_i hnext
      refine ⟨[], first, next :: lines, rfl, rfl, hle, ?_⟩
      intro m hm
      rcases List.mem_cons.1 hm with rfl | hm
      · exact Nat.lt_of_not_le hnext
      · exact Nat.lt_trans (Nat.lt_of_not_le hnext) ((List.pairwise_cons.1 hrest).1 m hm)

/-- An offset is on the last line that starts no later. -/
theorem exists_lineAt? (t : Text) (offset : Nat) : ∃ older l newer,
    (LineIndex.ofText t).lines = older ++ l :: newer ∧
      (LineIndex.ofText t).lineAt? offset = some (older.length + 1, l) ∧
      (∀ m ∈ older, m.start < offset) ∧ l.start ≤ offset ∧ ∀ m ∈ newer, offset < m.start := by
  have hpairwise := pairwise_start_locateLines 0 (splitLines t)
  rcases List.exists_cons_of_ne_nil (splitLines_ne_nil t) with ⟨line, texts, hl⟩
  rw [hl, locateLines] at hpairwise
  rcases exists_lineFrom_cut (n := 1) hpairwise (Nat.zero_le offset) with
    ⟨older, l, newer, hlines, hfrom, hle, hnewer⟩
  have hindex : (LineIndex.ofText t).lines = older ++ l :: newer := by
    rw [← hlines, LineIndex.ofText, hl, locateLines]
  refine ⟨older, l, newer, hindex, ?_, ?_, hle, hnewer⟩
  · rw [LineIndex.lineAt?, LineIndex.ofText, hl, locateLines]
    dsimp only
    rw [hfrom, Nat.add_comm]
  · intro m hm
    rw [hlines] at hpairwise
    exact Nat.lt_of_lt_of_le ((List.pairwise_append.1 hpairwise).2.2 m hm l List.mem_cons_self) hle

/-! ## Positions -/

/-- A boundary further on is in a later column of the line, or on a later line. -/
theorem position_lt (front : Text) (hmiddle : middle ≠ []) :
    front.count '\n' < (front ++ middle).count '\n' ∨
      front.count '\n' = (front ++ middle).count '\n' ∧
        (lastLine front).length < (lastLine (front ++ middle)).length := by
  rw [List.count_append]
  by_cases hbreak : '\n' ∈ middle
  · have := List.count_pos_iff.2 hbreak
    exact Or.inl (by omega)
  · right
    have := List.length_pos_iff.2 hmiddle
    rw [lastLine_append hbreak, List.length_append, List.count_eq_zero_of_not_mem hbreak]
    omega

/-- An offset beyond a text is where its end is. -/
theorem positionAt_of_le {offset : Nat} (h : byteLen t ≤ offset) :
    (LineIndex.ofText t).positionAt offset = (LineIndex.ofText t).positionAt (byteLen t) := by
  have hmin : min offset (LineIndex.ofText t).size = byteLen t := Nat.min_eq_right h
  have hmin' : min (byteLen t) (LineIndex.ofText t).size = byteLen t := Nat.min_self _
  rw [LineIndex.positionAt, LineIndex.positionAt, hmin, hmin']

/-- How the lines and columns of a text are counted. -/
structure LineIndex.Counts (index : LineIndex) (t : Text) : Prop where
  /-- A boundary is on the line behind as many others as there are line feeds before it, in the
  column behind as many others as there are characters since the last of them. -/
  position : ∀ front back, t = front ++ back → ∃ p, index.positionAt (byteLen front) = .ok p ∧
    p.offset = byteLen front ∧ p.line = 1 + front.count '\n' ∧
    p.column = 1 + (lastLine front).length ∧ p.Fits
  beyond : ∀ offset, byteLen t < offset → index.positionAt offset = index.positionAt (byteLen t)
  /-- What comes later in the text has a later position. -/
  increasing : ∀ offset offset' p p', isBoundary t offset = true → isBoundary t offset' = true →
    offset < offset' → index.positionAt offset = .ok p → index.positionAt offset' = .ok p' →
    p.line < p'.line ∨ p.line = p'.line ∧ p.column < p'.column
  count : index.count = 1 + t.count '\n' ∧ index.count < 4294967296
  /-- The lines are those between the line feeds, shown without carriage returns at the end. -/
  line : ∀ n shown, index.line? n = some shown ↔
    ∃ line, IsLineAt t n line ∧ shown = line.rdropWhile (· = '\r')
  defined : ∀ n, (index.line? n).isSome = true ↔ 1 ≤ n ∧ n ≤ index.count
  /-- The starts of the lines ascend, and an offset is on the last line that starts no later: where
  a search for the offset among the starts hits, or one before where it misses. -/
  search : index.lines.Pairwise (fun l m => l.start < m.start) ∧
    ∀ offset, ∃ older l newer, index.lines = older ++ l :: newer ∧
      index.lineAt? offset = some (older.length + 1, l) ∧ (∀ m ∈ older, m.start < offset) ∧
      l.start ≤ offset ∧ ∀ m ∈ newer, offset < m.start

/-- The line and the column of an offset, and the text of a line, are those that a reader would
count. -/
theorem counts_ofText (hsize : byteLen t < 4294967295) : (LineIndex.ofText t).Counts t := by
  constructor
  case position =>
    rintro front back rfl
    have hfront := byteLen_lt_of_append hsize
    refine ⟨_, positionAt_append front back, ?_⟩
    refine ⟨?_, ?_, ?_, fits_behind hfront⟩ <;> rw [behind_of_lt hfront]
    · exact Nat.add_comm _ _
    · exact Nat.add_comm _ _
  case beyond => exact fun offset hlt => positionAt_of_le (Nat.le_of_lt hlt)
  case increasing =>
    intro offset offset' p p' hoffset hoffset' hlt hp hp'
    rcases isBoundary_eq_true.1 hoffset with ⟨front, rest, htext, rfl⟩
    rcases isBoundary_eq_true.1 hoffset' with ⟨front', back, rfl, rfl⟩
    rcases exists_middle_of_byteLen_le htext.symm (Nat.le_of_lt hlt) with ⟨middle, rfl, rfl⟩
    have hmiddle : middle ≠ [] := by
      rintro rfl
      rw [List.append_nil] at hlt
      exact Nat.lt_irrefl _ hlt
    have hsize' := byteLen_lt_of_append hsize
    rw [List.append_assoc, positionAt_append, behind_of_lt (byteLen_lt_of_append hsize')] at hp
    rw [positionAt_append, behind_of_lt hsize'] at hp'
    cases hp
    cases hp'
    dsimp only
    have := position_lt front hmiddle
    omega
  case count =>
    have hcount : t.count '\n' ≤ t.length := List.count_le_length
    have hlength := length_le_byteLen t
    rw [count_ofText]
    omega
  case line => exact fun n shown => line?_eq_some_iff
  case defined => exact fun n => isSome_line?
  case search => exact ⟨pairwise_start_locateLines 0 _, exists_lineAt? t⟩

/-- Of three lines, the second is empty, and the last one ends in a carriage return. -/
theorem counts_ofText_accented : byteLen ['é', '\n', '\n', 'b', '\r'] < 4294967295 ∧
    (∃ p, (LineIndex.ofText ['é', '\n', '\n', 'b', '\r']).positionAt 5 = .ok p ∧
      p.line = 3 ∧ p.column = 2) ∧
    (LineIndex.ofText ['é', '\n', '\n', 'b', '\r']).line? 3 = some ['b'] := by
  have hsize : byteLen ['é', '\n', '\n', 'b', '\r'] < 4294967295 := by decide
  have hcounts := counts_ofText hsize
  refine ⟨hsize, ?_, ?_⟩
  · rcases hcounts.position ['é', '\n', '\n', 'b'] ['\r'] rfl with
      ⟨p, hp, -, hline, hcolumn, -⟩
    exact ⟨p, hp, hline, hcolumn⟩
  · have hlast : IsLineAt ['é', '\n', '\n', 'b', '\r'] 3 ['b', '\r'] :=
      isLineAt_append ['é', '\n', '\n', 'b'] ['\r']
    exact (hcounts.line 3 ['b']).2 ⟨_, hlast, by decide⟩

end Strata
