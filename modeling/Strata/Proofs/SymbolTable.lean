import Strata.Proofs.Advance

/-!
# Tables of symbols

A table is sorted however it came about: a symbol that is put in goes behind all that precede it and
takes the place of one with the same text. So no symbol stands in a table twice, and the one that a
table finds at the start of a text is told by its length.

* `isSorted_ofList`, `isSorted_foldl_insert`: every table is sorted;
* `mem_foldl_insert`: what is put in is in the table, unless something else replaces it;
* `IsSorted.longestMatch_eq_some_iff`: what a table finds at the start of a text.
-/

namespace Strata

namespace SymbolTable

variable {s t u : Text} {entry e f : SymbolEntry} {entries : List SymbolEntry} {table : SymbolTable}

/-! ## The order of symbols -/

/-- Longer symbols come first, and those of the same length in their order. -/
theorem precedes_eq_true : precedes s t = true ↔
    byteLen t < byteLen s ∨ byteLen s = byteLen t ∧ s < t := by
  simp [precedes]

theorem precedes_trans (hst : precedes s t = true) (htu : precedes t u = true) :
    precedes s u = true := by
  rw [precedes_eq_true] at *
  rcases hst with hst | ⟨hst, hlt⟩
  · left
    rcases htu with htu | ⟨htu, -⟩ <;> omega
  · rcases htu with htu | ⟨htu, hlt'⟩
    · exact Or.inl (by omega)
    · exact Or.inr ⟨hst.trans htu, List.lt_trans hlt hlt'⟩

theorem precedes_irrefl (s : Text) : precedes s s = false := by
  rw [Bool.eq_false_iff, ne_eq, precedes_eq_true]
  rintro (hlt | ⟨-, hlt⟩)
  · exact Nat.lt_irrefl _ hlt
  · exact List.lt_irrefl s hlt

/-- Of two different symbols one precedes the other. -/
theorem precedes_of_not (h : ¬precedes s t = true) (hne : s ≠ t) : precedes t s = true := by
  rw [precedes_eq_true, not_or, not_and] at h
  rw [precedes_eq_true]
  rcases Nat.lt_trichotomy (byteLen s) (byteLen t) with hlt | heq | hgt
  · exact Or.inl hlt
  · right
    refine ⟨heq.symm, ?_⟩
    -- of one length and in neither order, they would be the same text
    by_contra hnot
    exact hne (List.le_antisymm (List.not_lt.1 hnot) (List.not_lt.1 (h.2 heq)))
  · exact absurd hgt h.1

theorem byteLen_le_of_precedes (h : precedes s t = true) : byteLen t ≤ byteLen s := by
  rcases precedes_eq_true.1 h with hlt | ⟨heq, -⟩ <;> omega

/-! ## Sorted tables -/

/-- Each symbol precedes the ones that come after it. -/
def IsSorted (table : SymbolTable) : Prop :=
  table.entries.Pairwise fun e f => precedes e.text f.text = true

theorem pairwise_insertInto (h : entries.Pairwise fun e f => precedes e.text f.text = true) :
    (insertInto entry entries).Pairwise fun e f => precedes e.text f.text = true := by
  fun_induction insertInto entry entries with
  | case1 => exact List.pairwise_singleton _ _
  | case2 f fs hbefore =>
    refine List.pairwise_cons.2 ⟨?_, h⟩
    intro g hg
    rcases List.mem_cons.1 hg with rfl | hg
    · exact hbefore
    · exact precedes_trans hbefore ((List.pairwise_cons.1 h).1 g hg)
  | case3 f fs _ heq =>
    rcases List.pairwise_cons.1 h with ⟨hfirst, hrest⟩
    exact List.pairwise_cons.2 ⟨fun g hg => heq ▸ hfirst g hg, hrest⟩
  | case4 f fs hnot hne ih =>
    rcases List.pairwise_cons.1 h with ⟨hfirst, hrest⟩
    refine List.pairwise_cons.2 ⟨?_, ih hrest⟩
    intro g hg
    rcases mem_insertInto hg with rfl | hg
    · exact precedes_of_not hnot hne
    · exact hfirst g hg

/-- A table stays sorted when a symbol is put in. -/
theorem IsSorted.insert (h : table.IsSorted) (entry : SymbolEntry) :
    (table.insert entry).IsSorted := by
  unfold SymbolTable.insert
  split
  · exact h
  · exact pairwise_insertInto h

theorem isSorted_foldl_insert (h : table.IsSorted) (entries : List SymbolEntry) :
    (entries.foldl SymbolTable.insert table).IsSorted := by
  induction entries generalizing table with
  | nil => exact h
  | cons entry entries ih => exact ih (h.insert entry)

theorem isSorted_empty : empty.IsSorted := List.Pairwise.nil

/-- A table that was built from a list is sorted. -/
theorem isSorted_ofList (entries : List SymbolEntry) : (ofList entries).IsSorted :=
  isSorted_foldl_insert isSorted_empty entries

/-- No symbol stands in a sorted table twice. -/
theorem IsSorted.eq_of_text (h : table.IsSorted) (he : e ∈ table.entries) (hf : f ∈ table.entries)
    (htext : e.text = f.text) : e = f := by
  -- before or behind `e`, an entry with its text would precede itself
  rcases List.append_of_mem he with ⟨older, newer, hentries⟩
  rw [IsSorted, hentries] at h
  rw [hentries] at hf
  rcases List.pairwise_append.1 h with ⟨-, hnewer, holder⟩
  rcases List.mem_append.1 hf with hf | hf
  · have hbefore := holder f hf e List.mem_cons_self
    rw [htext, precedes_irrefl] at hbefore
    cases hbefore
  · rcases List.mem_cons.1 hf with heq | hf
    · exact heq.symm
    · have hbefore := (List.pairwise_cons.1 hnewer).1 f hf
      rw [htext, precedes_irrefl] at hbefore
      cases hbefore

/-! ## What is in a table -/

theorem mem_insertInto_self : entry ∈ insertInto entry entries := by
  fun_induction insertInto entry entries with
  | case1 => exact List.mem_singleton_self entry
  | case2 f fs _ => exact List.mem_cons_self
  | case3 f fs _ _ => exact List.mem_cons_self
  | case4 f fs _ _ ih => exact List.mem_cons_of_mem f ih

theorem mem_insertInto_of_ne (hne : e.text ≠ entry.text) (h : e ∈ entries) :
    e ∈ insertInto entry entries := by
  fun_induction insertInto entry entries with
  | case1 => cases h
  | case2 f fs _ => exact List.mem_cons_of_mem entry h
  | case3 f fs _ heq =>
    rcases List.mem_cons.1 h with rfl | h
    · exact absurd heq.symm hne
    · exact List.mem_cons_of_mem entry h
  | case4 f fs _ _ ih =>
    rcases List.mem_cons.1 h with rfl | h
    · exact List.mem_cons_self
    · exact List.mem_cons_of_mem f (ih h)

/-- A symbol that is in a table stays in it while the others put in have other texts. -/
theorem mem_foldl_insert_of_mem (h : e ∈ table.entries)
    (hsame : ∀ f ∈ entries, f.text = e.text → f = e) :
    e ∈ (entries.foldl SymbolTable.insert table).entries := by
  induction entries generalizing table with
  | nil => exact h
  | cons entry entries ih =>
    apply ih _ fun f hf => hsame f (List.mem_cons_of_mem entry hf)
    unfold SymbolTable.insert
    split
    · exact h
    · by_cases htext : entry.text = e.text
      · rw [hsame entry List.mem_cons_self htext]
        exact mem_insertInto_self
      · exact mem_insertInto_of_ne (Ne.symm htext) h

/-- What is put into a table with one class only is in it, with that class. -/
theorem mem_foldl_insert (h : e ∈ entries) (hne : e.text ≠ [])
    (hsame : ∀ f ∈ entries, f.text = e.text → f = e) (table : SymbolTable) :
    e ∈ (entries.foldl SymbolTable.insert table).entries := by
  -- it is put in at its turn, and what comes after it does not replace it
  rcases List.append_of_mem h with ⟨older, newer, rfl⟩
  rw [List.foldl_append, List.foldl_cons]
  apply mem_foldl_insert_of_mem _ fun f hf => hsame f (by simp [hf])
  unfold SymbolTable.insert
  rw [if_neg hne]
  exact mem_insertInto_self

/-! ## What a table finds -/

/-- No symbol of a table is longer than the table says. -/
theorem IsSorted.byteLen_le_maxLen (h : table.IsSorted) (he : e ∈ table.entries) :
    byteLen e.text ≤ table.maxLen := by
  unfold IsSorted at h
  unfold maxLen
  cases hentries : table.entries with
  | nil =>
    rw [hentries] at he
    cases he
  | cons f fs =>
    rw [hentries] at h he
    rcases List.mem_cons.1 he with rfl | he
    · exact Nat.le_refl _
    · exact byteLen_le_of_precedes ((List.pairwise_cons.1 h).1 e he)

/-- No symbol is longer than what is looked at. -/
theorem IsSorted.prefix_take_iff (h : table.IsSorted) (he : e ∈ table.entries) :
    encodeUtf8 e.text <+: encodeUtf8 (t.take table.maxLen) ↔ e.text <+: t := by
  rw [encodeUtf8_prefix_iff, List.prefix_take_iff]
  have hlen := h.byteLen_le_maxLen he
  have hlength := length_le_byteLen e.text
  constructor
  · exact And.left
  · intro hpre
    exact ⟨hpre, by omega⟩

/-- A table without the empty symbol finds nothing exactly where the text starts with none of its
symbols. -/
theorem IsSorted.longestMatch_eq_none (h : table.IsSorted)
    (hne : ∀ e ∈ table.entries, e.text ≠ []) :
    table.longestMatch t = none ↔ ∀ e ∈ table.entries, ¬e.text <+: t := by
  constructor
  · intro hnone e he hpre
    have hsome : table.munch? (encodeUtf8 (t.take table.maxLen)) ≠ none := by
      intro hmunch
      exact munch?_eq_none_iff.1 hmunch e he (hne e he) ((h.prefix_take_iff he).2 hpre)
    rcases Option.ne_none_iff_exists'.1 hsome with ⟨⟨n, cls⟩, hmunch⟩
    rcases munch?_eq_some_iff.1 hmunch with ⟨s, hs, rfl, -⟩
    have hspre : s <+: t := (encodeUtf8_prefix_iff.1 hs.starts).trans (List.take_prefix _ t)
    have hfound : table.longestMatch t = some ⟨s, cls⟩ :=
      longestMatch_eq_some_iff_munch?.2 ⟨hmunch, hspre⟩
    rw [hnone] at hfound
    cases hfound
  · intro hall
    cases hmatch : table.longestMatch t with
    | none => rfl
    | some e =>
      rcases longestMatch_eq_some hmatch with ⟨he, back, hback⟩
      exact absurd ⟨back, hback.symm⟩ (hall e he)

/-- The symbol that a text starts with is the longest one. -/
theorem IsSorted.longest (h : table.IsSorted) (hmatch : table.longestMatch t = some e)
    (hf : f ∈ table.entries) (hpre : f.text <+: t) : byteLen f.text ≤ byteLen e.text := by
  rcases longestMatch_eq_some_iff_munch?.1 hmatch with ⟨hmunch, -⟩
  rcases munch?_eq_some_iff.1 hmunch with ⟨s, hs, hlen, -⟩
  rw [hlen]
  exact hs.longest f hf ((h.prefix_take_iff hf).2 hpre)

/-- Two fronts of one text with the same number of bytes are the same. -/
theorem eq_of_prefix_of_byteLen (hs : s <+: u) (ht : t <+: u) (hlen : byteLen s = byteLen t) :
    s = t := by
  rcases hs with ⟨back, rfl⟩
  rcases ht with ⟨back', h⟩
  exact (append_inj_of_byteLen h hlen.symm).1.symm

/-- A table without the empty symbol finds the longest of its symbols that the text starts with. -/
theorem IsSorted.longestMatch_eq_some_iff (h : table.IsSorted)
    (hne : ∀ e ∈ table.entries, e.text ≠ []) :
    table.longestMatch t = some e ↔ e ∈ table.entries ∧ e.text <+: t ∧
      ∀ f ∈ table.entries, f.text <+: t → byteLen f.text ≤ byteLen e.text := by
  constructor
  · intro hmatch
    rcases longestMatch_eq_some hmatch with ⟨hmem, back, hback⟩
    exact ⟨hmem, ⟨back, hback.symm⟩, fun f hf hpre => h.longest hmatch hf hpre⟩
  · rintro ⟨hmem, hpre, hlongest⟩
    cases hmatch : table.longestMatch t with
    | none => exact absurd hpre ((h.longestMatch_eq_none hne).1 hmatch e hmem)
    | some g =>
      rcases longestMatch_eq_some hmatch with ⟨hg, back, hback⟩
      have hgpre : g.text <+: t := ⟨back, hback.symm⟩
      have hlen : byteLen g.text = byteLen e.text :=
        Nat.le_antisymm (hlongest g hg hgpre) (h.longest hmatch hmem hpre)
      rw [h.eq_of_text hg hmem (eq_of_prefix_of_byteLen hgpre hpre hlen)]

end SymbolTable

end Strata
