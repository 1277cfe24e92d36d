import Mathlib.Data.List.Perm.Basic
import Strata.Proofs.SymbolTable

/-!
# Tables by the lists they are made of

A table is made of a list that may name a symbol more than once, in any order, with the last class
to count, and that may name the empty symbol, which is left out. So the entries of the table are the
other symbols with their last classes, and since they are sorted, these classes say all about the
table: what it lists, what it finds at the start of any bytes, and which class it gives a symbol.

* `mem_ofList_iff`: the entries of a table, by its list;
* `isLongest_ofList_iff`, `lastClass?_ofList`: what is longest, and last, by either of the two;
* `ofList_eq_of_lastClass?`: lists with the same last classes make the same table;
* `answers_ofList`: what a table answers, by its list.
-/

namespace Strata

namespace SymbolTable

variable {table : SymbolTable} {symbols others : List SymbolEntry} {entry e f : SymbolEntry}
  {s t : Text} {bytes : List UInt8} {cls : SymbolClass} {n : Nat}

/-! ## The entries -/

/-- A symbol takes the place of what had its text. -/
theorem IsSorted.mem_insertInto_iff (h : table.IsSorted) : e ∈ insertInto entry table.entries ↔
    e = entry ∨ e ∈ table.entries ∧ e.text ≠ entry.text := by
  have hsorted : (compile (insertInto entry table.entries)).IsSorted := pairwise_insertInto h
  constructor
  · intro he
    by_cases htext : e.text = entry.text
    · exact Or.inl (hsorted.eq_of_text he mem_insertInto_self htext)
    · rcases mem_insertInto he with rfl | he
      · exact Or.inl rfl
      · exact Or.inr ⟨he, htext⟩
  · rintro (rfl | ⟨he, htext⟩)
    · exact mem_insertInto_self
    · exact mem_insertInto_of_ne htext he

/-- The entries are the listed symbols with their last classes, but for the empty one. -/
theorem mem_ofList_iff : e ∈ (ofList symbols).entries ↔
    e.text ≠ [] ∧ lastClass? symbols e.text = some e.cls := by
  induction symbols using List.reverseRecOn with
  | nil =>
    constructor
    · intro h
      cases h
    · rintro ⟨-, h⟩
      cases h
  | append_singleton symbols entry ih =>
    have hlast : ofList (symbols ++ [entry]) = (ofList symbols).insert entry := by
      rw [ofList, List.foldl_append]
      rfl
    rw [hlast, lastClass?_concat]
    unfold SymbolTable.insert
    by_cases hempty : entry.text = []
    · rw [if_pos hempty, ih, hempty]
      constructor
      · rintro ⟨hne, hclass⟩
        exact ⟨hne, by rwa [if_neg (Ne.symm hne)]⟩
      · rintro ⟨hne, hclass⟩
        exact ⟨hne, by rwa [if_neg (Ne.symm hne)] at hclass⟩
    · rw [if_neg hempty]
      refine (isSorted_ofList symbols).mem_insertInto_iff.trans ?_
      rw [ih]
      constructor
      · rintro (rfl | ⟨⟨hne, hclass⟩, htext⟩)
        · exact ⟨hempty, if_pos rfl⟩
        · exact ⟨hne, by rwa [if_neg (Ne.symm htext)]⟩
      · rintro ⟨hne, hclass⟩
        by_cases htext : entry.text = e.text
        · left
          rw [if_pos htext] at hclass
          cases e
          cases entry
          simp_all
        · rw [if_neg htext] at hclass
          exact Or.inr ⟨⟨hne, hclass⟩, Ne.symm htext⟩

/-- Of a listed symbol, the entry is found. -/
theorem exists_mem_ofList (he : e ∈ symbols) (hne : e.text ≠ []) :
    ∃ cls, ⟨e.text, cls⟩ ∈ (ofList symbols).entries := by
  rcases exists_lastClass? he with ⟨cls, hcls⟩
  exact ⟨cls, mem_ofList_iff.2 ⟨hne, hcls⟩⟩

/-- A table has a symbol with the class that its list gives last. -/
theorem lastClass?_ofList (hne : s ≠ []) :
    lastClass? (ofList symbols).entries s = lastClass? symbols s := by
  cases hlast : lastClass? (ofList symbols).entries s with
  | some cls => exact (mem_ofList_iff.1 (mem_of_lastClass? hlast)).2.symm
  | none =>
    cases hlisted : lastClass? symbols s with
    | none => rfl
    | some cls =>
      have hmem : (⟨s, cls⟩ : SymbolEntry) ∈ (ofList symbols).entries :=
        mem_ofList_iff.2 ⟨hne, hlisted⟩
      exact absurd rfl (lastClass?_eq_none.1 hlast _ hmem)

/-- The longest symbol is the same, whether the list is searched or the table. -/
theorem isLongest_ofList_iff :
    IsLongest (ofList symbols).entries bytes s ↔ IsLongest symbols bytes s := by
  constructor
  · rintro ⟨hne, ⟨e, he, rfl⟩, hstarts, hlongest⟩
    refine ⟨hne, ⟨e, (mem_ofList he).1, rfl⟩, hstarts, ?_⟩
    intro f hf hpre
    by_cases hempty : f.text = []
    · rw [hempty]
      exact Nat.zero_le _
    · rcases exists_mem_ofList hf hempty with ⟨cls, hmem⟩
      exact hlongest ⟨f.text, cls⟩ hmem hpre
  · rintro ⟨hne, ⟨e, he, rfl⟩, hstarts, hlongest⟩
    rcases exists_mem_ofList he hne with ⟨cls, hmem⟩
    exact ⟨hne, ⟨_, hmem, rfl⟩, hstarts, fun f hf => hlongest f (mem_ofList hf).1⟩

/-! ## Equal tables -/

theorem nodup_text_of_isSorted (h : table.IsSorted) : (table.entries.map (·.text)).Nodup := by
  rw [List.Nodup, List.pairwise_map]
  apply List.Pairwise.imp _ h
  intro e f hprecedes htext
  rw [htext, precedes_irrefl] at hprecedes
  cases hprecedes

/-- Sorted tables with the same entries list them alike. -/
theorem IsSorted.eq_of_mem_iff {other : SymbolTable} (h : table.IsSorted) (hother : other.IsSorted)
    (hmem : ∀ e, e ∈ table.entries ↔ e ∈ other.entries) : table = other := by
  have hperm : table.entries.Perm other.entries :=
    (List.perm_ext_iff_of_nodup (nodup_text_of_isSorted h).of_map
      (nodup_text_of_isSorted hother).of_map).2 hmem
  apply eq_of_entries
  apply hperm.eq_of_pairwise _ h hother
  -- no two symbols precede each other
  intro e f _ _ hef hfe
  have hself := precedes_trans hef hfe
  rw [precedes_irrefl] at hself
  cases hself

/-- Lists with the same last classes make the same table. -/
theorem ofList_eq_of_lastClass? (h : ∀ s, s ≠ [] → lastClass? symbols s = lastClass? others s) :
    ofList symbols = ofList others := by
  apply (isSorted_ofList symbols).eq_of_mem_iff (isSorted_ofList others)
  intro e
  rw [mem_ofList_iff, mem_ofList_iff]
  exact and_congr_right fun hne => by rw [h e.text hne]

/-! ## The answers of a table -/

/-- The class of a symbol is the last one that an entry gives it. -/
theorem classOf?_eq_some_iff : table.classOf? s = some cls ↔
    s ≠ [] ∧ lastClass? table.entries s = some cls := by
  unfold classOf?
  constructor
  · intro h
    split at h
    · rename_i n c hmunch
      split at h
      · rename_i hn
        cases h
        rcases munch?_eq_some_iff.1 hmunch with ⟨u, hu, hlen, hlast⟩
        -- the symbol found is a front of the whole with as many bytes
        obtain rfl : u = s := eq_of_prefix_of_byteLen (encodeUtf8_prefix_iff.1 hu.starts)
          (List.prefix_refl s) (hlen.symm.trans hn)
        exact ⟨hu.ne_nil, hlast⟩
      · cases h
    · cases h
  · rintro ⟨hne, hlast⟩
    have hlongest : IsLongest table.entries (encodeUtf8 s) s := by
      refine ⟨hne, ⟨_, mem_of_lastClass? hlast, rfl⟩, List.prefix_refl _, ?_⟩
      intro f _ hpre
      have := hpre.length_le
      rwa [length_encodeUtf8, length_encodeUtf8] at this
    have hmunch : table.munch? (encodeUtf8 s) = some (byteLen s, cls) :=
      munch?_eq_some_iff.2 ⟨s, hlongest, rfl, hlast⟩
    simp [hmunch]

/-- At the start of a text, the symbol found is the one found at the start of its bytes. -/
theorem IsSorted.map_longestMatch (h : table.IsSorted)
    (hne : ∀ e ∈ table.entries, e.text ≠ []) (t : Text) :
    (table.longestMatch t).map (fun e => (byteLen e.text, e.cls)) =
      table.munch? (encodeUtf8 t) := by
  cases hmatch : table.longestMatch t with
  | none =>
    have hnone := (h.longestMatch_eq_none hne).1 hmatch
    refine (munch?_eq_none_iff.2 ?_).symm
    intro e he _ hpre
    exact hnone e he (encodeUtf8_prefix_iff.1 hpre)
  | some e =>
    rcases (h.longestMatch_eq_some_iff hne).1 hmatch with ⟨he, hpre, hlongest⟩
    rcases munch?_eq_some_iff.1 (longestMatch_eq_some_iff_munch?.1 hmatch).1 with
      ⟨s, hs, hlen, hlast⟩
    obtain rfl : s = e.text := eq_of_prefix_of_byteLen
      ((encodeUtf8_prefix_iff.1 hs.starts).trans (List.take_prefix _ t)) hpre hlen.symm
    refine (munch?_eq_some_iff.2 ⟨e.text, ⟨hs.ne_nil, hs.listed, ?_, ?_⟩, rfl, hlast⟩).symm
    · exact encodeUtf8_prefix_iff.2 hpre
    · exact fun f hf hfpre => hlongest f hf (encodeUtf8_prefix_iff.1 hfpre)

/-- What a table says about the symbols of a list. -/
structure AnswersFor (table : SymbolTable) (symbols : List SymbolEntry) : Prop where
  /-- It finds the longest listed symbol that some bytes start with, and its last class. -/
  found : ∀ bytes n cls, table.munch? bytes = some (n, cls) ↔
    ∃ s, IsLongest symbols bytes s ∧ n = byteLen s ∧ lastClass? symbols s = some cls
  /-- It finds nothing if they start with none. -/
  nothing : ∀ bytes, table.munch? bytes = none ↔
    ∀ e ∈ symbols, e.text ≠ [] → ¬encodeUtf8 e.text <+: bytes
  /-- A text is searched as its bytes are. -/
  text : ∀ t : Text, (table.longestMatch t).map (fun e => (byteLen e.text, e.cls)) =
    table.munch? (encodeUtf8 t)
  /-- A symbol has a class if it is listed and not empty, namely its last one. -/
  classOf : ∀ s cls, table.classOf? s = some cls ↔ s ≠ [] ∧ lastClass? symbols s = some cls
  /-- The entries are the listed symbols with their last classes, but for the empty one. -/
  entries : ∀ s cls, ⟨s, cls⟩ ∈ table.entries ↔ s ≠ [] ∧ lastClass? symbols s = some cls
  nodup : (table.entries.map (·.text)).Nodup
  /-- They come longest first, and in lexical order where they are of one length. -/
  sorted : table.entries.Pairwise fun e f => byteLen f.text < byteLen e.text ∨
    byteLen e.text = byteLen f.text ∧ e.text < f.text

/-- A table answers for the list it is made of, and every list with the same last classes makes the
same table, which answers alike. -/
theorem answers_ofList (symbols : List SymbolEntry) : (ofList symbols).AnswersFor symbols ∧
    ∀ others : List SymbolEntry,
      (∀ s, s ≠ [] → lastClass? symbols s = lastClass? others s) →
      ofList symbols = ofList others ∧
        (∀ bytes, (ofList symbols).munch? bytes = (ofList others).munch? bytes) ∧
        ∀ s, (ofList symbols).classOf? s = (ofList others).classOf? s := by
  have hsorted := isSorted_ofList symbols
  have hne : ∀ e ∈ (ofList symbols).entries, e.text ≠ [] := fun _ he => (mem_ofList he).2
  constructor
  · constructor
    case found =>
      intro bytes n cls
      rw [munch?_eq_some_iff]
      apply exists_congr
      intro s
      rw [isLongest_ofList_iff]
      apply and_congr_right
      intro hs
      rw [lastClass?_ofList hs.ne_nil]
    case nothing =>
      intro bytes
      rw [munch?_eq_none_iff]
      constructor
      · intro h e he hempty
        rcases exists_mem_ofList he hempty with ⟨cls, hmem⟩
        exact h ⟨e.text, cls⟩ hmem hempty
      · exact fun h e he => h e (mem_ofList he).1
    case text => exact hsorted.map_longestMatch hne
    case classOf =>
      intro s cls
      rw [classOf?_eq_some_iff]
      apply and_congr_right
      intro hs
      rw [lastClass?_ofList hs]
    case entries => exact fun s cls => mem_ofList_iff
    case nodup => exact nodup_text_of_isSorted hsorted
    case sorted => exact hsorted.imp precedes_eq_true.1
  · intro others h
    have heq := ofList_eq_of_lastClass? h
    rw [heq]
    exact ⟨rfl, fun _ => rfl, fun _ => rfl⟩

/-- A `+` that is listed twice, and with it the empty symbol, make the table of one `+`. -/
theorem answers_ofList_listed_twice :
    (∀ s, s ≠ [] → lastClass? [⟨['+'], .operator⟩, ⟨['+'], .punctuator⟩, ⟨[], .operator⟩] s =
      lastClass? [⟨['+'], .punctuator⟩] s) ∧
    ofList [⟨['+'], .operator⟩, ⟨['+'], .punctuator⟩, ⟨[], .operator⟩] =
      ofList [⟨['+'], .punctuator⟩] ∧
    (ofList [⟨['+'], .punctuator⟩]).munch? [0x2B, 0xFF] = some (1, .punctuator) := by
  have h : ∀ s, s ≠ [] →
      lastClass? [⟨['+'], .operator⟩, ⟨['+'], .punctuator⟩, ⟨[], .operator⟩] s =
        lastClass? [⟨['+'], .punctuator⟩] s := by
    intro s hs
    by_cases hplus : ['+'] = s
    · simp [lastClass?, hplus, Ne.symm hs]
    · simp [lastClass?, hplus, Ne.symm hs]
  refine ⟨h, ((answers_ofList _).2 _ h).1, ?_⟩
  have hlongest : IsLongest [⟨['+'], .punctuator⟩] [0x2B, 0xFF] ['+'] :=
    ⟨by simp, by simp, by decide, by simp⟩
  exact ((answers_ofList _).1.found _ _ _).2 ⟨['+'], hlongest, rfl, rfl⟩

/-- The empty symbol has no class, though it is listed. -/
theorem no_class_of_listed_empty :
    lastClass? [⟨[], .operator⟩] [] = some .operator ∧
      (ofList [⟨[], .operator⟩]).classOf? [] = none := by
  decide

end SymbolTable

end Strata
