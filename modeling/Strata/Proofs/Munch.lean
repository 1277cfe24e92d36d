import Mathlib.Data.List.Induction
import Strata.Grammar.Symbols
import Strata.Proofs.Place
import Strata.Proofs.Trie

/-!
# The longest symbol that some bytes start with

The trie of a table is made of the bytes of its entries, one after another, so it stores under the
bytes of a symbol the class of the last entry with that text. What the walk finds are therefore the
bytes of the longest entry, in whatever order the entries stand.

* `represents_trieOf`: what the trie of some symbols stores;
* `munch?_eq_some_iff`, `munch?_eq_none_iff`: what a table finds at the start of some bytes;
* `longestMatch_eq_some`: what a table finds at the start of a text is one of its entries.
-/

namespace Strata

namespace SymbolTable

variable {table : SymbolTable} {entries : List SymbolEntry} {e : SymbolEntry} {s t : Text}
  {bytes key : List UInt8} {cls : SymbolClass} {n : Nat}

/-! ## The last class of a symbol -/

/-- The class of a symbol where a list names it last. -/
def lastClass? (entries : List SymbolEntry) (symbol : Text) : Option SymbolClass :=
  (entries.reverse.find? (·.text = symbol)).map (·.cls)

theorem lastClass?_concat : lastClass? (entries ++ [e]) s =
    if e.text = s then some e.cls else lastClass? entries s := by
  unfold lastClass?
  rw [List.reverse_append, List.reverse_singleton, List.singleton_append, List.find?_cons]
  by_cases h : e.text = s
  · simp [h]
  · simp [h]

/-- A symbol that no entry has is given no class. -/
theorem lastClass?_eq_none : lastClass? entries s = none ↔ ∀ e ∈ entries, e.text ≠ s := by
  unfold lastClass?
  rw [Option.map_eq_none_iff, List.find?_eq_none]
  simp

/-- A list names a symbol with the class that it names last. -/
theorem mem_of_lastClass? (h : lastClass? entries s = some cls) : ⟨s, cls⟩ ∈ entries := by
  rcases Option.map_eq_some_iff.1 h with ⟨e, hfind, rfl⟩
  have htext : e.text = s := by simpa using List.find?_some hfind
  rw [← htext]
  exact List.mem_reverse.1 (List.mem_of_find?_eq_some hfind)

/-- A symbol that is listed is given a class. -/
theorem exists_lastClass? (h : e ∈ entries) : ∃ cls, lastClass? entries e.text = some cls := by
  cases hlast : lastClass? entries e.text with
  | some cls => exact ⟨cls, rfl⟩
  | none => exact absurd rfl (lastClass?_eq_none.1 hlast e h)

/-! ## The trie of some symbols -/

/-- The class of the last symbol with certain bytes. -/
def classUnder? (entries : List SymbolEntry) (key : List UInt8) : Option SymbolClass :=
  (entries.reverse.find? (encodeUtf8 ·.text = key)).map (·.cls)

theorem classUnder?_concat : classUnder? (entries ++ [e]) =
    Function.update (classUnder? entries) (encodeUtf8 e.text) (some e.cls) := by
  funext key
  unfold classUnder?
  rw [List.reverse_append, List.reverse_singleton, List.singleton_append, List.find?_cons]
  by_cases h : encodeUtf8 e.text = key
  · simp [h]
  · rw [Function.update_of_ne (Ne.symm h)]
    simp [h]

/-- Different symbols have different bytes. -/
theorem classUnder?_encodeUtf8 : classUnder? entries (encodeUtf8 s) = lastClass? entries s := by
  unfold classUnder? lastClass?
  simp only [encodeUtf8_inj]

theorem exists_symbol_of_classUnder? (h : classUnder? entries key = some cls) :
    ∃ s, encodeUtf8 s = key ∧ lastClass? entries s = some cls := by
  have hkey := h
  rcases Option.map_eq_some_iff.1 h with ⟨e, hfind, -⟩
  have htext : encodeUtf8 e.text = key := by simpa using List.find?_some hfind
  rw [← htext, classUnder?_encodeUtf8] at hkey
  exact ⟨e.text, htext, hkey⟩

/-- The trie stores the classes of the symbols under their bytes, the last class of each. -/
theorem represents_trieOf (entries : List SymbolEntry) :
    ∃ labels, (trieOf entries).Represents labels (classUnder? entries) := by
  induction entries using List.reverseRecOn with
  | nil => exact ⟨[[]], Trie.represents_empty⟩
  | append_singleton entries e ih =>
    rcases ih with ⟨labels, hlabels⟩
    rw [trieOf, List.foldl_append, classUnder?_concat]
    exact hlabels.exists_insert (encodeUtf8 e.text) e.cls

/-! ## What a table finds -/

/-- The longest of some symbols that some bytes start with. The empty symbol does not count. -/
structure IsLongest (entries : List SymbolEntry) (bytes : List UInt8) (symbol : Text) : Prop where
  ne_nil : symbol ≠ []
  listed : ∃ e ∈ entries, e.text = symbol
  starts : encodeUtf8 symbol <+: bytes
  longest : ∀ e ∈ entries, encodeUtf8 e.text <+: bytes → byteLen e.text ≤ byteLen symbol

/-- The trie of a table stores each class under the bytes of its symbol. -/
theorem exists_represents (table : SymbolTable) :
    ∃ labels, table.trie.Represents labels (classUnder? table.entries) := by
  rw [table.trie_eq]
  exact represents_trieOf table.entries

/-- A table finds the longest of its symbols that some bytes start with. -/
theorem munch?_eq_some_iff : table.munch? bytes = some (n, cls) ↔
    ∃ s, IsLongest table.entries bytes s ∧ n = byteLen s ∧
      lastClass? table.entries s = some cls := by
  rcases table.exists_represents with ⟨labels, hlabels⟩
  rw [munch?, hlabels.longest?_eq_some_iff]
  constructor
  · rintro ⟨key, hkey, hne, hclass, hn, hlongest⟩
    rcases exists_symbol_of_classUnder? hclass with ⟨s, rfl, hlast⟩
    refine ⟨s, ⟨?_, ⟨⟨s, cls⟩, mem_of_lastClass? hlast, rfl⟩, hkey, ?_⟩, ?_, hlast⟩
    · rintro rfl
      exact hne rfl
    · intro e he hpre
      -- a longer entry would be stored further on the way
      by_contra hlonger
      rw [Nat.not_le] at hlonger
      have hnone := hlongest _ hpre (by rwa [length_encodeUtf8, length_encodeUtf8])
      rw [classUnder?_encodeUtf8] at hnone
      exact lastClass?_eq_none.1 hnone e he rfl
    · rw [hn, length_encodeUtf8]
  · rintro ⟨s, hs, hn, hlast⟩
    refine ⟨encodeUtf8 s, hs.starts, encodeUtf8_ne_nil hs.ne_nil, ?_, ?_, ?_⟩
    · rw [classUnder?_encodeUtf8, hlast]
    · rw [hn, length_encodeUtf8]
    · intro longer hpre hlength
      by_contra hsome
      rcases Option.ne_none_iff_exists'.1 hsome with ⟨c, hc⟩
      rcases exists_symbol_of_classUnder? hc with ⟨u, rfl, hu⟩
      have := hs.longest _ (mem_of_lastClass? hu) hpre
      rw [length_encodeUtf8, length_encodeUtf8] at hlength
      exact absurd this (Nat.not_le_of_lt hlength)

/-- A table finds nothing where the bytes start with none of its symbols. -/
theorem munch?_eq_none_iff : table.munch? bytes = none ↔
    ∀ e ∈ table.entries, e.text ≠ [] → ¬encodeUtf8 e.text <+: bytes := by
  rcases table.exists_represents with ⟨labels, hlabels⟩
  rw [munch?, hlabels.longest?_eq_none_iff]
  constructor
  · intro h e he hne hpre
    have hnone := h _ hpre (encodeUtf8_ne_nil hne)
    rw [classUnder?_encodeUtf8] at hnone
    exact lastClass?_eq_none.1 hnone e he rfl
  · intro h key hpre hne
    by_contra hsome
    rcases Option.ne_none_iff_exists'.1 hsome with ⟨c, hc⟩
    rcases exists_symbol_of_classUnder? hc with ⟨s, rfl, hs⟩
    apply h _ (mem_of_lastClass? hs) _ hpre
    intro hnil
    obtain rfl : s = [] := hnil
    exact hne rfl

/-- What a table finds at the start of a text are the bytes of one of its symbols. -/
theorem longestMatch_eq_some_iff_munch? : table.longestMatch t = some e ↔
    table.munch? (encodeUtf8 (t.take table.maxLen)) = some (byteLen e.text, e.cls) ∧
      e.text <+: t := by
  unfold longestMatch
  simp only [Option.bind_eq_bind, Option.bind_eq_some_iff, Prod.exists, takeBytes?_eq_some]
  constructor
  · rintro ⟨n, cls, hmunch, text, ⟨back, hback, rfl⟩, he⟩
    obtain rfl : (⟨text, cls⟩ : SymbolEntry) = e := Option.some.inj he
    exact ⟨hmunch, back, hback.symm⟩
  · rintro ⟨hmunch, back, hback⟩
    exact ⟨_, _, hmunch, e.text, ⟨back, hback.symm, rfl⟩, rfl⟩

/-- What is matched is a symbol of the table that the text starts with. -/
theorem longestMatch_eq_some (h : table.longestMatch t = some e) :
    e ∈ table.entries ∧ ∃ back, t = e.text ++ back := by
  rcases longestMatch_eq_some_iff_munch?.1 h with ⟨hmunch, hpre⟩
  rcases munch?_eq_some_iff.1 hmunch with ⟨s, hs, hlen, hlast⟩
  have hspre : s <+: t := (encodeUtf8_prefix_iff.1 hs.starts).trans (List.take_prefix _ t)
  rcases hspre with ⟨back, hback⟩
  rcases hpre with ⟨back', hback'⟩
  -- both are fronts of the text with the same number of bytes
  obtain rfl : s = e.text :=
    (append_inj_of_byteLen (hback.trans hback'.symm) hlen.symm).1
  exact ⟨mem_of_lastClass? hlast, back, hback.symm⟩

end SymbolTable

end Strata
