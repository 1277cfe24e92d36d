import Mathlib.Data.List.Nodup
import Mathlib.Logic.Function.Basic
import Strata.Grammar.Trie

/-!
# What a trie stores

Each node of a trie stands for the bytes that lead to it from the root, its *label*. `Represents`
says that the labels of all nodes are known, that no two nodes have the same one, and that each node
holds what is stored under its label. Making nodes and storing values keeps this up, and a walk that
looks for the longest key then depends on the stored values alone.

* `Represents.exists_growBy`, `Represents.exists_grow`: nodes are made only where none is;
* `Represents.exists_insert`: storing changes the value of one key;
* `Represents.longest?_eq_some_iff`: what the walk finds.
-/

namespace Strata

namespace Trie

variable {α : Type} {trie : Trie α} {labels : List (List UInt8)} {values : List UInt8 → Option α}
  {node next : Nat} {byte : UInt8} {label bytes : List UInt8} {best : Option (Nat × α)}

/-- The nodes have these labels and hold the values of their labels. -/
structure Represents (trie : Trie α) (labels : List (List UInt8))
    (values : List UInt8 → Option α) : Prop where
  size_eq : trie.nodes.size = labels.length
  root : labels[0]? = some []
  nodup : labels.Nodup
  /-- A byte leads from a node to the one whose label is one byte longer. -/
  child?_iff : ∀ node byte next, trie.child? node byte = some next ↔
    ∃ label, labels[node]? = some label ∧ labels[next]? = some (label ++ [byte])
  /-- What stands before the last byte of a label is a label. -/
  mem_of_append : ∀ label byte, label ++ [byte] ∈ labels → label ∈ labels
  value?_eq : ∀ node label, labels[node]? = some label → trie.value? node = values label
  mem_of_value : ∀ key, values key ≠ none → key ∈ labels

/-! ## Making nodes -/

/-- A new link leads to a new node, and all other links stay. -/
theorem child?_link (hnode : node < trie.nodes.size) (n : Nat) (b : UInt8) :
    (trie.link node byte).child? n b =
      if n = node ∧ b = byte then some trie.nodes.size else trie.child? n b := by
  unfold child? link
  rw [Array.getElem?_modify, Array.getElem?_push]
  by_cases hn : n = node
  · subst hn
    have hne : n ≠ trie.nodes.size := Nat.ne_of_lt hnode
    by_cases hb : b = byte
    · simp [hne, hb, hnode]
    · have hbeq : (b == byte) = false := by simpa using hb
      simp [hne, hb, hbeq, hnode, List.lookup_cons]
  · have hother : ¬(n = node ∧ b = byte) := fun h => hn h.1
    rw [if_neg (Ne.symm hn), if_neg hother]
    by_cases hnew : n = trie.nodes.size
    · simp [hnew]
    · rw [if_neg hnew]

theorem value?_link (n : Nat) : (trie.link node byte).value? n = trie.value? n := by
  unfold value? link
  rw [Array.getElem?_modify, Array.getElem?_push]
  by_cases hn : n = trie.nodes.size
  · subst hn
    by_cases hnode : node = trie.nodes.size
    · simp [hnode]
    · simp [hnode]
  · rw [if_neg hn]
    split
    · cases trie.nodes[n]? <;> rfl
    · rfl

theorem size_link : (trie.link node byte).nodes.size = trie.nodes.size + 1 := by
  simp [link]

/-- Where a list with one more element holds something. -/
theorem getElem?_concat_eq_some {β : Type} {as : List β} {a b : β} {i : Nat} :
    (as ++ [a])[i]? = some b ↔ as[i]? = some b ∨ i = as.length ∧ b = a := by
  rcases Nat.lt_trichotomy i as.length with hlt | rfl | hgt
  · rw [List.getElem?_append_left hlt]
    simp [Nat.ne_of_lt hlt]
  · simp [eq_comm]
  · have hnone : as[i]? = none := List.getElem?_eq_none (Nat.le_of_lt hgt)
    have hnone' : (as ++ [a])[i]? = none := List.getElem?_eq_none (by simp; omega)
    simp [hnone, hnone', Nat.ne_of_gt hgt]

theorem Represents.lt_size (h : trie.Represents labels values)
    (hnode : labels[node]? = some label) : node < trie.nodes.size := by
  rw [h.size_eq]
  exact (List.getElem?_eq_some_iff.1 hnode).1

/-- A label tells its node. -/
theorem Represents.eq_of_label (h : trie.Represents labels values) {n : Nat}
    (hn : labels[n]? = some label) (hnode : labels[node]? = some label) : n = node :=
  (List.getElem?_inj (List.getElem?_eq_some_iff.1 hn).1 h.nodup).1 (hn.trans hnode.symm)

/-- Where a byte leads nowhere, no label goes on with it. -/
theorem Represents.not_mem_of_child? (h : trie.Represents labels values)
    (hnode : labels[node]? = some label) (hnone : trie.child? node byte = none) :
    label ++ [byte] ∉ labels := by
  intro hmem
  rcases List.mem_iff_getElem?.1 hmem with ⟨next, hnext⟩
  rw [(h.child?_iff node byte next).2 ⟨label, hnode, hnext⟩] at hnone
  cases hnone

/-- A new node gets a new label. -/
theorem Represents.link (h : trie.Represents labels values) (hnode : labels[node]? = some label)
    (hnone : trie.child? node byte = none) :
    (trie.link node byte).Represents (labels ++ [label ++ [byte]]) values := by
  have hnew := h.not_mem_of_child? hnode hnone
  have hlt := h.lt_size hnode
  constructor
  case size_eq => rw [size_link, h.size_eq, List.length_append, List.length_singleton]
  case root => exact getElem?_concat_eq_some.2 (Or.inl h.root)
  case nodup =>
    rw [← List.concat_eq_append]
    exact h.nodup.concat hnew
  case child?_iff =>
    intro n b m
    rw [child?_link hlt]
    simp only [getElem?_concat_eq_some]
    constructor
    · intro hchild
      split at hchild
      · rename_i hn
        obtain ⟨rfl, rfl⟩ := hn
        refine ⟨label, Or.inl hnode, Or.inr ⟨?_, rfl⟩⟩
        rw [← h.size_eq]
        exact (Option.some.inj hchild).symm
      · rcases (h.child?_iff n b m).1 hchild with ⟨l, hn, hm⟩
        exact ⟨l, Or.inl hn, Or.inl hm⟩
    · rintro ⟨l, hn | ⟨rfl, rfl⟩, hm | ⟨rfl, heq⟩⟩
      · -- both nodes are old, so the old link is there
        have hold := (h.child?_iff n b m).2 ⟨l, hn, hm⟩
        rw [if_neg, hold]
        rintro ⟨rfl, rfl⟩
        rw [hnone] at hold
        cases hold
      · rcases List.append_inj' heq rfl with ⟨rfl, hb⟩
        rw [if_pos ⟨h.eq_of_label hn hnode, by simpa using hb⟩, h.size_eq]
      · exact absurd (h.mem_of_append _ b (List.mem_of_getElem? hm)) hnew
      · have hlength := congrArg List.length heq
        simp at hlength
  case mem_of_append =>
    intro l b hmem
    rcases List.mem_append.1 hmem with hmem | hmem
    · exact List.mem_append_left _ (h.mem_of_append l b hmem)
    · rcases List.append_inj' (List.mem_singleton.1 hmem) rfl with ⟨rfl, -⟩
      exact List.mem_append_left _ (List.mem_of_getElem? hnode)
  case value?_eq =>
    intro n l hn
    rw [value?_link]
    rcases getElem?_concat_eq_some.1 hn with hn | ⟨rfl, rfl⟩
    · exact h.value?_eq n l hn
    · -- nothing is stored at the new node, nor under its label
      have hvalue : values (label ++ [byte]) = none := by
        by_contra hsome
        exact hnew (h.mem_of_value _ hsome)
      rw [hvalue, value?, Array.getElem?_eq_none (Nat.le_of_eq h.size_eq)]
      rfl
  case mem_of_value =>
    intro key hkey
    exact List.mem_append_left _ (h.mem_of_value key hkey)

/-- Behind one byte there is a node with the longer label. -/
theorem Represents.exists_growBy (h : trie.Represents labels values)
    (hnode : labels[node]? = some label) (byte : UInt8) :
    ∃ labels', (trie.growBy node byte).1.Represents labels' values ∧
      labels'[(trie.growBy node byte).2]? = some (label ++ [byte]) := by
  unfold growBy
  split
  · rename_i next hnext
    rcases (h.child?_iff node byte next).1 hnext with ⟨l, hl, hlabel⟩
    obtain rfl : label = l := Option.some.inj (hnode.symm.trans hl)
    exact ⟨labels, h, hlabel⟩
  · rename_i hnone
    exact ⟨_, h.link hnode hnone, getElem?_concat_eq_some.2 (Or.inr ⟨h.size_eq, rfl⟩)⟩

/-- Behind bytes there is a node whose label ends with them. -/
theorem Represents.exists_grow (h : trie.Represents labels values)
    (hnode : labels[node]? = some label) (bytes : List UInt8) :
    ∃ labels', (trie.grow node bytes).1.Represents labels' values ∧
      labels'[(trie.grow node bytes).2]? = some (label ++ bytes) := by
  induction bytes generalizing trie node label labels with
  | nil => exact ⟨labels, h, by rw [List.append_nil]; exact hnode⟩
  | cons byte bytes ih =>
    rcases h.exists_growBy hnode byte with ⟨labels', h', hnext⟩
    rcases ih h' hnext with ⟨labels'', h'', hlast⟩
    rw [List.append_assoc] at hlast
    exact ⟨labels'', h'', hlast⟩

/-! ## Storing values -/

/-- An empty trie stores nothing. -/
theorem represents_empty : (empty : Trie α).Represents [[]] fun _ => none := by
  have hchild : ∀ node byte, (empty : Trie α).child? node byte = none := by
    intro node byte
    cases node with
    | zero => rfl
    | succ node => rfl
  constructor
  case size_eq => rfl
  case root => rfl
  case nodup => exact List.nodup_singleton []
  case child?_iff =>
    intro node byte next
    rw [hchild]
    constructor
    · intro h
      cases h
    · rintro ⟨label, -, hnext⟩
      have := List.mem_singleton.1 (List.mem_of_getElem? hnext)
      simp at this
  case mem_of_append =>
    intro label byte h
    have := List.mem_singleton.1 h
    simp at this
  case value?_eq =>
    intro node label h
    cases node with
    | zero => rfl
    | succ node => cases h
  case mem_of_value => exact fun _ h => absurd rfl h

theorem child?_store (value : α) (n : Nat) (b : UInt8) :
    (trie.store node value).child? n b = trie.child? n b := by
  unfold child? store
  rw [Array.getElem?_modify]
  split
  · cases trie.nodes[n]? <;> rfl
  · rfl

theorem value?_store (hnode : node < trie.nodes.size) (value : α) (n : Nat) :
    (trie.store node value).value? n = if n = node then some value else trie.value? n := by
  unfold value? store
  rw [Array.getElem?_modify]
  by_cases hn : n = node
  · simp [hn, hnode]
  · rw [if_neg (Ne.symm hn), if_neg hn]

/-- A trie with one more value stores it, and all others but the one under its key. -/
theorem Represents.store (h : trie.Represents labels values) (hnode : labels[node]? = some label)
    (value : α) :
    (trie.store node value).Represents labels (Function.update values label (some value)) := by
  have hlt := h.lt_size hnode
  constructor
  case size_eq => rw [Trie.store, Array.size_modify, h.size_eq]
  case root => exact h.root
  case nodup => exact h.nodup
  case child?_iff =>
    intro n b m
    rw [child?_store]
    exact h.child?_iff n b m
  case mem_of_append => exact h.mem_of_append
  case value?_eq =>
    intro n l hn
    rw [value?_store hlt]
    by_cases hl : l = label
    · subst hl
      rw [if_pos (h.eq_of_label hn hnode), Function.update_self]
    · rw [Function.update_of_ne hl, if_neg, h.value?_eq n l hn]
      rintro rfl
      exact hl (Option.some.inj (hn.symm.trans hnode))
  case mem_of_value =>
    intro key hkey
    by_cases hk : key = label
    · rw [hk]
      exact List.mem_of_getElem? hnode
    · rw [Function.update_of_ne hk] at hkey
      exact h.mem_of_value key hkey

/-- Storing a value under a key changes the value of that key, and of no other. -/
theorem Represents.exists_insert (h : trie.Represents labels values) (key : List UInt8)
    (value : α) : ∃ labels', (trie.insert key value).Represents labels'
      (Function.update values key (some value)) := by
  rcases h.exists_grow h.root key with ⟨labels', h', hnode⟩
  exact ⟨labels', h'.store hnode value⟩

/-! ## Walking along -/

/-- The last value that is stored on the way from a key along some bytes, with the length of its
key. -/
def lastValue (values : List UInt8 → Option α) (key : List UInt8) : List UInt8 → Option (Nat × α)
  | [] => none
  | byte :: bytes =>
    (lastValue values (key ++ [byte]) bytes).or
      ((values (key ++ [byte])).map (key.length + 1, ·))

theorem lastValue_eq_none : lastValue values label bytes = none ↔
    ∀ front, front <+: bytes → front ≠ [] → values (label ++ front) = none := by
  induction bytes generalizing label with
  | nil => simp [lastValue]
  | cons byte bytes ih =>
    rw [lastValue, Option.or_eq_none_iff, Option.map_eq_none_iff, ih]
    constructor
    · rintro ⟨hlater, hfirst⟩ front hfront hne
      rcases List.prefix_cons_iff.1 hfront with rfl | ⟨tail, rfl, htail⟩
      · exact absurd rfl hne
      · cases tail with
        | nil => exact hfirst
        | cons b tail =>
          have := hlater (b :: tail) htail (List.cons_ne_nil b tail)
          rwa [List.append_assoc] at this
    · intro h
      constructor
      · intro front hfront _
        have := h (byte :: front) ((List.prefix_cons_inj byte).2 hfront) (List.cons_ne_nil _ _)
        rwa [List.append_assoc]
      · exact h [byte] (by simp) (List.cons_ne_nil _ _)

/-- The last value along some bytes is the one under the longest key that they start with. -/
theorem lastValue_eq_some {n : Nat} {value : α} : lastValue values label bytes = some (n, value) ↔
    ∃ front, front <+: bytes ∧ front ≠ [] ∧ values (label ++ front) = some value ∧
      n = label.length + front.length ∧
      ∀ longer, longer <+: bytes → front.length < longer.length →
        values (label ++ longer) = none := by
  induction bytes generalizing label with
  | nil => simp [lastValue]
  | cons byte bytes ih =>
    rw [lastValue, Option.or_eq_some_iff, ih, lastValue_eq_none]
    constructor
    · rintro (⟨front, hfront, hne, hvalue, hn, hlongest⟩ | ⟨hnone, hfirst⟩)
      · refine ⟨byte :: front, (List.prefix_cons_inj byte).2 hfront, List.cons_ne_nil _ _, ?_, ?_,
          ?_⟩
        · rwa [List.append_assoc] at hvalue
        · rw [hn, List.length_append, List.length_singleton, List.length_cons]
          omega
        · intro longer hlonger hlength
          rcases List.prefix_cons_iff.1 hlonger with rfl | ⟨tail, rfl, htail⟩
          · cases hlength
          · have := hlongest tail htail (by simpa using hlength)
            rwa [List.append_assoc] at this
      · rcases Option.map_eq_some_iff.1 hfirst with ⟨a, hvalue, ha⟩
        obtain ⟨rfl, rfl⟩ := Prod.mk.inj ha
        refine ⟨[byte], by simp, List.cons_ne_nil _ _, hvalue, rfl, ?_⟩
        intro longer hlonger hlength
        rcases List.prefix_cons_iff.1 hlonger with rfl | ⟨tail, rfl, htail⟩
        · cases hlength
        · have hne : tail ≠ [] := by
            rintro rfl
            exact Nat.lt_irrefl _ hlength
          have := hnone tail htail hne
          rwa [List.append_assoc] at this
    · rintro ⟨front, hfront, hne, hvalue, hn, hlongest⟩
      rcases List.prefix_cons_iff.1 hfront with rfl | ⟨tail, rfl, htail⟩
      · exact absurd rfl hne
      · cases tail with
        | nil =>
          right
          refine ⟨?_, by rw [hvalue, hn]; rfl⟩
          intro longer hlonger hne'
          have := hlongest (byte :: longer) ((List.prefix_cons_inj byte).2 hlonger)
            (by simpa using List.length_pos_iff.2 hne')
          rwa [List.append_assoc]
        | cons b tail =>
          left
          refine ⟨b :: tail, htail, List.cons_ne_nil b tail, ?_, ?_, ?_⟩
          · rwa [List.append_assoc]
          · rw [hn, List.length_append, List.length_cons, List.length_singleton]
            omega
          · intro longer hlonger hlength
            have := hlongest (byte :: longer) ((List.prefix_cons_inj byte).2 hlonger)
              (by simpa using hlength)
            rwa [List.append_assoc]

/-- Where no label goes on, nothing is stored any further. -/
theorem Represents.lastValue_eq_none (h : trie.Represents labels values)
    (hlabel : label ∉ labels) (bytes : List UInt8) :
    lastValue values label bytes = none ∧ values label = none := by
  have hnone : ∀ l, l ∉ labels → values l = none := by
    intro l hl
    by_contra hsome
    exact hl (h.mem_of_value l hsome)
  refine ⟨?_, hnone label hlabel⟩
  induction bytes generalizing label with
  | nil => rfl
  | cons byte bytes ih =>
    have hnext : label ++ [byte] ∉ labels := fun hmem => hlabel (h.mem_of_append label byte hmem)
    rw [lastValue, ih hnext, hnone _ hnext]
    rfl

/-- The walk finds the last value on its way, or else what was found before. -/
theorem Represents.longestFrom_eq (h : trie.Represents labels values)
    (hnode : labels[node]? = some label) (best : Option (Nat × α)) (bytes : List UInt8) :
    trie.longestFrom node label.length best bytes = (lastValue values label bytes).or best := by
  induction bytes generalizing node label best with
  | nil => rfl
  | cons byte bytes ih =>
    rw [longestFrom, lastValue]
    split
    · rename_i hnone
      have hmissing := h.not_mem_of_child? hnode hnone
      rw [(h.lastValue_eq_none hmissing bytes).1, (h.lastValue_eq_none hmissing bytes).2]
      rfl
    · rename_i next hnext
      rcases (h.child?_iff node byte next).1 hnext with ⟨l, hl, hlabel⟩
      obtain rfl : label = l := Option.some.inj (hnode.symm.trans hl)
      have hlength : (label ++ [byte]).length = label.length + 1 := by simp
      rw [← hlength, ih hlabel, h.value?_eq next _ hlabel, Option.or_assoc]

/-- The walk finds the longest key, other than the empty one, that some bytes start with. -/
theorem Represents.longest?_eq_some_iff (h : trie.Represents labels values) {n : Nat} {value : α} :
    trie.longest? bytes = some (n, value) ↔
      ∃ key, key <+: bytes ∧ key ≠ [] ∧ values key = some value ∧ n = key.length ∧
        ∀ longer, longer <+: bytes → key.length < longer.length → values longer = none := by
  have hwalk : trie.longest? bytes = (lastValue values [] bytes).or none :=
    h.longestFrom_eq h.root none bytes
  rw [hwalk, Option.or_none, lastValue_eq_some]
  simp only [List.nil_append, List.length_nil, Nat.zero_add]

/-- The walk finds nothing where the bytes start with no key. -/
theorem Represents.longest?_eq_none_iff (h : trie.Represents labels values) :
    trie.longest? bytes = none ↔ ∀ key, key <+: bytes → key ≠ [] → values key = none := by
  have hwalk : trie.longest? bytes = (lastValue values [] bytes).or none :=
    h.longestFrom_eq h.root none bytes
  rw [hwalk, Option.or_none, Trie.lastValue_eq_none]
  simp only [List.nil_append]

end Trie

end Strata
