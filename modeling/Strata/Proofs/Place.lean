import Strata.Text.Place
import Strata.Text.Span

/-!
# Places and slices of a text

Offsets come from parts of a text: an offset is a boundary when some front of the text has that many
bytes, and a slice is what stands between two fronts. `Place.IsIn` says the same of a place, and the
places of one text are told apart by their offsets alone.

* `slice_eq_ok`: what a slice is;
* `Place.IsIn`: a place that a reader of a text can stand at;
* `Place.past`: the place behind a part of the text ahead;
* `places`, `mem_places`: every place of a text with a character ahead, in order.
-/

namespace Strata

/-! ## Fronts of a text -/

theorem byteLen_pos {t : Text} (h : t ≠ []) : 0 < byteLen t := by
  have hne : byteLen t ≠ 0 := fun h0 => h (byteLen_eq_zero.1 h0)
  exact Nat.pos_of_ne_zero hne

theorem byteLen_flatMap_cons {α : Type} (f : α → Text) (a : α) (as : List α) :
    byteLen ((a :: as).flatMap f) = byteLen (f a) + byteLen (as.flatMap f) := by
  rw [List.flatMap_cons, byteLen_append]

/-- A character takes a byte at least. -/
theorem length_le_byteLen (t : Text) : t.length ≤ byteLen t := by
  induction t with
  | nil => exact Nat.le_refl _
  | cons c t ih =>
    have hpos := c.utf8Size_pos
    rw [List.length_cons, byteLen_cons]
    omega

/-- Of two fronts of one text, the one with fewer bytes is a front of the other. -/
theorem exists_middle_of_byteLen_le {a b c d : Text} (h : a ++ b = c ++ d)
    (hle : byteLen a ≤ byteLen c) : ∃ middle, c = a ++ middle ∧ b = middle ++ d := by
  rcases List.append_eq_append_iff.1 h with ⟨m, hc, hb⟩ | ⟨m, ha, hd⟩
  · exact ⟨m, hc, hb⟩
  · -- `a` is the longer one in characters, so the surplus has no bytes
    have hm : m = [] := by
      apply byteLen_eq_zero.1
      rw [ha, byteLen_append] at hle
      omega
    subst hm
    exact ⟨[], by simpa using ha.symm, by simpa using hd.symm⟩

/-- A text has at most one front of a given length. -/
theorem append_inj_of_byteLen {a b c d : Text} (h : a ++ b = c ++ d)
    (hlen : byteLen a = byteLen c) : a = c ∧ b = d := by
  rcases exists_middle_of_byteLen_le h (Nat.le_of_eq hlen) with ⟨m, hc, hb⟩
  have hm : m = [] := by
    apply byteLen_eq_zero.1
    rw [hc, byteLen_append] at hlen
    omega
  subst hm
  exact ⟨by simpa using hc.symm, by simpa using hb⟩

/-- What is behind all characters of a class starts with one of another class. -/
theorem eq_false_of_mem_head?_dropWhile {p : Char → Bool} {t : Text} {c : Char}
    (h : c ∈ (t.dropWhile p).head?) : p c = false := by
  have hnot := List.head?_dropWhile_not p t
  rw [Option.mem_def.1 h] at hnot
  exact hnot

/-- A front of a text is all that comes before a character of another class exactly if it holds
none, and one, or nothing, is behind it. -/
theorem byteLen_takeWhile_eq {p : Char → Bool} {front back : Text} :
    byteLen ((front ++ back).takeWhile p) = byteLen front ↔
      (∀ c ∈ front, p c = true) ∧ ∀ c ∈ back.head?, p c = false := by
  constructor
  · intro h
    have hsplit : (front ++ back).takeWhile p ++ (front ++ back).dropWhile p = front ++ back :=
      List.takeWhile_append_dropWhile
    rcases append_inj_of_byteLen hsplit h with ⟨hfront, hback⟩
    constructor
    · intro c hc
      rw [← hfront] at hc
      exact List.all_eq_true.1 List.all_takeWhile c hc
    · intro c hc
      rw [← hback] at hc
      exact eq_false_of_mem_head?_dropWhile hc
  · rintro ⟨hfront, hback⟩
    rw [List.takeWhile_append_of_pos hfront]
    cases back with
    | nil => rw [List.takeWhile_nil, List.append_nil]
    | cons c t => rw [List.takeWhile_cons_of_neg (by simp [hback c rfl]), List.append_nil]

/-- Dropping bytes leaves the text behind as many bytes. -/
theorem dropBytes?_eq_some {n : Nat} {t back : Text} :
    dropBytes? n t = some back ↔ ∃ front, t = front ++ back ∧ byteLen front = n := by
  rw [dropBytes?_eq_map_splitAt?]
  constructor
  · intro h
    rcases Option.map_eq_some_iff.1 h with ⟨⟨front, _⟩, hs, rfl⟩
    exact ⟨front, splitAt?_eq_some.1 hs⟩
  · rintro ⟨front, h⟩
    rw [splitAt?_eq_some.2 h]
    rfl

/-- Taking bytes gives the text that has as many bytes. -/
theorem takeBytes?_eq_some {n : Nat} {t front : Text} :
    takeBytes? n t = some front ↔ ∃ back, t = front ++ back ∧ byteLen front = n := by
  unfold takeBytes?
  constructor
  · intro h
    rcases Option.map_eq_some_iff.1 h with ⟨⟨_, back⟩, hs, rfl⟩
    exact ⟨back, splitAt?_eq_some.1 hs⟩
  · rintro ⟨back, h⟩
    rw [splitAt?_eq_some.2 h]
    rfl

/-- A boundary is an offset at which a text can be cut in two. -/
theorem isBoundary_eq_true {t : Text} {n : Nat} :
    isBoundary t n = true ↔ ∃ front back, t = front ++ back ∧ byteLen front = n := by
  unfold isBoundary
  rw [Option.isSome_iff_exists]
  constructor
  · rintro ⟨back, h⟩
    rcases dropBytes?_eq_some.1 h with ⟨front, hf⟩
    exact ⟨front, back, hf⟩
  · rintro ⟨front, back, h⟩
    exact ⟨back, dropBytes?_eq_some.2 ⟨front, h⟩⟩

theorem le_byteLen_of_isBoundary {t : Text} {n : Nat} (h : isBoundary t n = true) :
    n ≤ byteLen t := by
  rcases isBoundary_eq_true.1 h with ⟨front, back, rfl, rfl⟩
  simp

/-- A slice is what stands between a front of the text and the rest. -/
theorem slice_eq_ok {t part : Text} {s : Span} :
    slice t s = .ok part ↔
      ∃ front back, t = front ++ part ++ back ∧ byteLen front = s.start ∧
        s.stop = s.start + byteLen part := by
  unfold slice
  constructor
  · intro h
    split at h
    · cases h
    · rename_i hle
      split at h
      · cases h
      · rename_i tail htail
        split at h
        · cases h
        · rename_i found hfound
          cases h
          rcases dropBytes?_eq_some.1 htail with ⟨front, rfl, hfront⟩
          rcases takeBytes?_eq_some.1 hfound with ⟨back, rfl, hpart⟩
          exact ⟨front, back, by simp, hfront, by omega⟩
  · rintro ⟨front, back, rfl, hfront, hstop⟩
    have hle : ¬s.stop < s.start := by omega
    have hdrop : dropBytes? s.start (front ++ part ++ back) = some (part ++ back) :=
      dropBytes?_eq_some.2 ⟨front, by simp, hfront⟩
    have htake : takeBytes? (s.stop - s.start) (part ++ back) = some part :=
      takeBytes?_eq_some.2 ⟨back, rfl, by omega⟩
    rw [if_neg hle, hdrop]
    dsimp only
    rw [htake]

/-- A slice ends within the text. -/
theorem stop_le_of_slice {t part : Text} {s : Span} (h : slice t s = .ok part) :
    s.stop ≤ byteLen t := by
  rcases slice_eq_ok.1 h with ⟨front, back, ht, hstart, hstop⟩
  rw [ht, byteLen_append, byteLen_append]
  omega

/-! ## Places -/

namespace Place

/-- The place behind a part of the text ahead. -/
def past (p : Place) (front back : Text) : Place :=
  ⟨front.getLast?.or p.before, p.offset + byteLen front, back⟩

theorem peek?_eq_some {p : Place} {c : Char} {t : Text} (h : p.rest = c :: t) :
    p.peek? = some c := by
  rw [peek?, h]
  rfl

/-- There is one character ahead of a place. -/
theorem head_unique {p : Place} {c d : Char} {t u : Text} (hc : p.rest = c :: t)
    (hd : p.rest = d :: u) : c = d :=
  (List.cons.inj (hc.symm.trans hd)).1

@[simp] theorem past_offset (p : Place) (front back : Text) :
    (p.past front back).offset = p.offset + byteLen front := rfl

@[simp] theorem past_rest (p : Place) (front back : Text) : (p.past front back).rest = back := rfl

@[simp] theorem past_nil (p : Place) : p.past [] p.rest = p := by simp [past]

theorem past_past (p : Place) (a b c d : Text) : (p.past a b).past c d = p.past (a ++ c) d := by
  simp [past, List.getLast?_append, Nat.add_assoc, Option.or_assoc]

/-- A place that a reader of a text can stand at. -/
def IsIn (p : Place) (t : Text) : Prop :=
  ∃ read, t = read ++ p.rest ∧ p.offset = byteLen read ∧ p.before = read.getLast?

theorem isIn_start (t : Text) : (start t).IsIn t := ⟨[], rfl, rfl, rfl⟩

/-- Passing a part of the text ahead leads to a place of the same text. -/
theorem IsIn.past {p : Place} {t front back : Text} (hp : p.IsIn t) (h : p.rest = front ++ back) :
    (p.past front back).IsIn t := by
  rcases hp with ⟨read, ht, ho, hb⟩
  refine ⟨read ++ front, ?_, ?_, ?_⟩
  · rw [ht, h, List.append_assoc]
    rfl
  · rw [past_offset, ho, byteLen_append]
  · simp [Place.past, List.getLast?_append, hb]

/-- A later place is behind a part of what is ahead of an earlier one. -/
theorem IsIn.exists_past {p q : Place} {t : Text} (hp : p.IsIn t) (hq : q.IsIn t)
    (hle : p.offset ≤ q.offset) : ∃ front, p.rest = front ++ q.rest ∧ q = p.past front q.rest := by
  rcases hp with ⟨read, ht, ho, hb⟩
  rcases hq with ⟨read', ht', ho', hb'⟩
  rw [ho, ho'] at hle
  rcases exists_middle_of_byteLen_le (ht.symm.trans ht') hle with ⟨front, hr, hrest⟩
  refine ⟨front, hrest, ?_⟩
  have hbefore : q.before = front.getLast?.or p.before := by
    rw [hb', hr, hb, List.getLast?_append]
  have hoffset : q.offset = p.offset + byteLen front := by
    rw [ho', hr, ho, byteLen_append]
  cases q
  simp_all [Place.past]

/-- The places of a text are told apart by their offsets. -/
theorem IsIn.eq_of_offset {p q : Place} {t : Text} (hp : p.IsIn t) (hq : q.IsIn t)
    (h : p.offset = q.offset) : p = q := by
  rcases hp.exists_past hq (Nat.le_of_eq h) with ⟨front, hrest, hpast⟩
  have hlen : byteLen front = 0 := by
    have := congrArg Place.offset hpast
    rw [past_offset] at this
    omega
  rw [byteLen_eq_zero.1 hlen, List.nil_append] at hrest
  rw [hpast, byteLen_eq_zero.1 hlen, ← hrest, past_nil]

/-- Each boundary of a text is the offset of a place. -/
theorem exists_isIn_of_isBoundary {t : Text} {n : Nat} (h : isBoundary t n = true) :
    ∃ p : Place, p.IsIn t ∧ p.offset = n := by
  rcases isBoundary_eq_true.1 h with ⟨front, back, rfl, hlen⟩
  exact ⟨⟨front.getLast?, n, back⟩, ⟨front, rfl, hlen.symm, rfl⟩, rfl⟩

theorem IsIn.offset_le {p : Place} {t : Text} (hp : p.IsIn t) :
    p.offset + byteLen p.rest = byteLen t := by
  rcases hp with ⟨read, ht, ho, -⟩
  rw [ht, ho, byteLen_append]

theorem next?_eq_some {p there : Place} {c : Char} (h : p.next? = some (c, there)) :
    p.rest = c :: there.rest ∧ there = p.past [c] there.rest := by
  unfold next? at h
  split at h
  · cases h
  · rename_i c' t hr
    cases h
    exact ⟨hr, by simp [past]⟩

/-- A place of a text is at a boundary of it. -/
theorem IsIn.isBoundary {p : Place} {t : Text} (hp : p.IsIn t) : isBoundary t p.offset = true := by
  rcases hp with ⟨read, ht, ho, -⟩
  exact isBoundary_eq_true.2 ⟨read, p.rest, ht, ho.symm⟩

/-- A place inside a part of the text ahead of another place. -/
theorem IsIn.exists_inside {p q : Place} {t front back : Text} (hp : p.IsIn t) (hq : q.IsIn t)
    (hrest : p.rest = front ++ back) (hle : p.offset ≤ q.offset)
    (hlt : q.offset < p.offset + byteLen front) :
    ∃ a b, b ≠ [] ∧ front = a ++ b ∧ q = p.past a (b ++ back) := by
  rcases hp.exists_past hq hle with ⟨a, ha, hqa⟩
  have hlen : byteLen a < byteLen front := by
    rw [hqa, past_offset] at hlt
    omega
  rcases exists_middle_of_byteLen_le (ha.symm.trans hrest) (Nat.le_of_lt hlen) with
    ⟨b, hfront, hback⟩
  refine ⟨a, b, ?_, hfront, ?_⟩
  · rintro rfl
    rw [hfront, List.append_nil] at hlen
    exact Nat.lt_irrefl _ hlen
  · rw [← hback]
    exact hqa

/-! ## Every place -/

/-- From a place on, every place with a character ahead. -/
def onwards (before : Option Char) (offset : Nat) : Text → List Place
  | [] => []
  | c :: t => ⟨before, offset, c :: t⟩ :: onwards (some c) (offset + c.utf8Size) t

theorem past_cons_start {before : Option Char} {offset : Nat} {c : Char} {t read rest : Text} :
    past ⟨before, offset, c :: t⟩ (c :: read) rest =
      past ⟨some c, offset + c.utf8Size, t⟩ read rest := by
  have hfirst : (⟨some c, offset + c.utf8Size, t⟩ : Place) =
      past ⟨before, offset, c :: t⟩ [c] t := by simp [past]
  rw [hfirst, past_past]
  rfl

theorem mem_onwards {p : Place} {before : Option Char} {offset : Nat} {t : Text} :
    p ∈ onwards before offset t ↔
      p.rest ≠ [] ∧ ∃ read, t = read ++ p.rest ∧ p = past ⟨before, offset, t⟩ read p.rest := by
  induction t generalizing before offset with
  | nil =>
    constructor
    · intro h
      cases h
    · rintro ⟨hne, read, hread, -⟩
      exact absurd (List.append_eq_nil_iff.1 hread.symm).2 hne
  | cons c t ih =>
    rw [onwards, List.mem_cons, ih]
    constructor
    · rintro (rfl | ⟨hne, read, hread, hp⟩)
      · exact ⟨List.cons_ne_nil c t, [], rfl, by rw [past_nil]⟩
      · refine ⟨hne, c :: read, by rw [hread]; rfl, ?_⟩
        rw [past_cons_start]
        exact hp
    · rintro ⟨hne, read, hread, hp⟩
      cases read with
      | nil =>
        left
        have hrest : p.rest = c :: t := hread.symm
        rw [hp, hrest]
        exact past_nil ⟨before, offset, c :: t⟩
      | cons d read =>
        right
        obtain ⟨rfl, ht⟩ : c = d ∧ t = read ++ p.rest := by simpa using hread
        refine ⟨hne, read, ht, ?_⟩
        rw [← past_cons_start]
        exact hp

theorem pairwise_onwards (before : Option Char) (offset : Nat) (t : Text) :
    (onwards before offset t).Pairwise (fun p q => p.offset < q.offset) := by
  induction t generalizing before offset with
  | nil => exact List.Pairwise.nil
  | cons c t ih =>
    refine List.pairwise_cons.2 ⟨?_, ih _ _⟩
    intro q hq
    rcases mem_onwards.1 hq with ⟨-, read, -, hp⟩
    have hpos := c.utf8Size_pos
    rw [hp, past_offset]
    dsimp only
    omega

end Place

/-- Every place of a text with a character ahead, in order. -/
def places (t : Text) : List Place := Place.onwards none 0 t

/-- The places of a text are those with text ahead. -/
theorem mem_places {p : Place} {t : Text} : p ∈ places t ↔ p.IsIn t ∧ p.rest ≠ [] := by
  unfold places
  rw [Place.mem_onwards, and_comm]
  constructor
  · rintro ⟨⟨read, hread, hp⟩, hne⟩
    refine ⟨⟨read, hread, ?_, ?_⟩, hne⟩
    · rw [hp, Place.past_offset]
      exact Nat.zero_add _
    · rw [hp]
      simp [Place.past]
  · rintro ⟨⟨read, hread, ho, hb⟩, hne⟩
    refine ⟨⟨read, hread, ?_⟩, hne⟩
    cases p
    simp_all [Place.past]

end Strata
