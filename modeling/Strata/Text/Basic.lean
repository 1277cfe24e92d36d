/-!
# Texts and byte offsets

A text is the list of its characters. Offsets into a text count the bytes of its UTF-8 form, so
only some numbers are offsets *between* two characters: the boundaries. Every operation that takes
an offset says what happens elsewhere by returning `none`, and never rounds.

* `byteLen`: the length of a text in bytes;
* `splitAt?`: the two halves of a text around a boundary;
* `isBoundary`: whether a number is a boundary of a text.
-/

namespace Strata

/-- A text, as the list of its characters. -/
abbrev Text := List Char

/-- The number of bytes that a text takes in UTF-8. -/
def byteLen (t : Text) : Nat := t.foldr (fun c n => c.utf8Size + n) 0

@[simp] theorem byteLen_nil : byteLen [] = 0 := rfl

@[simp] theorem byteLen_cons (c : Char) (t : Text) :
    byteLen (c :: t) = c.utf8Size + byteLen t := rfl

@[simp] theorem byteLen_append (s t : Text) : byteLen (s ++ t) = byteLen s + byteLen t := by
  induction s with
  | nil => simp
  | cons c s ih => rw [List.cons_append, byteLen_cons, byteLen_cons, ih, Nat.add_assoc]

/-- Only the empty text has no bytes. -/
theorem byteLen_eq_zero {t : Text} : byteLen t = 0 ↔ t = [] := by
  cases t with
  | nil => simp
  | cons c t =>
    have := c.utf8Size_pos
    simp
    omega

/-- The first `n` bytes of a text and what follows them, where `n` is a boundary. -/
def splitAt? : Nat → Text → Option (Text × Text)
  | 0, t => some ([], t)
  | _ + 1, [] => none
  | n + 1, c :: t =>
    if c.utf8Size ≤ n + 1 then
      (splitAt? (n + 1 - c.utf8Size) t).map fun (front, back) => (c :: front, back)
    else
      none
  termination_by _ t => t.length

/-- Nothing is lost when a text is split, and the front has exactly the bytes asked for. -/
theorem splitAt?_eq_some {n : Nat} {t front back : Text} :
    splitAt? n t = some (front, back) ↔ t = front ++ back ∧ byteLen front = n := by
  fun_induction splitAt? n t generalizing front with
  | case1 t =>
    constructor
    · rintro h
      obtain ⟨rfl, rfl⟩ : [] = front ∧ t = back := by simpa using h
      simp
    · rintro ⟨rfl, h⟩
      simp [byteLen_eq_zero.1 h]
  | case2 n =>
    constructor
    · simp
    · rintro ⟨h, hn⟩
      obtain ⟨rfl, rfl⟩ := List.append_eq_nil_iff.1 h.symm
      simp at hn
  | case3 n c t hc ih =>
    constructor
    · intro h
      obtain ⟨⟨f, b⟩, hs, he⟩ := Option.map_eq_some_iff.1 h
      obtain ⟨rfl, rfl⟩ : c :: f = front ∧ b = back := by simpa using he
      obtain ⟨rfl, hf⟩ := ih.1 hs
      exact ⟨rfl, by simp; omega⟩
    · rintro ⟨h, hn⟩
      cases front with
      | nil => simp at hn
      | cons d f =>
        obtain ⟨rfl, rfl⟩ : c = d ∧ t = f ++ back := by simpa using h
        have hf : byteLen f = n + 1 - c.utf8Size := by simp at hn; omega
        rw [ih.2 ⟨rfl, hf⟩]
        rfl
  | case4 n c t hc =>
    constructor
    · simp
    · rintro ⟨h, hn⟩
      cases front with
      | nil => simp at hn
      | cons d f =>
        obtain ⟨rfl, rfl⟩ : c = d ∧ t = f ++ back := by simpa using h
        simp at hn
        omega

/-- What is left behind a front that is not empty is shorter. -/
theorem length_lt_of_splitAt? {n : Nat} {t front back : Text} {c : Char}
    (h : splitAt? n t = some (c :: front, back)) : back.length < t.length := by
  rw [(splitAt?_eq_some.1 h).1, List.length_append, List.length_cons]
  omega

/-- The text from byte `n` on, where `n` is a boundary. -/
def dropBytes? : Nat → Text → Option Text
  | 0, t => some t
  | _ + 1, [] => none
  | n + 1, c :: t => if c.utf8Size ≤ n + 1 then dropBytes? (n + 1 - c.utf8Size) t else none
  termination_by _ t => t.length

/-- What is dropped is the front of the text, and the rest is its back. -/
theorem dropBytes?_eq_map_splitAt? (n : Nat) (t : Text) :
    dropBytes? n t = (splitAt? n t).map (·.2) := by
  fun_induction splitAt? n t with
  | case1 t => simp [dropBytes?]
  | case2 n => simp [dropBytes?]
  | case3 n c t hc ih =>
    rw [dropBytes?, if_pos hc, ih, Option.map_map]
    rfl
  | case4 n c t hc => rw [dropBytes?, if_neg hc, Option.map_none]

/-- The first `n` bytes of a text, where `n` is a boundary. -/
def takeBytes? (n : Nat) (t : Text) : Option Text := (splitAt? n t).map (·.1)

/-- The number of characters that the first `n` bytes of a text are, and `count` more, where `n` is
a boundary. -/
def charsBefore? (count : Nat) : Nat → Text → Option Nat
  | 0, _ => some count
  | _ + 1, [] => none
  | n + 1, c :: t =>
    if c.utf8Size ≤ n + 1 then charsBefore? (count + 1) (n + 1 - c.utf8Size) t else none
  termination_by _ t => t.length

/-- The characters counted are those that would be taken. -/
theorem charsBefore?_eq_map_takeBytes? (count n : Nat) (t : Text) :
    charsBefore? count n t = (takeBytes? n t).map (count + ·.length) := by
  unfold takeBytes?
  fun_induction splitAt? n t generalizing count with
  | case1 t => simp [charsBefore?]
  | case2 n => simp [charsBefore?]
  | case3 n c t hc ih =>
    rw [charsBefore?, if_pos hc, ih]
    simp only [Option.map_map]
    congr 1
    funext p
    simp
    omega
  | case4 n c t hc => rw [charsBefore?, if_neg hc]; rfl

/-- Whether `n` is the offset of a place between two characters of `t`, or of one of its ends. -/
def isBoundary (t : Text) (n : Nat) : Bool := (dropBytes? n t).isSome

end Strata
