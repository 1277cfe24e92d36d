import Mathlib.Tactic.ByContra
import Strata.Proofs.Place

/-!
# Trails through a text

A text whose characters know where they stand is a list of offsets and characters. What a sweep
leaves of a text is a trail: some of these characters, in order. Two sweeps that drop characters by
looking at what they passed are both a `sift`, and a part of what is left comes from a part of the
text with the same first and last character.

* `located`: the elements of a list with their offsets;
* `getElem?_flatMap_of_located`: what stands at an offset of bytes written one element at a time;
* `sift`, `exists_part_of_sift`: parts of what is left.
-/

namespace Strata

variable {α β σ : Type} {char : α → Char} {offset : Nat} {as bs : List α}

/-! ## Elements with their offsets -/

/-- The elements of a list with the offsets at which they stand, the first one at a given offset.
What an element takes is what its character takes. -/
def located (char : α → Char) (offset : Nat) : List α → List (Nat × α)
  | [] => []
  | a :: as => (offset, a) :: located char (offset + (char a).utf8Size) as

@[simp] theorem located_nil : located char offset [] = [] := rfl

@[simp] theorem located_cons {a : α} : located char offset (a :: as) =
    (offset, a) :: located char (offset + (char a).utf8Size) as := rfl

@[simp] theorem map_snd_located : (located char offset as).map (·.2) = as := by
  induction as generalizing offset with
  | nil => rfl
  | cons a as ih => simp [ih]

@[simp] theorem length_located : (located char offset as).length = as.length := by
  induction as generalizing offset with
  | nil => rfl
  | cons a as ih => simp [ih]

theorem located_append : located char offset (as ++ bs) =
    located char offset as ++ located char (offset + byteLen (as.map char)) bs := by
  induction as generalizing offset with
  | nil => simp
  | cons a as ih => simp [ih, Nat.add_assoc]

/-- A part of the located elements is a part of the list, at its offset. -/
theorem exists_append_of_located {xs ys : List (Nat × α)} (h : located char offset as = xs ++ ys) :
    ∃ a b, as = a ++ b ∧ xs = located char offset a ∧
      ys = located char (offset + byteLen (a.map char)) b := by
  have hmap := congrArg (List.map (·.2)) h
  rw [map_snd_located, List.map_append] at hmap
  refine ⟨xs.map (·.2), ys.map (·.2), hmap, ?_⟩
  rw [hmap, located_append] at h
  have := List.append_inj h (by simp)
  exact ⟨this.1.symm, this.2.symm⟩

/-- A located element stands within what the list takes. -/
theorem bounds_of_mem_located {x : Nat × α} (h : x ∈ located char offset as) :
    offset ≤ x.1 ∧ x.1 + (char x.2).utf8Size ≤ offset + byteLen (as.map char) := by
  induction as generalizing offset with
  | nil => cases h
  | cons a as ih =>
    rw [List.map_cons, byteLen_cons]
    rcases List.mem_cons.1 h with rfl | h
    · exact ⟨Nat.le_refl _, by dsimp only; omega⟩
    · have := ih h
      omega

/-- Located elements stand behind each other. -/
theorem pairwise_located : (located char offset as).Pairwise fun x y => x.1 < y.1 := by
  induction as generalizing offset with
  | nil => exact List.Pairwise.nil
  | cons a as ih =>
    refine List.pairwise_cons.2 ⟨fun y hy => ?_, ih⟩
    have hpos := (char a).utf8Size_pos
    have hbounds := bounds_of_mem_located hy
    dsimp only
    omega

/-- The last element ends what the list takes. -/
theorem stop_of_getLast?_located {x : Nat × α} (h : (located char offset as).getLast? = some x) :
    x.1 + (char x.2).utf8Size = offset + byteLen (as.map char) := by
  rcases List.getLast?_eq_some_iff.1 h with ⟨xs, hxs⟩
  rcases exists_append_of_located hxs with ⟨front, back, has, -, hlast⟩
  cases back with
  | nil => cases hlast
  | cons a back =>
    obtain ⟨hx, hback⟩ := List.cons.inj hlast
    have hnil : back = [] := by
      have := congrArg List.length hback
      rw [length_located] at this
      exact List.length_eq_zero_iff.1 this.symm
    rw [has, hx, hnil, List.map_append, byteLen_append]
    simp [Nat.add_assoc]

/-- Elements stand where the elements they were made from would stand. -/
theorem located_map {f : β → α} {bs : List β} : located char offset (bs.map f) =
    (located (fun b => char (f b)) offset bs).map fun x => (x.1, f x.2) := by
  induction bs generalizing offset with
  | nil => rfl
  | cons b bs ih => simp [ih]

/-- A located element has its offset from the elements before it. -/
theorem mem_located {x : Nat × α} (h : x ∈ located char 0 as) :
    ∃ front back, as = front ++ x.2 :: back ∧ x.1 = byteLen (front.map char) := by
  rcases List.append_of_mem h with ⟨xs, ys, hxs⟩
  rcases exists_append_of_located hxs with ⟨front, rest, has, -, hrest⟩
  cases rest with
  | nil => cases hrest
  | cons a back =>
    obtain ⟨hx, -⟩ := List.cons.inj hrest
    rw [hx]
    exact ⟨front, back, has, by simp⟩

/-- Bytes written one element at a time stand where the elements stand. -/
theorem getElem?_flatMap_of_located {f : α → List β}
    (hf : ∀ a, (f a).length = (char a).utf8Size) {x : Nat × α} (hx : x ∈ located char 0 as)
    {j : Nat} (hj : j < (char x.2).utf8Size) : (as.flatMap f)[x.1 + j]? = (f x.2)[j]? := by
  rcases mem_located hx with ⟨front, back, has, hstart⟩
  have hlen : (front.flatMap f).length = byteLen (front.map char) := by
    clear has hstart
    induction front with
    | nil => rfl
    | cons a front ih => simp [hf, ih]
  rw [has, List.flatMap_append, List.flatMap_cons, hstart, ← hlen,
    List.getElem?_append_right (Nat.le_add_right _ _), Nat.add_sub_cancel_left,
    List.getElem?_append_left (by rw [hf]; exact hj)]

/-- Each byte is a byte of an element. -/
theorem exists_located {i : Nat} (h : i < byteLen (as.map char)) :
    ∃ x ∈ located char 0 as, ∃ j, j < (char x.2).utf8Size ∧ i = x.1 + j := by
  suffices hall : ∀ offset, ∃ x ∈ located char offset as, ∃ j, j < (char x.2).utf8Size ∧
      offset + i = x.1 + j by simpa using hall 0
  induction as generalizing i with
  | nil =>
    rw [List.map_nil, byteLen_nil] at h
    omega
  | cons a as ih =>
    intro offset
    by_cases hfirst : i < (char a).utf8Size
    · exact ⟨(offset, a), List.mem_cons_self, i, hfirst, rfl⟩
    · rw [List.map_cons, byteLen_cons] at h
      rcases ih (i := i - (char a).utf8Size) (by omega) (offset + (char a).utf8Size) with
        ⟨x, hx, j, hj, hij⟩
      exact ⟨x, List.mem_cons_of_mem _ hx, j, hj, by omega⟩

/-! ## Sifting -/

/-- Drops elements by looking at what was passed. -/
def sift (keep : σ → α → Bool) (next : σ → α → σ) : σ → List α → List α
  | _, [] => []
  | s, a :: as =>
    if keep s a then a :: sift keep next (next s a) as else sift keep next (next s a) as

variable {keep : σ → α → Bool} {next : σ → α → σ} {s : σ}

theorem sift_cons {a : α} : sift keep next s (a :: as) =
    if keep s a then a :: sift keep next (next s a) as else sift keep next (next s a) as := rfl

theorem sift_sublist : (sift keep next s as).Sublist as := by
  induction as generalizing s with
  | nil => exact List.Sublist.refl _
  | cons a as ih =>
    unfold sift
    split
    · exact ih.cons_cons a
    · exact ih.cons a

/-- What stands behind other elements is sifted by what was passed in them. -/
theorem sift_append : sift keep next s (as ++ bs) =
    sift keep next s as ++ sift keep next (as.foldl next s) bs := by
  induction as generalizing s with
  | nil => rfl
  | cons a as ih =>
    simp only [List.cons_append, sift_cons, ih, List.foldl_cons]
    split <;> rfl

/-- Sifting by a property of the elements alone. -/
theorem sift_eq_filter {p : α → Bool} (hkeep : ∀ s a, keep s a = p a) :
    sift keep next s as = as.filter p := by
  induction as generalizing s with
  | nil => rfl
  | cons a as ih => simp only [sift_cons, hkeep, ih, List.filter_cons]

/-- Sifting looks at the elements only through what `keep` and `next` look at. -/
theorem sift_map {f : β → α} {l : List β} : sift keep next s (l.map f) =
    (sift (fun s b => keep s (f b)) (fun s b => next s (f b)) s l).map f := by
  induction l generalizing s with
  | nil => rfl
  | cons b l ih =>
    simp only [List.map_cons, sift_cons, ih]
    split <;> rfl

/-- The back of what is left comes from the back of the list. -/
theorem exists_back_of_sift {a : α} {front back : List α}
    (h : sift keep next s as = front ++ a :: back) :
    ∃ l x t, as = l ++ a :: x ∧ keep t a = true ∧ sift keep next (next t a) x = back := by
  induction as generalizing s front with
  | nil =>
    have := congrArg List.length h
    simp [sift] at this
  | cons b as ih =>
    rw [sift_cons] at h
    split at h
    · rename_i hb
      cases front with
      | nil =>
        obtain ⟨rfl, hback⟩ := List.cons.inj h
        exact ⟨[], as, s, rfl, hb, hback⟩
      | cons c front =>
        rcases ih (List.cons.inj h).2 with ⟨l, x, t, has, hx⟩
        exact ⟨b :: l, x, t, by rw [has]; rfl, hx⟩
    · rcases ih h with ⟨l, x, t, has, hx⟩
      exact ⟨b :: l, x, t, by rw [has]; rfl, hx⟩

/-- The front of what is left comes from the front of the list, up to the last element kept. -/
theorem exists_front_of_sift {front back : List α} (h : sift keep next s as = front ++ back) :
    ∃ x l, as = x ++ l ∧ sift keep next s x = front ∧ (front ≠ [] → x.getLast? = front.getLast?) ∧
      (front = [] → x = []) := by
  -- the shortest such front, so that it ends in an element that is kept
  induction as generalizing s front with
  | nil =>
    have hfront : front = [] := (List.append_eq_nil_iff.1 h.symm).1
    subst hfront
    exact ⟨[], [], rfl, rfl, fun _ => rfl, fun _ => rfl⟩
  | cons b as ih =>
    by_cases hnil : front = []
    · subst hnil
      exact ⟨[], b :: as, rfl, rfl, fun _ => rfl, fun _ => rfl⟩
    rw [sift_cons] at h
    split at h
    · rename_i hb
      rcases List.exists_cons_of_ne_nil hnil with ⟨c, front, rfl⟩
      obtain ⟨rfl, hrest⟩ := List.cons.inj h
      rcases ih hrest with ⟨x, l, has, hx, hlast, hempty⟩
      refine ⟨b :: x, l, by rw [has]; rfl, by rw [sift_cons, if_pos hb, hx], ?_, ?_⟩
      · intro _
        rw [List.getLast?_cons, List.getLast?_cons]
        by_cases hfront : front = []
        · rw [hempty hfront, hfront]
        · rw [hlast hfront]
      · intro hcons
        exact absurd hcons (List.cons_ne_nil b front)
    · rename_i hb
      rcases ih h with ⟨x, l, has, hx, hlast, -⟩
      refine ⟨b :: x, l, by rw [has]; rfl, by rw [sift_cons, if_neg hb, hx], ?_, ?_⟩
      · intro _
        rcases Option.isSome_iff_exists.1 (List.getLast?_isSome.2 hnil) with ⟨d, hd⟩
        rw [List.getLast?_cons, hlast hnil, hd]
        rfl
      · intro hfront
        exact absurd hfront hnil

/-- A part of what is left comes from a part of the list with the same ends. -/
theorem exists_part_of_sift {a : α} {front part back : List α}
    (h : sift keep next s as = front ++ a :: part ++ back) :
    ∃ l x l' t, as = l ++ a :: x ++ l' ∧ keep t a = true ∧
      sift keep next (next t a) x = part ∧ (a :: x).getLast? = (a :: part).getLast? := by
  rw [List.append_assoc] at h
  rcases exists_back_of_sift h with ⟨l, rest, t, has, hkeep, hrest⟩
  rcases exists_front_of_sift hrest with ⟨x, l', hxl, hx, hlast, hempty⟩
  refine ⟨l, x, l', t, by rw [has, hxl]; simp, hkeep, hx, ?_⟩
  rw [List.getLast?_cons, List.getLast?_cons]
  by_cases hpart : part = []
  · rw [hempty hpart, hpart]
  · rw [hlast hpart]

/-- A part of what is left by a property of the elements alone. -/
theorem exists_part_of_filter {ok : α → Bool} {a : α} {front part back : List α}
    (h : as.filter ok = front ++ a :: part ++ back) :
    ∃ l x l', as = l ++ a :: x ++ l' ∧ (a :: x).filter ok = a :: part ∧
      (a :: x).getLast? = (a :: part).getLast? := by
  have hsift : ∀ bs : List α, sift (fun (_ : Unit) b => ok b) (fun s _ => s) () bs = bs.filter ok :=
    fun bs => sift_eq_filter fun _ _ => rfl
  rw [← hsift] at h
  rcases exists_part_of_sift h with ⟨l, x, l', t, has, hkeep, hx, hlast⟩
  refine ⟨l, x, l', has, ?_, hlast⟩
  rw [List.filter_cons_of_pos hkeep, ← hsift, hx]

end Strata
