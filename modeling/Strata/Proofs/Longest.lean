import Strata.Proofs.Constant

/-!
# The longest match

A search tries the matches of a pattern one after the other and takes the first that will do.
`Pattern.ends` lists where they end, in the order in which they are tried. A pattern is *greedy* if
longer matches are tried before shorter ones. Repetitions are not greedy in general, since a longer
front can leave a shorter back; they are where what is repeated and what follows it cannot start
alike. So each rule for constants is greedy, and finds the longest match of its pattern.

* `search_eq_findSome?_ends`, `mem_ends`: the search and the matches, by their ends;
* `Greedy.star_seq`, `Greedy.opt_seq`: what makes a repetition and an option greedy;
* `Single.star_seq`: what leaves a repetition one match at most;
* `ConstantRule.greedy_of_mem`: the rules for constants;
* `Greedy.exists_isLongest`, `Single.matchLen?_eq_some_iff`: what a rule finds.
-/

namespace Strata

namespace Pattern

variable {α : Type} {p q r : Pattern} {here there : Place}

/-! ## Where matches end -/

/-- Where one character that satisfies `ok` ends. -/
def oneEnds (ok : Char → Bool) (here : Place) : List Place :=
  match here.next? with
  | some (c, there) => if ok c then [there] else []
  | none => []

/-- Where steps that get ahead can end, those that take more steps first. The number of steps is
bounded by the characters of `bound`. -/
def repeatedEnds (step : Place → List Place) : Text → Place → List Place
  | [], here => [here]
  | _ :: bound, here =>
    ((step here).flatMap fun there =>
        if here.offset < there.offset then repeatedEnds step bound there else []) ++ [here]

/-- Where the matches from a place on end, in the order in which a search tries them. -/
def ends : Pattern → Place → List Place
  | lit c, here => oneEnds (· = c) here
  | one k, here => oneEnds k.holds here
  | any, here => oneEnds (fun _ => true) here
  | seq p q, here => (ends p here).flatMap (ends q)
  | alt p q, here => ends p here ++ ends q here
  | opt p, here => ends p here ++ [here]
  | star p, here => repeatedEnds (ends p) here.rest here
  | plus p, here => (ends p here).flatMap fun there => repeatedEnds (ends p) there.rest there
  | wordEdge, here => if isWordEdge here then [here] else []

/-- Trying one character is looking through the ends that it may have. -/
theorem oneChar_eq_findSome? (ok : Char → Bool) (here : Place) (found : Place → Option α) :
    oneChar ok here found = (oneEnds ok here).findSome? found := by
  unfold oneChar oneEnds
  cases here.next? with
  | none => rfl
  | some pair =>
    obtain ⟨c, there⟩ := pair
    cases hok : ok c <;> simp [hok]

theorem findSome?_flatMap {β : Type} (f : β → List Place) (found : Place → Option α) (bs : List β) :
    (bs.flatMap f).findSome? found = bs.findSome? fun b => (f b).findSome? found := by
  induction bs with
  | nil => rfl
  | cons b bs ih =>
    rw [List.flatMap_cons, List.findSome?_append, List.findSome?_cons, ih]
    cases (f b).findSome? found <;> rfl

theorem repeated_eq_findSome? {step : Place → (Place → Option α) → Option α}
    {stepEnds : Place → List Place}
    (hstep : ∀ here found, step here found = (stepEnds here).findSome? found)
    (found : Place → Option α) (bound : Text) (here : Place) :
    repeated step found bound here = (repeatedEnds stepEnds bound here).findSome? found := by
  induction bound generalizing here with
  | nil => simp [repeated, repeatedEnds]
  | cons c bound ih =>
    have hlater : (fun there : Place =>
        if here.offset < there.offset then repeated step found bound there else none) =
        fun there => (if here.offset < there.offset then repeatedEnds stepEnds bound there
          else []).findSome? found := by
      funext there
      split
      · exact ih there
      · rfl
    rw [repeated, repeatedEnds, List.findSome?_append, findSome?_flatMap, hstep, hlater]
    simp

/-- A search finds what is found first behind the ends, in order. -/
theorem search_eq_findSome?_ends (p : Pattern) (here : Place) (found : Place → Option α) :
    p.search here found = (p.ends here).findSome? found := by
  induction p generalizing here found with
  | lit c => exact oneChar_eq_findSome? _ here found
  | one k => exact oneChar_eq_findSome? _ here found
  | any => exact oneChar_eq_findSome? _ here found
  | seq p q ihp ihq =>
    simp only [search, ends, findSome?_flatMap, ihp, ihq]
  | alt p q ihp ihq => simp [search, ends, ihp, ihq]
  | opt p ihp => simp [search, ends, ihp]
  | star p ihp => exact repeated_eq_findSome? ihp found here.rest here
  | plus p ihp =>
    simp only [search, ends, findSome?_flatMap, ihp]
    congr 1
    funext there
    exact repeated_eq_findSome? ihp found there.rest there
  | wordEdge =>
    cases hedge : isWordEdge here <;> simp [search, ends, hedge]

/-- The ends are where the matches end. -/
theorem mem_ends : there ∈ p.ends here ↔ Matches p here there := by
  -- a search that only takes `there` succeeds exactly if it is one of the ends
  let found : Place → Option Unit := fun other => if other = there then some () else none
  have hfound : (p.search here found).isSome ↔ there ∈ p.ends here := by
    rw [search_eq_findSome?_ends, List.findSome?_isSome_iff]
    simp [found]
  rw [← hfound]
  constructor
  · intro h
    rcases Option.isSome_iff_exists.1 h with ⟨_, hsome⟩
    rcases exists_matches_of_search hsome with ⟨other, hmatches, hother⟩
    have heq : other = there := by
      by_contra hne
      simp [found, hne] at hother
    exact heq ▸ hmatches
  · intro h
    exact isSome_search h (by simp [found])

/-- A match never ends before it starts. -/
theorem offset_le_of_mem_ends (h : there ∈ p.ends here) : here.offset ≤ there.offset := by
  rcases (mem_ends.1 h).exists_reading with ⟨front, hreading⟩
  have hoffset := congrArg Place.offset hreading.past_eq
  rw [Place.past_offset] at hoffset
  omega

/-- What a pattern that consumes can match starts with one of its characters. -/
theorem exists_starts_of_mem_ends (hp : p.consumes = true) (h : there ∈ p.ends here) :
    here.offset < there.offset ∧ ∃ c, here.peek? = some c ∧ p.starts c = true := by
  rcases (mem_ends.1 h).exists_reading with ⟨front, hreading⟩
  rcases List.exists_cons_of_ne_nil (hreading.ne_nil hp) with ⟨c, tail, hfront⟩
  have hoffset := congrArg Place.offset hreading.past_eq
  have hpos := byteLen_pos (hreading.ne_nil hp)
  rw [Place.past_offset] at hoffset
  refine ⟨by omega, c, ?_, hreading.starts c (by rw [hfront]; rfl)⟩
  exact Place.peek?_eq_some (t := tail ++ there.rest) (by rw [hreading.rest_eq, hfront]; rfl)

/-- Where a pattern cannot start with the character ahead, it can only match nothing. -/
theorem eq_of_mem_ends {c : Char} (hpeek : here.peek? = some c) (hstarts : p.starts c = false)
    (h : there ∈ p.ends here) : there = here := by
  rcases (mem_ends.1 h).exists_reading with ⟨front, hreading⟩
  cases front with
  | nil =>
    have hrest : here.rest = there.rest := hreading.rest_eq
    have hpast := hreading.past_eq
    rw [← hrest, Place.past_nil] at hpast
    exact hpast
  | cons d tail =>
    have hd : d = c := by
      rw [Place.peek?, hreading.rest_eq] at hpeek
      simpa using hpeek
    have hd' := hreading.starts d rfl
    rw [hd, hstarts] at hd'
    cases hd'

/-! ## Greedy patterns -/

/-- Longer matches are tried before shorter ones. -/
def Greedy (p : Pattern) : Prop := ∀ here, (p.ends here).Pairwise fun a b => b.offset ≤ a.offset

/-- There is one match at most from any place on. -/
def Single (p : Pattern) : Prop := ∀ here, (p.ends here).length ≤ 1

/-- The patterns cannot start with the same character. -/
def Apart (p q : Pattern) : Prop := ∀ c, p.starts c = true → q.starts c = false

/-- A pattern with one match at most ends nowhere or in one place. -/
theorem Single.ends_cases (hp : Single p) (here : Place) :
    p.ends here = [] ∨ ∃ there, p.ends here = [there] := by
  have hlen := hp here
  cases hends : p.ends here with
  | nil => exact Or.inl rfl
  | cons there tail =>
    rw [hends, List.length_cons] at hlen
    have htail : tail = [] := List.eq_nil_of_length_eq_zero (by omega)
    exact Or.inr ⟨there, by rw [htail]⟩

/-- With one match at most, no order of trying can be wrong. -/
theorem Single.greedy (hp : Single p) : Greedy p := by
  intro here
  rcases hp.ends_cases here with hends | ⟨there, hends⟩ <;> simp [hends]

/-- Whether longer matches come first depends on where a pattern ends only. -/
theorem Greedy.congr (hp : Greedy p) (h : ∀ here, q.ends here = p.ends here) : Greedy q := by
  intro here
  rw [h]
  exact hp here

theorem length_oneEnds_le (ok : Char → Bool) (here : Place) : (oneEnds ok here).length ≤ 1 := by
  unfold oneEnds
  split
  · split <;> simp
  · simp

theorem single_lit (c : Char) : Single (lit c) := length_oneEnds_le _

theorem single_one (k : CharClass) : Single (one k) := length_oneEnds_le _

theorem single_any : Single any := length_oneEnds_le _

theorem single_wordEdge : Single wordEdge := by
  intro here
  cases hedge : isWordEdge here <;> simp [ends, hedge]

/-- A pattern with one match behind one with one match has one match. -/
theorem Single.seq (hp : Single p) (hq : Single q) : Single (seq p q) := by
  intro here
  rcases hp.ends_cases here with hends | ⟨mid, hends⟩
  · simp [ends, hends]
  · simpa [ends, hends] using hq mid

/-- Where one pattern matches, no pattern that cannot start alike does. -/
theorem Apart.ends_eq_nil (hapart : Apart p q) (hp : p.consumes = true) (hq : q.consumes = true)
    (h : there ∈ p.ends here) : q.ends here = [] := by
  rcases exists_starts_of_mem_ends hp h with ⟨-, c, hpeek, hc⟩
  rw [List.eq_nil_iff_forall_not_mem]
  intro b hb
  -- `q` could only match nothing here, and it consumes
  have hlt := (exists_starts_of_mem_ends hq hb).1
  rw [eq_of_mem_ends hpeek (hapart c hc) hb] at hlt
  exact Nat.lt_irrefl _ hlt

/-- Of two alternatives that cannot start alike, one has no match. -/
theorem ends_alt_cases (hp : p.consumes = true) (hq : q.consumes = true) (hapart : Apart p q)
    (here : Place) : (alt p q).ends here = p.ends here ∨ (alt p q).ends here = q.ends here := by
  cases hpends : p.ends here with
  | nil => exact Or.inr (by simp [ends, hpends])
  | cons a as =>
    have hqends := hapart.ends_eq_nil hp hq (hpends ▸ List.mem_cons_self)
    exact Or.inl (by simp [ends, hpends, hqends])

/-- Of two patterns that cannot start alike, one matches at most. -/
theorem Single.alt (hp : Single p) (hq : Single q) (hpc : p.consumes = true)
    (hqc : q.consumes = true) (hapart : Apart p q) : Single (alt p q) := by
  intro here
  rcases ends_alt_cases hpc hqc hapart here with hends | hends
  · exact hends ▸ hp here
  · exact hends ▸ hq here

/-- Choosing between patterns that cannot start alike keeps the longest match first. -/
theorem Greedy.alt (hp : Greedy p) (hq : Greedy q) (hpc : p.consumes = true)
    (hqc : q.consumes = true) (hapart : Apart p q) : Greedy (alt p q) := by
  intro here
  rcases ends_alt_cases hpc hqc hapart here with hends | hends
  · exact hends ▸ hp here
  · exact hends ▸ hq here

/-- A greedy pattern behind one with one match is greedy. -/
theorem Greedy.seq (hp : Single p) (hq : Greedy q) : Greedy (seq p q) := by
  intro here
  rcases hp.ends_cases here with hends | ⟨mid, hends⟩
  · simp [ends, hends]
  · simpa [ends, hends] using hq mid

/-- What may be left out is tried before it is left out. -/
theorem Greedy.opt (hp : Greedy p) : Greedy (opt p) := by
  intro here
  refine List.pairwise_append.2 ⟨hp here, List.pairwise_singleton _ _, ?_⟩
  intro a ha b hb
  rw [List.mem_singleton.1 hb]
  exact offset_le_of_mem_ends ha

/-- With the option or without it: the option is tried first, and without it nothing is matched
where it could start. -/
theorem Greedy.opt_seq (hpq : Greedy (Pattern.seq p q)) (hq : Greedy q) (hp : p.consumes = true)
    (hapart : Apart p q) : Greedy (Pattern.seq (Pattern.opt p) q) := by
  intro here
  have hends : (Pattern.seq (Pattern.opt p) q).ends here =
      (Pattern.seq p q).ends here ++ q.ends here := by simp [ends]
  rw [hends]
  refine List.pairwise_append.2 ⟨hpq here, hq here, ?_⟩
  intro a ha b hb
  -- where the option matches, `q` alone stays in place
  rcases List.mem_flatMap.1 ha with ⟨mid, hmid, -⟩
  rcases exists_starts_of_mem_ends hp hmid with ⟨-, c, hpeek, hc⟩
  rw [eq_of_mem_ends hpeek (hapart c hc) hb]
  exact offset_le_of_mem_ends ha

/-! ## Repetitions -/

theorem offset_le_of_mem_repeatedEnds {step : Place → List Place} {bound : Text}
    (h : there ∈ repeatedEnds step bound here) : here.offset ≤ there.offset := by
  induction bound generalizing here with
  | nil => exact Nat.le_of_eq (congrArg Place.offset (List.mem_singleton.1 h).symm)
  | cons c bound ih =>
    rcases List.mem_append.1 h with hlater | hhere
    · rcases List.mem_flatMap.1 hlater with ⟨mid, -, hthere⟩
      split at hthere
      · rename_i hlt
        exact Nat.le_trans (Nat.le_of_lt hlt) (ih hthere)
      · cases hthere
    · exact Nat.le_of_eq (congrArg Place.offset (List.mem_singleton.1 hhere).symm)

/-- A repetition and what `next` makes of its ends: where one more repetition is possible, `next`
stays in place, so more repetitions never get less far. -/
theorem pairwise_flatMap_repeatedEnds {next : Place → List Place} (hp : Single p)
    (hconsumes : p.consumes = true)
    (hnext : ∀ here, (next here).Pairwise fun a b => b.offset ≤ a.offset)
    (hforward : ∀ here, ∀ a ∈ next here, here.offset ≤ a.offset)
    (hstays : ∀ here there, there ∈ p.ends here → ∀ a ∈ next here, a = here)
    (bound : Text) (here : Place) :
    ((repeatedEnds p.ends bound here).flatMap next).Pairwise fun a b => b.offset ≤ a.offset := by
  induction bound generalizing here with
  | nil => simpa [repeatedEnds] using hnext here
  | cons c bound ih =>
    rw [repeatedEnds, List.flatMap_append, List.flatMap_singleton]
    refine List.pairwise_append.2 ⟨?_, hnext here, ?_⟩
    · -- one more repetition can only go to `mid`, and gets ahead, so the test for that is passed
      rcases hp.ends_cases here with hends | ⟨mid, hends⟩
      · simp [hends]
      · have hlt := (exists_starts_of_mem_ends hconsumes
          (hends ▸ List.mem_singleton_self mid : mid ∈ p.ends here)).1
        simpa [hends, hlt] using ih mid
    · intro a ha b hb
      rcases List.mem_flatMap.1 ha with ⟨last, hlast, hanext⟩
      rcases List.mem_flatMap.1 hlast with ⟨mid, hmid, hmidlast⟩
      -- `next` alone stays here, and no repetition goes back
      rw [hstays here mid hmid b hb]
      split at hmidlast
      · exact Nat.le_trans (offset_le_of_mem_ends hmid)
          (Nat.le_trans (offset_le_of_mem_repeatedEnds hmidlast) (hforward last a hanext))
      · cases hmidlast

/-- Repeating a pattern with one match tries the most repetitions first. -/
theorem Greedy.star (hp : Single p) (hconsumes : p.consumes = true) : Greedy (star p) := by
  intro here
  have h : ((repeatedEnds p.ends here.rest here).flatMap fun there => [there]).Pairwise
      fun a b => b.offset ≤ a.offset :=
    pairwise_flatMap_repeatedEnds hp hconsumes (fun _ => List.pairwise_singleton _ _) (by simp)
      (by simp) here.rest here
  rwa [List.flatMap_singleton'] at h

/-- A repetition before a pattern that cannot start like what is repeated. -/
theorem Greedy.star_seq (hp : Single p) (hconsumes : p.consumes = true) (hq : Greedy q)
    (hapart : Apart p q) : Greedy (Pattern.seq (Pattern.star p) q) := by
  intro here
  apply pairwise_flatMap_repeatedEnds hp hconsumes hq (fun _ _ => offset_le_of_mem_ends)
  intro place there hthere a ha
  rcases exists_starts_of_mem_ends hconsumes hthere with ⟨-, c, hpeek, hc⟩
  exact eq_of_mem_ends hpeek (hapart c hc) ha

/-- A repetition and what `next` makes of its ends: where one more repetition is possible, `next`
makes nothing of the place, so the last one alone counts. -/
theorem length_flatMap_repeatedEnds_le {next : Place → List Place} (hp : Single p)
    (hconsumes : p.consumes = true) (hnext : ∀ here, (next here).length ≤ 1)
    (hnone : ∀ here there, there ∈ p.ends here → next here = []) (bound : Text) (here : Place) :
    ((repeatedEnds p.ends bound here).flatMap next).length ≤ 1 := by
  induction bound generalizing here with
  | nil => simpa [repeatedEnds] using hnext here
  | cons c bound ih =>
    rw [repeatedEnds, List.flatMap_append, List.flatMap_singleton]
    rcases hp.ends_cases here with hends | ⟨mid, hends⟩
    · simpa [hends] using hnext here
    · have hmid : mid ∈ p.ends here := hends ▸ List.mem_singleton_self mid
      have hlt := (exists_starts_of_mem_ends hconsumes hmid).1
      simpa [hends, hlt, hnone here mid hmid] using ih mid

/-- A repetition before a pattern that tells where it stops. -/
theorem Single.star_seq (hp : Single p) (hpc : p.consumes = true) (hq : Single q)
    (hqc : q.consumes = true) (hapart : Apart p q) : Single (Pattern.seq (Pattern.star p) q) :=
  fun here => length_flatMap_repeatedEnds_le hp hpc hq
    (fun _ _ hthere => hapart.ends_eq_nil hpc hqc hthere) here.rest here

theorem Greedy.plus (hp : Single p) (hconsumes : p.consumes = true) : Greedy (plus p) :=
  (Greedy.seq hp (Greedy.star hp hconsumes)).congr fun _ => rfl

/-- If what follows cannot start like one more repetition, the most repetitions are tried first. -/
theorem Greedy.plus_seq (hp : Single p) (hconsumes : p.consumes = true) (hq : Greedy q)
    (hapart : Apart p q) : Greedy (Pattern.seq (Pattern.plus p) q) :=
  (Greedy.seq hp (Greedy.star_seq hp hconsumes hq hapart)).congr fun _ => by
    simp only [ends, List.flatMap_assoc]

/-! ## Regrouping -/

/-- A greedy sequence stays greedy when its front is put in brackets. -/
theorem Greedy.seq_assoc (h : Greedy (Pattern.seq p (Pattern.seq q r))) :
    Greedy (Pattern.seq (Pattern.seq p q) r) :=
  h.congr fun _ => by simp only [ends, List.flatMap_assoc]

/-- A choice before a pattern is greedy if the choice between the two sequences is. -/
theorem Greedy.alt_seq (h : Greedy (Pattern.alt (Pattern.seq p r) (Pattern.seq q r))) :
    Greedy (Pattern.seq (Pattern.alt p q) r) :=
  h.congr fun _ => by simp only [ends, List.flatMap_append]

/-- No pattern starts both with one of some characters and with a character that is none of them. -/
theorem Apart.of_mem (chars : List Char) (hq : ∀ c, q.starts c = true → c ∈ chars)
    (hp : (chars.all fun c => !p.starts c) = true) : Apart p q := by
  intro c hc
  by_contra hstarts
  have hnot := List.all_eq_true.1 hp c (hq c (Bool.not_eq_false _ ▸ hstarts))
  rw [hc] at hnot
  cases hnot

/-- What starts with a pattern that consumes starts like it. -/
theorem starts_seq (hp : p.consumes = true) (c : Char) : (seq p q).starts c = p.starts c := by
  simp [starts, hp]

theorem Apart.seq_left (h : Apart p q) (hp : p.consumes = true) : Apart (Pattern.seq p r) q :=
  fun c hc => h c (starts_seq hp c ▸ hc)

theorem Apart.seq_right (h : Apart p q) (hq : q.consumes = true) : Apart p (Pattern.seq q r) :=
  fun c hc => (starts_seq hq c).trans (h c hc)

end Pattern

/-! ## The rules for constants -/

namespace ConstantRule

open Pattern

theorem single_quotedChar (quote : Char) : Single (quotedChar quote) := by
  refine ((single_lit '\\').seq single_any).alt (single_one _) rfl rfl ?_
  intro c hc
  have hescape : c = '\\' := by simpa [Pattern.starts, Pattern.consumes] using hc
  simp [hescape, noneOf, Pattern.starts, CharClass.holds, ClassItem.holds]

theorem single_word (c : Char) (t : List Char) : Single (word c t) := by
  induction t generalizing c with
  | nil => exact single_lit c
  | cons d t ih => exact (single_lit c).seq (ih d)

/-- An escaped quote closes no string, so a string ends in one way only. -/
theorem single_string : Single string.pattern := by
  refine (single_lit _).seq (Single.star_seq (single_quotedChar _) rfl (single_lit _) rfl
    (Apart.of_mem ['"'] ?_ (by decide)))
  simp [Pattern.starts]

theorem single_char : Single char.pattern :=
  (single_lit _).seq ((single_quotedChar _).seq (single_lit _))

theorem greedy_emptyChar : Greedy emptyChar.pattern :=
  ((single_lit _).seq (single_lit _)).greedy

/-- A fixed front, then as many characters of a class as there are. -/
theorem greedy_seq_plus_one {front : Pattern} (hfront : Single front) (k : CharClass) :
    Greedy (seq front (plus (one k))) := Greedy.seq hfront (Greedy.plus (single_one k) rfl)

theorem single_radix (mark upper : Char) : Single (radix mark upper) :=
  (single_lit _).seq (single_one _)

theorem greedy_suffix : Greedy suffix := Greedy.opt (single_one _).greedy

theorem starts_suffix {c : Char} (h : suffix.starts c = true) : c ∈ ['f', 'F', 'l', 'L'] := by
  simpa [suffix, oneOf, Pattern.starts, CharClass.holds, ClassItem.holds] using h

theorem starts_exponent {c : Char} (h : exponent.starts c = true) : c ∈ ['e', 'E'] := by
  simpa [exponent, oneOf, Pattern.starts, Pattern.consumes, CharClass.holds, ClassItem.holds]
    using h

theorem greedy_digits_suffix : Greedy (seq (plus digit) suffix) :=
  Greedy.plus_seq (single_one _) rfl greedy_suffix
    (Apart.of_mem _ (fun _ => starts_suffix) (by decide))

theorem greedy_exponent_suffix : Greedy (seq exponent suffix) := by
  have hsigned : Greedy (seq (opt (oneOf ['+', '-'])) (seq (plus digit) suffix)) := by
    refine Greedy.opt_seq (Greedy.seq (single_one _) greedy_digits_suffix) greedy_digits_suffix
      rfl ?_
    intro c hc
    have hsign : c = '+' ∨ c = '-' := by
      simpa [oneOf, Pattern.starts, CharClass.holds, ClassItem.holds] using hc
    rcases hsign with rfl | rfl <;> decide
  exact Greedy.seq_assoc (Greedy.seq (single_one _) (Greedy.seq_assoc hsigned))

/-- What may follow the digits behind a point. -/
theorem greedy_opt_exponent_suffix : Greedy (seq (opt exponent) suffix) := by
  refine Greedy.opt_seq greedy_exponent_suffix greedy_suffix rfl ?_
  intro c hc
  have hmark := starts_exponent hc
  simp only [List.mem_cons, List.not_mem_nil, or_false] at hmark
  rcases hmark with rfl | rfl <;> decide

theorem apart_digit_point : Apart digit (lit '.') :=
  Apart.of_mem ['.'] (by simp [Pattern.starts]) (by decide)

theorem apart_digit_exponent : Apart digit exponent :=
  Apart.of_mem _ (fun _ => starts_exponent) (by decide)

/-- The rule for numbers with a point tries the longest match first. -/
theorem greedy_float : Greedy float.pattern := by
  have hapart : Apart digit (seq (opt exponent) suffix) := by
    refine Apart.of_mem (['e', 'E'] ++ ['f', 'F', 'l', 'L']) ?_ (by decide)
    intro c hc
    have hstarts : exponent.starts c = true ∨ suffix.starts c = true := by
      simpa [Pattern.starts, Pattern.consumes] using hc
    exact List.mem_append.2 (hstarts.imp starts_exponent starts_suffix)
  have hbefore : Greedy (seq (seq (plus digit) (seq (lit '.') (star digit)))
      (seq (opt exponent) suffix)) := by
    have hfraction := Greedy.star_seq (single_one _) rfl greedy_opt_exponent_suffix hapart
    have hpoint := Greedy.seq_assoc (Greedy.seq (single_lit '.') hfraction)
    exact Greedy.seq_assoc (Greedy.plus_seq (single_one _) rfl hpoint
      ((apart_digit_point.seq_right rfl).seq_right rfl))
  have hbehind : Greedy (seq (seq (lit '.') (plus digit)) (seq (opt exponent) suffix)) := by
    have hfraction := Greedy.plus_seq (single_one _) rfl greedy_opt_exponent_suffix hapart
    exact Greedy.seq_assoc (Greedy.seq (single_lit _) hfraction)
  -- with digits before the point or without, which the first character decides
  have hapart' : Apart (plus digit) (lit '.') := apart_digit_point
  exact Greedy.alt_seq (Greedy.alt hbefore hbehind rfl rfl
    (((hapart'.seq_left rfl).seq_left rfl).seq_right rfl |>.seq_right rfl))

theorem greedy_floatExponent : Greedy floatExponent.pattern :=
  Greedy.plus_seq (single_one _) rfl greedy_exponent_suffix (apart_digit_exponent.seq_right rfl)

theorem greedy_decimal : Greedy decimal.pattern :=
  Greedy.plus_seq (single_one _) rfl single_wordEdge.greedy fun _ _ => rfl

theorem greedy_bool : Greedy bool.pattern := by
  refine (Single.seq (Single.alt (single_word _ _) (single_word _ _) rfl rfl ?_)
    single_wordEdge).greedy
  refine Apart.of_mem ['f'] ?_ (by decide)
  simp [word, Pattern.starts, Pattern.consumes]

/-- Each rule tries longer matches first. -/
theorem greedy_of_mem {rule : ConstantRule} (h : rule ∈ constantRules) : Greedy rule.pattern := by
  simp only [constantRules, List.mem_cons, List.not_mem_nil, or_false] at h
  rcases h with rfl | rfl | rfl | rfl | rfl | rfl | rfl | rfl | rfl | rfl
  · exact single_string.greedy
  · exact single_char.greedy
  · exact greedy_emptyChar
  · exact greedy_seq_plus_one (single_radix _ _) _
  · exact greedy_seq_plus_one (single_radix _ _) _
  · exact greedy_seq_plus_one (single_lit _) _
  · exact greedy_float
  · exact greedy_floatExponent
  · exact greedy_decimal
  · exact greedy_bool

end ConstantRule

/-! ## The longest match -/

/-- The longest match of a pattern from one place leads to another. -/
structure Pattern.IsLongest (p : Pattern) (here there : Place) : Prop where
  matching : p.Matches here there
  longest : ∀ other, p.Matches here other → other.offset ≤ there.offset

/-- What a greedy pattern finds is its longest match. -/
theorem Pattern.Greedy.exists_isLongest {p : Pattern} {here : Place} {len : Nat} (hp : p.Greedy)
    (h : p.matchLen? here = some len) :
    ∃ there, p.IsLongest here there ∧ there.offset = here.offset + len := by
  unfold matchLen? at h
  rw [search_eq_findSome?_ends] at h
  have hsorted := hp here
  cases hends : p.ends here with
  | nil =>
    rw [hends] at h
    cases h
  | cons there shorter =>
    rw [hends] at h hsorted
    have hthere : there ∈ p.ends here := by simp [hends]
    have hlen : there.offset - here.offset = len := by simpa using h
    have hle := offset_le_of_mem_ends hthere
    refine ⟨there, ⟨mem_ends.1 hthere, ?_⟩, by omega⟩
    intro other hother
    rcases List.mem_cons.1 (hends ▸ mem_ends.2 hother) with rfl | hlater
    · exact Nat.le_refl _
    · exact (List.pairwise_cons.1 hsorted).1 other hlater

/-- If there is one match at most, it does not matter how a search goes about it. -/
theorem Pattern.Single.matchLen?_eq_some_iff {p : Pattern} {here : Place} {len : Nat}
    (hp : p.Single) :
    p.matchLen? here = some len ↔
      ∃ there, p.Matches here there ∧ there.offset = here.offset + len := by
  constructor
  · intro h
    rcases hp.greedy.exists_isLongest h with ⟨there, hlongest, hoffset⟩
    exact ⟨there, hlongest.matching, hoffset⟩
  · rintro ⟨there, hmatches, hoffset⟩
    have hthere : there ∈ p.ends here := mem_ends.2 hmatches
    have hends : p.ends here = [there] := by
      rcases hp.ends_cases here with hnil | ⟨other, hone⟩
      · rw [hnil] at hthere
        cases hthere
      · rw [hone] at hthere ⊢
        rw [List.mem_singleton.1 hthere]
    rw [matchLen?, search_eq_findSome?_ends, hends, List.findSome?_singleton, hoffset,
      Nat.add_sub_cancel_left]

end Strata
