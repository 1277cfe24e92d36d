import Strata.Grammar.Pattern
import Strata.Proofs.Place

/-!
# What a pattern matches

`Pattern.Matches` says which parts of a text a pattern matches, without the order in which a search
tries them. The search is sound and complete for it: it finds something exactly if some match leads
to something. Which characters a match can read, and which one it can start with, is read off the
pattern.

* `exists_matches_of_search`, `isSome_search`: the search against the matches;
* `Matches.exists_reading`: what a match reads.
-/

namespace Strata

namespace Pattern

/-- The pattern matches the text from one place to another. -/
inductive Matches : Pattern → Place → Place → Prop
  | lit {c here there} (h : here.next? = some (c, there)) : Matches (lit c) here there
  | one {k c here there} (h : here.next? = some (c, there)) (hk : k.holds c = true) :
      Matches (one k) here there
  | any {c here there} (h : here.next? = some (c, there)) : Matches any here there
  | seq {p q here mid there} (hp : Matches p here mid) (hq : Matches q mid there) :
      Matches (seq p q) here there
  | altLeft {p q here there} (hp : Matches p here there) : Matches (alt p q) here there
  | altRight {p q here there} (hq : Matches q here there) : Matches (alt p q) here there
  | optSome {p here there} (hp : Matches p here there) : Matches (opt p) here there
  | optNone {p here} : Matches (opt p) here here
  | starNil {p here} : Matches (star p) here here
  | starCons {p here mid there} (hp : Matches p here mid) (hlt : here.offset < mid.offset)
      (hs : Matches (star p) mid there) : Matches (star p) here there
  | plus {p here mid there} (hp : Matches p here mid) (hs : Matches (star p) mid there) :
      Matches (plus p) here there
  | wordEdge {here} (h : isWordEdge here = true) : Matches wordEdge here here

/-- A repeated class finds a character of the class. -/
theorem Matches.exists_next_of_plus {k : CharClass} {here there : Place}
    (h : Matches (.plus (.one k)) here there) :
    ∃ c mid, here.next? = some (c, mid) ∧ k.holds c = true := by
  cases h with
  | plus hp _ =>
    cases hp with
    | one hnext hk => exact ⟨_, _, hnext, hk⟩

/-! ## The search finds matches -/

variable {α : Type} {found : Place → Option α} {here : Place} {r : α}

/-- A character that is taken satisfies what is asked, and the rest is found behind it. -/
theorem oneChar_eq_some {ok : Char → Bool} (h : oneChar ok here found = some r) :
    ∃ c there, here.next? = some (c, there) ∧ ok c = true ∧ found there = some r := by
  unfold oneChar at h
  split at h
  · rename_i c there hnext
    split at h
    · rename_i hok
      exact ⟨c, there, hnext, hok, h⟩
    · cases h
  · cases h

theorem exists_matches_of_repeated {p : Pattern}
    (ih : ∀ {here : Place} {found : Place → Option α}, p.search here found = some r →
      ∃ there, Matches p here there ∧ found there = some r) {bound : Text}
    (h : repeated (search p) found bound here = some r) :
    ∃ there, Matches (star p) here there ∧ found there = some r := by
  -- the bound counts down by one for each repetition that is tried
  induction bound generalizing here with
  | nil => exact ⟨here, .starNil, h⟩
  | cons c bound ihb =>
    rcases Option.or_eq_some_iff.1 (by simpa [repeated] using h) with hstep | ⟨-, hhere⟩
    · rcases ih hstep with ⟨mid, hmid, hnext⟩
      split at hnext
      · rename_i hlt
        rcases ihb hnext with ⟨there, hthere, hfound⟩
        exact ⟨there, .starCons hmid hlt hthere, hfound⟩
      · cases hnext
    · exact ⟨here, .starNil, hhere⟩

/-- What a search finds is found behind a match. -/
theorem exists_matches_of_search {p : Pattern} (h : p.search here found = some r) :
    ∃ there, Matches p here there ∧ found there = some r := by
  induction p generalizing here found with
  | lit c =>
    rcases oneChar_eq_some h with ⟨d, there, hnext, hd, hfound⟩
    have hcd : d = c := by simpa using hd
    exact ⟨there, .lit (hcd ▸ hnext), hfound⟩
  | one k =>
    rcases oneChar_eq_some h with ⟨c, there, hnext, hk, hfound⟩
    exact ⟨there, .one hnext hk, hfound⟩
  | any =>
    rcases oneChar_eq_some h with ⟨c, there, hnext, -, hfound⟩
    exact ⟨there, .any hnext, hfound⟩
  | seq p q ihp ihq =>
    rcases ihp h with ⟨mid, hmid, hq⟩
    rcases ihq hq with ⟨there, hthere, hfound⟩
    exact ⟨there, .seq hmid hthere, hfound⟩
  | alt p q ihp ihq =>
    rcases Option.or_eq_some_iff.1 (by simpa [search] using h) with hp | ⟨-, hq⟩
    · rcases ihp hp with ⟨there, hthere, hfound⟩
      exact ⟨there, .altLeft hthere, hfound⟩
    · rcases ihq hq with ⟨there, hthere, hfound⟩
      exact ⟨there, .altRight hthere, hfound⟩
  | opt p ihp =>
    rcases Option.or_eq_some_iff.1 (by simpa [search] using h) with hp | ⟨-, hhere⟩
    · rcases ihp hp with ⟨there, hthere, hfound⟩
      exact ⟨there, .optSome hthere, hfound⟩
    · exact ⟨here, .optNone, hhere⟩
  | star p ihp =>
    -- what is found was repeated, whatever bounds the repetitions
    exact exists_matches_of_repeated ihp h
  | plus p ihp =>
    rcases ihp h with ⟨mid, hmid, hs⟩
    rcases exists_matches_of_repeated ihp hs with ⟨there, hthere, hfound⟩
    exact ⟨there, .plus hmid hthere, hfound⟩
  | wordEdge =>
    unfold search at h
    split at h
    · rename_i hedge
      exact ⟨here, .wordEdge hedge, h⟩
    · cases h

/-! ## What a match reads -/

/-- Whether a match of the pattern can hold a character. -/
def reads : Pattern → Char → Bool
  | lit d, c => c = d
  | one k, c => k.holds c
  | any, _ => true
  | seq p q, c => p.reads c || q.reads c
  | alt p q, c => p.reads c || q.reads c
  | opt p, c => p.reads c
  | star p, c => p.reads c
  | plus p, c => p.reads c
  | wordEdge, _ => false

/-- Whether every match of the pattern holds a character at least. -/
def consumes : Pattern → Bool
  | lit _ => true
  | one _ => true
  | any => true
  | seq p q => p.consumes || q.consumes
  | alt p q => p.consumes && q.consumes
  | opt _ => false
  | star _ => false
  | plus p => p.consumes
  | wordEdge => false

/-- Whether a match of the pattern can start with a character. -/
def starts : Pattern → Char → Bool
  | lit d, c => c = d
  | one k, c => k.holds c
  | any, _ => true
  | seq p q, c => p.starts c || (!p.consumes && q.starts c)
  | alt p q, c => p.starts c || q.starts c
  | opt p, c => p.starts c
  | star p, c => p.starts c
  | plus p, c => p.starts c
  | wordEdge, _ => false

/-- From `here` to `there`, a match of the pattern reads `front`. -/
structure Reading (p : Pattern) (here there : Place) (front : Text) : Prop where
  rest_eq : here.rest = front ++ there.rest
  past_eq : there = here.past front there.rest
  reads : ∀ c ∈ front, p.reads c = true
  ne_nil : p.consumes = true → front ≠ []
  starts : ∀ c ∈ front.head?, p.starts c = true

theorem Reading.nil {p : Pattern} (hp : p.consumes = false) : Reading p here here [] where
  rest_eq := rfl
  past_eq := here.past_nil.symm
  reads := by simp
  ne_nil := by simp [hp]
  starts := by simp

/-- A character that the pattern can read and start with. -/
theorem Reading.single {p : Pattern} {there : Place} {c : Char}
    (h : here.next? = some (c, there)) (hreads : p.reads c = true) (hstarts : p.starts c = true) :
    Reading p here there [c] where
  rest_eq := (Place.next?_eq_some h).1
  past_eq := (Place.next?_eq_some h).2
  reads := by simpa using hreads
  ne_nil := by simp
  starts := by simpa using hstarts

/-- A reading is one of any pattern that allows as much and asks for less. -/
theorem Reading.mono {p q : Pattern} {there : Place} {front : Text}
    (h : Reading p here there front) (hreads : ∀ c, p.reads c = true → q.reads c = true)
    (hconsumes : q.consumes = true → p.consumes = true)
    (hstarts : ∀ c, p.starts c = true → q.starts c = true) : Reading q here there front where
  rest_eq := h.rest_eq
  past_eq := h.past_eq
  reads := fun c hc => hreads c (h.reads c hc)
  ne_nil := fun hq => h.ne_nil (hconsumes hq)
  starts := fun c hc => hstarts c (h.starts c hc)

/-- Two readings one after the other. -/
theorem Reading.seq {p q : Pattern} {mid there : Place} {a b : Text} (hp : Reading p here mid a)
    (hq : Reading q mid there b) : Reading (seq p q) here there (a ++ b) where
  rest_eq := by rw [hp.rest_eq, hq.rest_eq, List.append_assoc]
  past_eq := by
    have h := hq.past_eq
    rw [hp.past_eq, Place.past_past] at h
    exact h
  reads := by
    intro c hc
    rcases List.mem_append.1 hc with ha | hb
    · simp [Pattern.reads, hp.reads c ha]
    · simp [Pattern.reads, hq.reads c hb]
  ne_nil := by
    intro hcons
    rcases Bool.or_eq_true_iff.1 hcons with h | h
    · simp [hp.ne_nil h]
    · simp [hq.ne_nil h]
  starts := by
    intro c hc
    cases a with
    | nil =>
      have hnot : p.consumes = false := Bool.eq_false_iff.2 fun hcons => hp.ne_nil hcons rfl
      simp [Pattern.starts, hnot, hq.starts c hc]
    | cons d a => simp [Pattern.starts, hp.starts c hc]

/-- A repetition starts like what is repeated. -/
theorem starts_of_starts_seq_star {p : Pattern} {c : Char}
    (h : (seq p (star p)).starts c = true) : p.starts c = true := by
  simp only [Pattern.starts, Bool.or_eq_true, Bool.and_eq_true] at h
  exact h.elim id And.right

/-- What a match of a pattern reads, the pattern can read. -/
theorem Matches.exists_reading {p : Pattern} {here there : Place} (h : Matches p here there) :
    ∃ front, Reading p here there front := by
  induction h with
  | lit h => exact ⟨_, Reading.single h (by simp [reads]) (by simp [starts])⟩
  | one h hk => exact ⟨_, Reading.single h (by simpa [reads] using hk) (by simpa [starts] using hk)⟩
  | any h => exact ⟨_, Reading.single h rfl rfl⟩
  | seq _ _ ihp ihq =>
    rcases ihp with ⟨a, ha⟩
    rcases ihq with ⟨b, hb⟩
    exact ⟨a ++ b, ha.seq hb⟩
  | altLeft _ ih =>
    rcases ih with ⟨a, ha⟩
    exact ⟨a, ha.mono (by simp_all [reads]) (by simp_all [consumes]) (by simp_all [starts])⟩
  | altRight _ ih =>
    rcases ih with ⟨a, ha⟩
    exact ⟨a, ha.mono (by simp_all [reads]) (by simp_all [consumes]) (by simp_all [starts])⟩
  | optSome _ ih =>
    rcases ih with ⟨a, ha⟩
    exact ⟨a, ha.mono (fun _ h => h) (by simp [consumes]) (fun _ h => h)⟩
  | optNone => exact ⟨[], Reading.nil rfl⟩
  | starNil => exact ⟨[], Reading.nil rfl⟩
  | starCons _ _ _ ihp ihs =>
    rcases ihp with ⟨a, ha⟩
    rcases ihs with ⟨b, hb⟩
    exact ⟨a ++ b, (ha.seq hb).mono (by simp [reads]) (by simp [consumes])
      (fun _ => starts_of_starts_seq_star)⟩
  | plus _ _ ihp ihs =>
    rcases ihp with ⟨a, ha⟩
    rcases ihs with ⟨b, hb⟩
    exact ⟨a ++ b, (ha.seq hb).mono (by simp [reads]) (by simp_all [consumes])
      (fun _ => starts_of_starts_seq_star)⟩
  | wordEdge _ => exact ⟨[], Reading.nil rfl⟩

/-- The number of bytes matched is that of a reading. -/
theorem exists_reading_of_matchLen? {p : Pattern} {n : Nat} (h : p.matchLen? here = some n) :
    ∃ there front, Matches p here there ∧ Reading p here there front ∧ byteLen front = n := by
  rcases exists_matches_of_search h with ⟨there, hmatches, hn⟩
  rcases hmatches.exists_reading with ⟨front, hreading⟩
  refine ⟨there, front, hmatches, hreading, ?_⟩
  have hoffset := congrArg Place.offset hreading.past_eq
  rw [Place.past_offset] at hoffset
  have : there.offset - here.offset = n := by simpa using hn
  omega

/-! ## The search finds what matches -/

/-- A match that gets on leaves less text ahead. -/
theorem Matches.rest_length_lt {p : Pattern} {here there : Place} (h : Matches p here there)
    (hlt : here.offset < there.offset) : there.rest.length < here.rest.length := by
  rcases h.exists_reading with ⟨front, hreading⟩
  have hfront : front ≠ [] := by
    intro hnil
    have hoffset := congrArg Place.offset hreading.past_eq
    rw [hnil, Place.past_offset, byteLen_nil] at hoffset
    omega
  have := List.length_pos_iff.2 hfront
  rw [hreading.rest_eq, List.length_append]
  omega

theorem isSome_repeated {p : Pattern} {there : Place}
    (ih : ∀ {here there : Place} {found : Place → Option α}, Matches p here there →
      (found there).isSome → (p.search here found).isSome) {bound : Text}
    (h : Matches (star p) here there) (hfound : (found there).isSome)
    (hbound : here.rest.length ≤ bound.length) :
    (repeated (search p) found bound here).isSome := by
  generalize hq : star p = q at h
  -- each repetition leaves less ahead, so the bound lasts for all of them
  induction h generalizing bound with
  | starNil => cases bound <;> simp [repeated, hfound]
  | @starCons p' here mid there hp hlt _ _ ihs =>
    obtain rfl : p = p' := by simpa using hq
    have hshorter := hp.rest_length_lt hlt
    cases bound with
    | nil =>
      rw [List.length_nil] at hbound
      omega
    | cons c bound =>
      have hlater : (repeated (search p) found bound mid).isSome := by
        apply ihs hfound _ hq
        rw [List.length_cons] at hbound
        omega
      have hstep : (p.search here fun there =>
          if here.offset < there.offset then repeated (search p) found bound there
          else none).isSome :=
        ih hp (by simpa [hlt] using hlater)
      simp [repeated, hstep]
  | _ => cases hq

/-- A search finds something if a match leads to something. -/
theorem isSome_search {p : Pattern} {there : Place} (h : Matches p here there)
    (hfound : (found there).isSome) : (p.search here found).isSome := by
  induction p generalizing here there found with
  | lit c =>
    cases h with
    | lit h => simpa [search, oneChar, h] using hfound
  | one k =>
    cases h with
    | one h hk => simpa [search, oneChar, h, hk] using hfound
  | any =>
    cases h with
    | any h => simpa [search, oneChar, h] using hfound
  | seq p q ihp ihq =>
    cases h with
    | seq hp hq => exact ihp hp (ihq hq hfound)
  | alt p q ihp ihq =>
    cases h with
    | altLeft hp => simp [search, ihp hp hfound]
    | altRight hq => simp [search, ihq hq hfound]
  | opt p ihp =>
    cases h with
    | optSome hp => simp [search, ihp hp hfound]
    | optNone => simp [search, hfound]
  | star p ihp => exact isSome_repeated ihp h hfound (Nat.le_refl _)
  | plus p ihp =>
    cases h with
    | plus hp hs => exact ihp hp (isSome_repeated ihp hs hfound (Nat.le_refl _))
  | wordEdge =>
    cases h with
    | wordEdge hedge => simpa [search, hedge] using hfound

end Pattern

end Strata
