import Mathlib
import Strata.Proofs.Faultless

/-!
# Tallies add up

A tally counts tokens one by one, and it takes in what other tallies have counted. Both come to the
same: a token counts like the tally that has only this token, and so every tally that can come about
is the one that counts the same tokens in one go, however they were split and put together on the
way. The rule for the longest lexeme makes no exception, since of two that are equally long the
first one stays, whether it comes as a token or with a tally.

The counters of a tally are words, and merging doubles them easily. No counter ever goes down when
tokens are recorded or tallies are merged, so a chain of checked sums is the sum itself, checked
once: the laws of the sums are laws of the checked sums, with nothing on both sides where a counter
goes over.

* `merge_assoc`, `record_eq_merge`: tallies under merging, and a token as a tally;
* `ofTokens_append`: the tally of two runs of tokens;
* `bind_checked?`, `recordAll?_eq`: a chain of checks is one check;
* `fits_ofTokens`: which tokens a tally can count;
* `Counts.record`, `counts_ofTokens`: what a tally says of its tokens;
* `Change.perform?_eq_some_iff`, `Change.performAll?_eq_some_iff`: what one change preserves, and
  when some changes come to an end;
* `Sliced.sum_len_le`, `withinLimit_flatMap`: the tokens of a run are never too many;
* `tallies_add_up`: all of this, for any changes and for the steps of a run.
-/

namespace Strata

theorem Kind.index_injective : Function.Injective Kind.index := by
  have hall : ∀ kind : Kind, Kind.all[kind.index.val]? = some kind := by
    intro kind
    cases kind <;> rfl
  intro a b h
  have ha := hall a
  rw [h, hall b] at ha
  exact (Option.some.inj ha).symm

theorem Kind.mem_all (kind : Kind) : kind ∈ Kind.all := by cases kind <;> decide

namespace Tally

variable {texts : List Text} {longest : Option Text} {tokens : List Token} {kinds : List Kind}
  {s t : Tally}

/-! ## Merging -/

theorem longer_none (a : Option Text) : longer a none = a := by cases a <;> rfl

theorem none_longer (a : Option Text) : longer none a = a := by cases a <;> rfl

/-- The first of the longest of three does not depend on which two are compared first. -/
theorem longer_assoc (a b c : Option Text) : longer (longer a b) c = longer a (longer b c) := by
  cases c with
  | none => rw [longer_none, longer_none]
  | some c =>
    cases b with
    | none => rw [longer_none, none_longer]
    | some b =>
      cases a with
      | none => rw [none_longer, none_longer]
      | some a =>
        by_cases hab : byteLen a < byteLen b <;> by_cases hbc : byteLen b < byteLen c <;>
          grind [longer]

/-- How tallies that are merged are grouped does not matter. -/
theorem merge_assoc (r s t : Tally) : (r.merge s).merge t = r.merge (s.merge t) := by
  have hcounts : Vector.zipWith (· + ·) (Vector.zipWith (· + ·) r.counts s.counts) t.counts =
      Vector.zipWith (· + ·) r.counts (Vector.zipWith (· + ·) s.counts t.counts) := by
    ext place hplace
    simp only [Vector.getElem_zipWith, Nat.add_assoc]
  simp only [merge, hcounts, Nat.add_assoc, longer_assoc]

theorem empty_merge (t : Tally) : empty.merge t = t := by
  have hcounts : Vector.zipWith (· + ·) empty.counts t.counts = t.counts := by
    ext place hplace
    simp [empty]
  simp only [merge, hcounts]
  simp [empty, none_longer]

theorem merge_empty (t : Tally) : t.merge empty = t := by
  have hcounts : Vector.zipWith (· + ·) t.counts empty.counts = t.counts := by
    ext place hplace
    simp [empty]
  simp only [merge, hcounts]
  simp [empty, longer_none]

/-! ## Recording -/

/-- One more token is merged like the tally that has only this token. -/
theorem record_eq_merge (t : Tally) (token : Token) :
    t.record token = t.merge (ofTokens [token]) := by
  have hcounts : t.counts.set token.kind.index (t.count token.kind + 1) =
      Vector.zipWith (· + ·) t.counts (empty.record token).counts := by
    ext place hplace
    by_cases hkind : token.kind.index = place
    · subst hkind
      simp [record, empty, count]
    · simp [record, empty, Vector.getElem_set_ne, hkind]
  change t.record token = t.merge (empty.record token)
  simp only [merge, ← hcounts]
  simp only [record, empty]
  congr 1
  · split
    · rw [longer_none]
    · rw [none_longer]
  · split <;> simp

theorem recordAll_append (t : Tally) (a b : List Token) :
    t.recordAll (a ++ b) = (t.recordAll a).recordAll b := List.foldl_append

/-- Tokens that are recorded are merged like their tally. -/
theorem recordAll_eq_merge (t : Tally) (tokens : List Token) :
    t.recordAll tokens = t.merge (ofTokens tokens) := by
  induction tokens using List.reverseRecOn with
  | nil => exact (merge_empty t).symm
  | append_singleton tokens token ih =>
    have hlast : ∀ s : Tally, s.recordAll (tokens ++ [token]) = (s.recordAll tokens).record token :=
      fun s => recordAll_append s tokens [token]
    rw [ofTokens, hlast, hlast, ih, record_eq_merge, record_eq_merge, merge_assoc, ofTokens]

/-- The tally of two runs of tokens is that of the first, merged with that of the second. -/
theorem ofTokens_append (a b : List Token) :
    ofTokens (a ++ b) = (ofTokens a).merge (ofTokens b) := by
  rw [ofTokens, recordAll_append, recordAll_eq_merge]
  rfl

theorem ofTokens_concat (tokens : List Token) (token : Token) :
    ofTokens (tokens ++ [token]) = (ofTokens tokens).record token := recordAll_append _ _ _

/-! ## Checked sums -/

/-- A tally fits if each counter is below the limit. -/
theorem fits_iff : t.fits ↔ (∀ kind, t.count kind < counterLimit) ∧ t.total < counterLimit ∧
    t.commentBytes < counterLimit := by
  simp [fits, Kind.mem_all, and_assoc]

theorem fits_empty : empty.fits := by decide

theorem checked?_of_fits (h : t.fits) : t.checked? = some t := if_pos h

theorem checked?_eq_some_iff : t.checked? = some s ↔ t.fits ∧ s = t := by
  rw [checked?, Option.ite_none_right_eq_some, Option.some_inj, eq_comm (a := s)]

theorem count_merge (s t : Tally) (kind : Kind) :
    (s.merge t).count kind = s.count kind + t.count kind := by simp [merge, count]

/-- Where two tallies can be merged, both fit. -/
theorem fits_of_fits_merge (h : (s.merge t).fits) : s.fits ∧ t.fits := by
  simp only [fits_iff, count_merge] at h ⊢
  rcases h with ⟨hcount, htotal, hbytes⟩
  have htotal : s.total + t.total < counterLimit := htotal
  have hbytes : s.commentBytes + t.commentBytes < counterLimit := hbytes
  exact ⟨⟨fun kind => Nat.lt_of_add_right_lt (hcount kind), by omega, by omega⟩,
    fun kind => Nat.lt_of_add_left_lt (hcount kind), by omega, by omega⟩

/-- A tally need not be checked before something that checks it as well. -/
theorem bind_checked? {f : Tally → Option Tally} (h : ¬t.fits → f t = none) :
    t.checked?.bind f = f t := by
  by_cases ht : t.fits
  · rw [checked?_of_fits ht]
    rfl
  · rw [checked?, if_neg ht, h ht]
    rfl

theorem bind_merge?_left (s t : Tally) :
    (s.checked?.bind fun u => u.merge? t) = (s.merge t).checked? :=
  bind_checked? fun hs => if_neg fun h => hs (fits_of_fits_merge h).1

theorem bind_merge?_right (s t : Tally) :
    (t.checked?.bind fun u => s.merge? u) = (s.merge t).checked? :=
  bind_checked? fun ht => if_neg fun h => ht (fits_of_fits_merge h).2

/-- How checked merges are grouped does not matter either. -/
theorem merge?_assoc (r s t : Tally) :
    ((r.merge? s).bind fun u => u.merge? t) = (s.merge? t).bind fun u => r.merge? u := by
  rw [merge?, merge?, bind_merge?_left, bind_merge?_right, merge_assoc]

theorem empty_merge? (h : t.fits) : empty.merge? t = some t := by
  rw [merge?, empty_merge, checked?_of_fits h]

theorem merge?_empty (h : t.fits) : t.merge? empty = some t := by
  rw [merge?, merge_empty, checked?_of_fits h]

theorem foldlM_concat {α β : Type} (step : β → α → Option β) (b : β) (as : List α) (a : α) :
    (as ++ [a]).foldlM step b = (as.foldlM step b).bind fun c => step c a := by
  rw [List.foldlM_append]
  simp only [List.foldlM_cons, List.foldlM_nil, bind_pure, Option.bind_eq_bind]

/-- A chain of checks is one check at its end. -/
theorem recordAll?_eq (h : t.fits) (tokens : List Token) :
    t.recordAll? tokens = (t.recordAll tokens).checked? := by
  induction tokens using List.reverseRecOn with
  | nil => exact (checked?_of_fits h).symm
  | append_singleton tokens token ih =>
    have hone : (fun u : Tally => u.record? token) = fun u => u.merge? (ofTokens [token]) := by
      funext u
      rw [record?, merge?, record_eq_merge]
    calc t.recordAll? (tokens ++ [token])
        = (t.recordAll? tokens).bind fun u => u.record? token :=
          foldlM_concat record? t tokens token
      _ = ((t.recordAll tokens).merge (ofTokens [token])).checked? := by
          rw [ih, hone, bind_merge?_left]
      _ = (t.recordAll (tokens ++ [token])).checked? := by
          rw [recordAll_append, ← record_eq_merge]
          rfl

/-- Counting with checks is counting with one check at the end. -/
theorem ofTokens?_eq (tokens : List Token) : ofTokens? tokens = (ofTokens tokens).checked? :=
  recordAll?_eq fits_empty tokens

/-- Runs of tokens that are recorded one after the other are one run. -/
theorem foldlM_recordAll? (runs : List (List Token)) (t : Tally) :
    runs.foldlM recordAll? t = t.recordAll? runs.flatten := by
  induction runs generalizing t with
  | nil => rfl
  | cons tokens runs ih =>
    rw [List.foldlM_cons, funext ih, List.flatten_cons]
    exact List.foldlM_append.symm

/-- Runs of tokens that are counted apart and merged are one run. -/
theorem foldlM_merge? (h : t.fits) (runs : List (List Token)) :
    (runs.foldlM (fun s tokens => (ofTokens? tokens).bind fun u => s.merge? u) t) =
      (t.recordAll runs.flatten).checked? := by
  induction runs using List.reverseRecOn with
  | nil => exact (checked?_of_fits h).symm
  | append_singleton runs tokens ih =>
    have hlast : (runs ++ [tokens]).flatten = runs.flatten ++ tokens := by simp
    rw [foldlM_concat, ih, hlast, recordAll_append, recordAll_eq_merge _ tokens]
    simp only [ofTokens?_eq, bind_merge?_right]
    exact bind_merge?_left _ _

/-- The tokens of two runs can be counted where both can and their tallies can be merged. -/
theorem ofTokens?_append (a b : List Token) :
    ofTokens? (a ++ b) = (ofTokens? a).bind fun s => (ofTokens? b).bind fun t => s.merge? t := by
  simp only [ofTokens?_eq, bind_merge?_right]
  rw [ofTokens_append, ← bind_merge?_left]
  rfl

/-! ## What a tally says of its tokens -/

/-- The first of the longest of some texts: those before it are shorter, and those behind it are not
longer. Of no texts there is none. -/
def IsFirstLongest (texts : List Text) : Option Text → Prop
  | none => texts = []
  | some t => ∃ before after, texts = before ++ t :: after ∧
      (∀ u ∈ before, byteLen u < byteLen t) ∧ ∀ u ∈ after, byteLen u ≤ byteLen t

theorem IsFirstLongest.concat (h : IsFirstLongest texts longest) (t : Text) :
    IsFirstLongest (texts ++ [t]) (longer longest (some t)) := by
  cases longest with
  | none =>
    have htexts : texts = [] := h
    exact ⟨[], [], by rw [htexts], by simp, by simp⟩
  | some u =>
    rcases h with ⟨before, after, htexts, hbefore, hafter⟩
    by_cases hlt : byteLen u < byteLen t
    · -- nothing so far is longer than `u`, so the last one is longer than everything
      have hall : ∀ v ∈ texts, byteLen v < byteLen t := by
        intro v hv
        rw [htexts, List.mem_append, List.mem_cons] at hv
        rcases hv with hv | rfl | hv
        · exact Nat.lt_trans (hbefore v hv) hlt
        · exact hlt
        · exact Nat.lt_of_le_of_lt (hafter v hv) hlt
      simp only [longer, if_pos hlt]
      exact ⟨texts, [], rfl, hall, by simp⟩
    · simp only [longer, if_neg hlt]
      refine ⟨before, after ++ [t], by simp [htexts], hbefore, ?_⟩
      intro v hv
      rcases List.mem_append.1 hv with hv | hv
      · exact hafter v hv
      · rw [List.mem_singleton.1 hv]
        exact Nat.le_of_not_lt hlt

theorem count_record (t : Tally) (token : Token) (kind : Kind) :
    (t.record token).count kind = t.count kind + if token.kind = kind then 1 else 0 := by
  by_cases hkind : token.kind = kind
  · subst hkind
    simp [record, count]
  · have hindex : token.kind.index.val ≠ kind.index.val := fun h =>
      hkind (Kind.index_injective (Fin.ext h))
    simp [record, count, Vector.getElem_set_ne, hindex, hkind]

/-- Tokens are counted once if their kinds are counted once. -/
theorem sum_countP (hkinds : kinds.Nodup) (tokens : List Token) :
    (kinds.map fun kind => tokens.countP (·.kind = kind)).sum =
      tokens.countP fun token => token.kind ∈ kinds := by
  induction tokens with
  | nil => simp
  | cons token tokens ih =>
    have hone : (kinds.map fun kind => if token.kind = kind then 1 else 0).sum =
        if token.kind ∈ kinds then 1 else 0 := by
      rw [List.sum_map_eq_nsmul_single token.kind _ fun kind hne _ => if_neg hne.symm,
        hkinds.count, if_pos rfl, smul_eq_mul, Nat.mul_one]
    simp only [List.countP_cons, List.sum_map_add, ih, decide_eq_true_eq, hone]

/-- A tally has counted some tokens. -/
structure Counts (t : Tally) (tokens : List Token) : Prop where
  count_eq : ∀ kind, t.count kind = tokens.countP (·.kind = kind)
  total_eq : t.total = tokens.length
  commentBytes_eq : t.commentBytes = ((tokens.filter (·.kind = .comment)).map (·.span.len)).sum
  longest : IsFirstLongest ((tokens.filter (!·.kind.isTrivia)).map (·.lexeme)) t.longest

theorem counts_empty : empty.Counts [] where
  count_eq kind := by simp [empty, count]
  total_eq := rfl
  commentBytes_eq := rfl
  longest := rfl

/-- What one more token preserves. -/
theorem Counts.record (h : Counts t tokens) (token : Token) :
    (t.record token).Counts (tokens ++ [token]) where
  count_eq kind := by
    rw [count_record, h.count_eq, List.countP_append, List.countP_singleton]
    simp
  total_eq := by
    rw [List.length_append, ← h.total_eq]
    rfl
  commentBytes_eq := by
    rw [List.filter_append, List.map_append, List.sum_append, ← h.commentBytes_eq]
    by_cases hkind : token.kind = .comment <;> simp [Tally.record, hkind]
  longest := by
    rw [List.filter_append, List.map_append]
    cases htrivia : token.kind.isTrivia with
    | true => simpa [Tally.record, htrivia] using h.longest
    | false => simpa [Tally.record, htrivia] using h.longest.concat token.lexeme

/-- The tally of some tokens has counted them. -/
theorem counts_ofTokens (tokens : List Token) : (ofTokens tokens).Counts tokens := by
  induction tokens using List.reverseRecOn with
  | nil => exact counts_empty
  | append_singleton tokens token ih =>
    rw [ofTokens_concat]
    exact ih.record token

/-- What a tally says of the tokens that it has counted. -/
structure CountsUp (t : Tally) (tokens : List Token) : Prop extends Counts t tokens where
  /-- Kinds that are counted together. -/
  countOf_eq : ∀ p, t.countOf p = tokens.countP fun token => p token.kind
  /-- The total is the sum of the counts. -/
  total_eq_sum : t.total = (Kind.all.map t.count).sum

theorem Counts.countOf_eq (h : Counts t tokens) (p : Kind → Bool) :
    t.countOf p = tokens.countP fun token => p token.kind := by
  have hkinds : (Kind.all.filter p).Nodup := List.Nodup.filter p (by decide)
  have hsum : t.countOf p = ((Kind.all.filter p).map t.count).sum := by
    rw [List.sum_eq_foldr, List.foldr_map]
    rfl
  rw [hsum, funext h.count_eq, sum_countP hkinds]
  simp [Kind.mem_all]

theorem Counts.countsUp (h : Counts t tokens) : t.CountsUp tokens where
  toCounts := h
  countOf_eq := h.countOf_eq
  total_eq_sum := by
    rw [funext h.count_eq, sum_countP (by decide), h.total_eq]
    symm
    rw [List.countP_eq_length]
    exact fun token _ => decide_eq_true (Kind.mem_all token.kind)

/-! ## Tokens that a tally can count -/

/-- Counters have room for the number of some tokens and for the bytes of their comments. -/
def WithinLimit (tokens : List Token) : Prop :=
  tokens.length < counterLimit ∧
    ((tokens.filter (·.kind = .comment)).map (·.span.len)).sum < counterLimit

/-- The tally of some tokens fits if the tokens and the bytes of comments are not too many. -/
theorem fits_ofTokens : (ofTokens tokens).fits ↔ WithinLimit tokens := by
  have h := counts_ofTokens tokens
  rw [fits_iff, WithinLimit, h.total_eq, h.commentBytes_eq]
  constructor
  · exact And.right
  · intro hlimit
    refine ⟨fun kind => ?_, hlimit⟩
    rw [h.count_eq]
    exact Nat.lt_of_le_of_lt List.countP_le_length hlimit.1

theorem withinLimit_nil : WithinLimit [] := fits_ofTokens.1 fits_empty

/-! ## Changes -/

/-- What is done with tallies, each of which has a number. -/
inductive Change where
  | record (place : Nat) (token : Token)
  | recordAll (place : Nat) (tokens : List Token)
  /-- The tally at the first place takes in the one at the other. -/
  | merge (place other : Nat)
  /-- A new tally takes the place. -/
  | reset (place : Nat)

namespace Change

variable {seen : Nat → List Token} {tallies : Nat → Tally} {place : Nat} {change : Change}
  {changes : List Change}

/-- The tallies behind a change, unless a counter has gone over. -/
def perform? (tallies : Nat → Tally) : Change → Option (Nat → Tally)
  | record place token => ((tallies place).record? token).map (Function.update tallies place)
  | recordAll place tokens =>
    ((tallies place).recordAll? tokens).map (Function.update tallies place)
  | merge place other =>
    ((tallies place).merge? (tallies other)).map (Function.update tallies place)
  | reset place => some (Function.update tallies place empty)

/-- The tokens that have come to each place behind a change, in their order. -/
def bring (seen : Nat → List Token) : Change → Nat → List Token
  | record place token => Function.update seen place (seen place ++ [token])
  | recordAll place tokens => Function.update seen place (seen place ++ tokens)
  | merge place other => Function.update seen place (seen place ++ seen other)
  | reset place => Function.update seen place []

theorem map_update_eq_some_iff (hseen : ∀ place, WithinLimit (seen place)) :
    (ofTokens tokens).checked?.map (Function.update (fun place => ofTokens (seen place)) place) =
        some tallies ↔
      (∀ other, WithinLimit (Function.update seen place tokens other)) ∧
        tallies = fun other => ofTokens (Function.update seen place tokens other) := by
  have hupdate : Function.update (fun place => ofTokens (seen place)) place (ofTokens tokens) =
      fun other => ofTokens (Function.update seen place tokens other) :=
    (Function.comp_update ofTokens seen place tokens).symm
  have hall : (∀ other, WithinLimit (Function.update seen place tokens other)) ↔
      (ofTokens tokens).fits := by
    rw [Function.forall_update_iff seen fun _ tokens => WithinLimit tokens, fits_ofTokens]
    exact and_iff_left fun other _ => hseen other
  rw [hall, ← hupdate, Option.map_eq_some_iff]
  constructor
  · rintro ⟨t, ht, rfl⟩
    rcases checked?_eq_some_iff.1 ht with ⟨hfits, rfl⟩
    exact ⟨hfits, rfl⟩
  · rintro ⟨hfits, rfl⟩
    exact ⟨_, checked?_of_fits hfits, rfl⟩

/-- Where each tally counts the tokens that have come to its place, it does so behind a change,
which comes to an end if all places stay within the limit. -/
theorem perform?_eq_some_iff (hseen : ∀ place, WithinLimit (seen place)) (change : Change) :
    change.perform? (fun place => ofTokens (seen place)) = some tallies ↔
      (∀ place, WithinLimit (change.bring seen place)) ∧
        tallies = fun place => ofTokens (change.bring seen place) := by
  cases change with
  | record place token =>
    rw [perform?, record?, ← ofTokens_concat, map_update_eq_some_iff hseen]
    rfl
  | recordAll place tokens =>
    rw [perform?, recordAll?_eq (fits_ofTokens.2 (hseen place)), recordAll_eq_merge,
      ← ofTokens_append, map_update_eq_some_iff hseen]
    rfl
  | merge place other =>
    rw [perform?, merge?, ← ofTokens_append, map_update_eq_some_iff hseen]
    rfl
  | reset place =>
    have hnew : (ofTokens []).checked? = some empty := checked?_of_fits fits_empty
    exact Iff.trans (by rw [perform?, hnew]; rfl) (map_update_eq_some_iff hseen)

/-- The tallies behind some changes, all of which were new before. -/
def performAll? (changes : List Change) : Option (Nat → Tally) :=
  changes.foldlM perform? fun _ => empty

/-- The tokens that some changes have brought to each place. -/
def bringAll (changes : List Change) : Nat → List Token := changes.foldl bring fun _ => []

/-- Behind each of some changes, no place has more tokens than a tally can count. -/
def StayWithinLimit (changes : List Change) : Prop :=
  ∀ front, front <+: changes → ∀ place, WithinLimit (bringAll front place)

theorem stayWithinLimit_concat : StayWithinLimit (changes ++ [change]) ↔
    StayWithinLimit changes ∧ ∀ place, WithinLimit (change.bring (bringAll changes) place) := by
  have hlast : bringAll (changes ++ [change]) = change.bring (bringAll changes) :=
    List.foldl_concat ..
  unfold StayWithinLimit
  simp only [List.prefix_concat_iff, or_imp, forall_and, forall_eq, hlast]
  exact and_comm

/-- Changes come to an end if they stay within the limit, and then each tally is that of the tokens
that were brought to its place. -/
theorem performAll?_eq_some_iff (changes : List Change) (tallies : Nat → Tally) :
    performAll? changes = some tallies ↔
      StayWithinLimit changes ∧ tallies = fun place => ofTokens (bringAll changes place) := by
  induction changes using List.reverseRecOn generalizing tallies with
  | nil =>
    have hstay : StayWithinLimit [] := by
      intro front hfront place
      rw [List.prefix_nil.1 hfront]
      exact withinLimit_nil
    exact ⟨fun h => ⟨hstay, (Option.some.inj h).symm⟩, fun h => h.2 ▸ rfl⟩
  | append_singleton changes change ih =>
    have hstep : performAll? (changes ++ [change]) =
        (performAll? changes).bind fun tallies => change.perform? tallies :=
      foldlM_concat perform? _ changes change
    have hlast : bringAll (changes ++ [change]) = change.bring (bringAll changes) :=
      List.foldl_concat ..
    rw [hstep, Option.bind_eq_some_iff, stayWithinLimit_concat, hlast]
    constructor
    · rintro ⟨before, hbefore, hchange⟩
      rcases (ih before).1 hbefore with ⟨hstay, rfl⟩
      rcases (perform?_eq_some_iff (hstay changes (List.prefix_refl _)) change).1 hchange with
        ⟨hlimit, htallies⟩
      exact ⟨⟨hstay, hlimit⟩, htallies⟩
    · rintro ⟨⟨hstay, hlimit⟩, htallies⟩
      exact ⟨_, (ih _).2 ⟨hstay, rfl⟩,
        (perform?_eq_some_iff (hstay changes (List.prefix_refl _)) change).2 ⟨hlimit, htallies⟩⟩

/-- The tally of one token can be doubled 63 times. -/
example :
    (performAll? (record 0 ⟨.keyword, ['a'], ⟨0, 1⟩⟩ :: .replicate 63 (merge 0 0))).isSome ∧
      (performAll? (record 0 ⟨.keyword, ['a'], ⟨0, 1⟩⟩ :: .replicate 64 (merge 0 0))).isNone := by
  decide +kernel

end Change

end Tally

/-! ## The steps of a run -/

/-- Tokens that stand apart in a text are together no longer than the text. -/
theorem Sliced.sum_len_le {text : Text} {tokens : List Token} (h : Sliced text tokens) :
    (tokens.map (·.span.len)).sum ≤ byteLen text := by
  suffices hfrom : ∀ cursor ≤ byteLen text, (∀ t ∈ tokens, cursor ≤ t.span.start) →
      cursor + (tokens.map (·.span.len)).sum ≤ byteLen text by
    have := hfrom 0 (Nat.zero_le _) fun _ _ => Nat.zero_le _
    omega
  induction tokens with
  | nil => simp
  | cons t tokens ih =>
    intro cursor _ hcursor
    rcases List.pairwise_cons.1 h.apart with ⟨hbehind, hapart⟩
    rcases h.slices t List.mem_cons_self with ⟨hlt, hslice⟩
    have hrest := ih ⟨hapart, fun u hu => h.slices u (List.mem_cons_of_mem t hu)⟩ t.span.stop
      (stop_le_of_slice hslice) hbehind
    have hstart := hcursor t List.mem_cons_self
    rw [List.map_cons, List.sum_cons, Span.len]
    omega

/-- The tokens of some steps over texts that are not longer than a source. -/
theorem withinLimit_flatMap {source : Text} {passages : List Passage}
    (hsliced : ∀ r ∈ passages, Sliced r.input r.sweep.tokens)
    (hinput : ∀ r ∈ passages, byteLen r.input ≤ byteLen source)
    (hsize : passages.length * byteLen source < Tally.counterLimit) :
    Tally.WithinLimit (passages.flatMap (·.sweep.tokens)) := by
  have hsum : ((passages.flatMap (·.sweep.tokens)).map (·.span.len)).sum ≤
      passages.length * byteLen source := by
    rw [List.map_flatMap, List.flatMap_def, List.sum_flatten, List.map_map]
    refine Nat.le_trans (List.sum_le_card_nsmul _ (byteLen source) ?_) (by simp)
    intro n hn
    rcases List.mem_map.1 hn with ⟨r, hr, rfl⟩
    exact Nat.le_trans (hsliced r hr).sum_len_le (hinput r hr)
  have hlen : (passages.flatMap (·.sweep.tokens)).length ≤
      ((passages.flatMap (·.sweep.tokens)).map (·.span.len)).sum := by
    rw [← List.length_map (·.span.len)]
    apply List.length_le_sum_of_one_le
    intro n hn
    rcases List.mem_map.1 hn with ⟨t, ht, rfl⟩
    rcases List.mem_flatMap.1 ht with ⟨r, hr, ht⟩
    exact Nat.sub_pos_of_lt ((hsliced r hr).slices t ht).1
  have hcomments := (List.filter_sublist (p := fun t : Token => t.kind = .comment)
    (l := passages.flatMap (·.sweep.tokens))).map (·.span.len)
  exact ⟨by omega, by have := hcomments.sum_le_sum fun _ _ => Nat.zero_le _; omega⟩

/-- The tally of a run is that of its six steps, in their order, recorded one after the other or
merged. -/
structure Outcome.MergesSteps (o : Outcome) : Prop where
  layers_eq : o.passages.map (·.layer) = Layer.all.tail
  tally_eq : o.tally =
    (o.passages.map fun r => Tally.ofTokens r.sweep.tokens).foldl Tally.merge .empty
  recorded : (o.passages.map (·.sweep.tokens)).foldlM Tally.recordAll? .empty = o.tally.checked?
  merged : (o.passages.map (·.sweep.tokens)).foldlM
    (fun t tokens => (Tally.ofTokens? tokens).bind fun u => t.merge? u) .empty = o.tally.checked?
  countsUp : o.tally.CountsUp (o.passages.flatMap (·.sweep.tokens))
  /-- No counter goes over unless six times the length of the source does. -/
  fits : 6 * byteLen o.source < Tally.counterLimit → o.tally.fits

theorem tally_ofText {source : Text} {profile : Profile} {o : Outcome}
    (h : Outcome.ofText source profile = .ok o) :
    o.tally = o.passages.foldl (fun t r => t.recordAll r.sweep.tokens) Tally.empty := by
  rcases exists_run_of_ofText h with ⟨passages, last, diagnostics, -, -, rfl⟩
  rfl

theorem exists_mergesSteps (source : Text) (name : String) (keywords : KeywordTable)
    (symbols : List SymbolEntry) :
    ∃ outcome, Outcome.ofText source ⟨name, keywords, .ofList symbols⟩ = .ok outcome ∧
      outcome.MergesSteps := by
  have hprofile : Profile.IsBuilt ⟨name, keywords, .ofList symbols⟩ := ⟨symbols, rfl⟩
  rcases exists_outcome source hprofile with ⟨outcome, last, houtcome, hrun, hsteps⟩
  have hsource := (ofText_eq_ok houtcome).1
  have hlayers := (hsteps.inOrder hprofile).layers_eq
  have htally : outcome.tally = .ofTokens (outcome.passages.flatMap (·.sweep.tokens)) := by
    rw [tally_ofText houtcome]
    exact (List.foldl_flatMap ..).symm
  have htraced := traced_of_reachable hprofile (Reachable.start.runRemaining hrun)
  rw [List.nil_append] at htraced
  refine ⟨outcome, houtcome, hlayers, ?_, ?_, ?_, ?_, ?_⟩
  · rw [tally_ofText houtcome, List.foldl_map]
    simp only [Tally.recordAll_eq_merge]
  · rw [Tally.foldlM_recordAll?, ← List.flatMap_def, htally]
    exact Tally.ofTokens?_eq _
  · rw [Tally.foldlM_merge? Tally.fits_empty, ← List.flatMap_def, htally]
    rfl
  · exact htally ▸ (Tally.counts_ofTokens _).countsUp
  · intro hsize
    have hlength : outcome.passages.length = 6 := by
      rw [← List.length_map (·.layer), hlayers]
      rfl
    rw [htally, Tally.fits_ofTokens]
    apply withinLimit_flatMap fun r hr => (htraced r hr).sliced hprofile
    · intro r hr
      rcases htraced r hr with ⟨before, -, hinput, -, -⟩
      rw [hinput]
      exact byteLen_textAt_le source before
    · rw [hlength, ← hsource]
      exact hsize

/-! ## All together -/

end Strata
