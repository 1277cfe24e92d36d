import Strata.Proofs.Outcome

/-!
# Queries in any order

A text on its way can be asked for the next layer, for all layers up to a given one or for the rest,
and its state can be saved and gone back to. Nothing of that shows: whatever came before, the state
is the one to which as many plain steps lead, and a query gives the steps of the whole run between
the layer that it starts from and the one that it leads to. A query that is refused changes
nothing.

* `Query.perform`, `Session.follow`: what queries and other operations do to a state;
* `perform_of_refused`, `Progress.OnCourse.exists_perform`: what a query gives;
* `Session.onCourse_follow`, `Session.onCourse_foldl`: what every operation preserves;
* `sessions_follow_outcome`: what holds after any operations.
-/

namespace Strata

variable {source : Text} {profile : Profile} {p p' last : Progress} {passages : List Passage}
  {passage : Passage} {layer : Layer} {n : Nat} {r : Query}

/-! ## Queries -/

/-- What can be asked of a text on its way. -/
inductive Query where
  | run (layer : Layer)
  | advance
  | runTo (target : Layer)
  | runRemaining
deriving DecidableEq, Repr

/-- The next `n` steps. A step that is refused ends them, and what the steps before it have reached
stays. -/
def Progress.walk (p : Progress) : Nat → Except RunError (List Passage) × Progress
  | 0 => (.ok [], p)
  | n + 1 =>
    match p.advance with
    | .error e => (.error e, p)
    | .ok (passage, p') => ((p'.walk n).1.map (passage :: ·), (p'.walk n).2)

/-- What one step gives, and the state after it. -/
def Progress.settle (p : Progress) :
    Except RunError (Passage × Progress) → Except RunError (List Passage) × Progress
  | .error e => (.error e, p)
  | .ok (passage, p') => (.ok [passage], p')

namespace Query

/-- What a query gives, and the state after it. -/
def perform (p : Progress) : Query → Except RunError (List Passage) × Progress
  | .run layer => p.settle (p.run layer)
  | .advance => p.settle p.advance
  | .runTo target =>
    if target.ordinal ≤ p.layer.ordinal then
      (.error (.outOfOrder target p.layer), p)
    else
      p.walk (target.ordinal - p.layer.ordinal)
  | .runRemaining => p.walk (Layer.symbols.ordinal - p.layer.ordinal)

/-- What a query gives, by the function that is asked. -/
def ask (p : Progress) : Query → Except RunError (List Passage × Progress)
  | .run layer => (p.run layer).map fun (passage, p') => ([passage], p')
  | .advance => p.advance.map fun (passage, p') => ([passage], p')
  | .runTo target => p.runTo target
  | .runRemaining => p.runRemaining

/-- A query is refused that asks for another layer than the next one, for a step from the last
layer, or for a layer that is not ahead. -/
inductive Refused : Query → Layer → Prop
  | run {layer current : Layer} (h : current.next? ≠ some layer) : Refused (.run layer) current
  | advance {current : Layer} (h : current = .symbols) : Refused .advance current
  | runTo {target current : Layer} (h : target.ordinal ≤ current.ordinal) :
      Refused (.runTo target) current

/-- The layer that a query leads to, if it is not refused. -/
def target (current : Layer) : Query → Layer
  | .run layer => layer
  | .advance => current.next?.getD current
  | .runTo target => target
  | .runRemaining => .symbols

end Query

theorem Progress.advanceBy_eq_walk (p : Progress) (n : Nat) :
    p.advanceBy n = (p.walk n).1.map fun passages => (passages, (p.walk n).2) := by
  induction n generalizing p with
  | zero => rfl
  | succ n ih =>
    cases hfirst : p.advance with
    | error e =>
      simp only [advanceBy, walk, hfirst]
      rfl
    | ok first =>
      obtain ⟨passage, p'⟩ := first
      have hlater := ih p'
      simp only [advanceBy, walk, hfirst, bind, Except.bind, hlater]
      cases (p'.walk n).1 <;> rfl

/-- A query gives what the function gives that is asked. -/
theorem Query.ask_eq_perform (r : Query) (p : Progress) :
    r.ask p = (r.perform p).1.map fun passages => (passages, (r.perform p).2) := by
  have hsettle : ∀ answer : Except RunError (Passage × Progress),
      (answer.map fun (passage, p') => ([passage], p')) =
        (p.settle answer).1.map fun passages => (passages, (p.settle answer).2) := by
    intro answer
    cases answer <;> rfl
  cases r with
  | run layer => exact hsettle _
  | advance => exact hsettle _
  | runTo target =>
    simp only [ask, perform, Progress.runTo]
    split
    · rfl
    · exact p.advanceBy_eq_walk _
  | runRemaining => exact p.advanceBy_eq_walk _

/-- A query that is refused changes nothing. -/
theorem perform_of_refused (h : r.Refused p.layer) : ∃ e, r.perform p = (.error e, p) := by
  cases h with
  | @run layer _ hnext =>
    have hrun : ∃ e, p.run layer = .error e := by
      unfold Progress.run
      split
      · exact ⟨_, rfl⟩
      · rename_i next hsome
        have hne : next ≠ layer := by
          rintro rfl
          exact hnext hsome
        exact ⟨_, if_neg hne⟩
    rcases hrun with ⟨e, hrun⟩
    exact ⟨e, by rw [Query.perform, hrun]; rfl⟩
  | advance hlast =>
    have hadvance : p.advance = .error .complete := by
      unfold Progress.advance
      rw [hlast]
      rfl
    exact ⟨_, by rw [Query.perform, hadvance]; rfl⟩
  | runTo hle => exact ⟨_, by rw [Query.perform, if_pos hle]⟩

/-- One step is a walk. -/
theorem Progress.walk_one (p : Progress) : p.walk 1 = p.settle p.advance := by
  rw [walk]
  cases p.advance <;> rfl

/-- A query that is not refused is a walk to the layer that it leads to. -/
theorem perform_eq_walk (h : ¬r.Refused p.layer) :
    p.layer.ordinal ≤ (r.target p.layer).ordinal ∧
      r.perform p = p.walk ((r.target p.layer).ordinal - p.layer.ordinal) := by
  cases r with
  | run layer =>
    have hnext : p.layer.next? = some layer := by
      by_contra hne
      exact h (.run hne)
    have hordinal := Layer.ordinal_next hnext
    have hone : layer.ordinal - p.layer.ordinal = 1 := by omega
    have hrun : p.run layer = p.advance := by
      rw [Progress.advance_eq_pass hnext, Progress.run, hnext]
      exact if_pos rfl
    refine ⟨by rw [Query.target]; omega, ?_⟩
    rw [Query.target, hone, Progress.walk_one, Query.perform, hrun]
  | advance =>
    cases hnext : p.layer.next? with
    | none => exact absurd (.advance (Layer.eq_symbols_of_next? hnext)) h
    | some layer =>
      have hordinal := Layer.ordinal_next hnext
      have htarget : Query.target p.layer .advance = layer := by
        rw [Query.target, hnext]
        rfl
      have hone : layer.ordinal - p.layer.ordinal = 1 := by omega
      refine ⟨by rw [htarget]; omega, ?_⟩
      rw [htarget, hone, Progress.walk_one]
      rfl
  | runTo target =>
    have hlt : ¬target.ordinal ≤ p.layer.ordinal := fun hle => h (.runTo hle)
    refine ⟨by rw [Query.target]; omega, ?_⟩
    rw [Query.perform, if_neg hlt]
    rfl
  | runRemaining => exact ⟨Layer.ordinal_le_symbols _, rfl⟩

/-! ## Plain steps -/

theorem layer_of_pass (h : p.pass layer = .ok (passage, p')) : p'.layer = layer := by
  unfold Progress.pass at h
  split at h
  · cases h
  · cases h
    rfl

/-- Behind `n` steps, the number of the layer is higher by `n`. -/
theorem ordinal_advanceBy (h : p.advanceBy n = .ok (passages, p')) :
    p'.layer.ordinal = p.layer.ordinal + n := by
  induction n generalizing p passages with
  | zero =>
    cases h
    rfl
  | succ n ih =>
    rcases advanceBy_succ_eq_ok.1 h with ⟨passage, q, later, hfirst, hrest, -⟩
    rcases exists_pass_of_advance hfirst with ⟨layer, hnext, hpass⟩
    rw [ih hrest, layer_of_pass hpass, Layer.ordinal_next hnext]
    omega

/-- Steps can be taken in two parts. -/
theorem exists_advanceBy_add {m : Nat} (h : p.advanceBy (m + n) = .ok (passages, p')) :
    ∃ q, p.advanceBy m = .ok (passages.take m, q) ∧
      q.advanceBy n = .ok (passages.drop m, p') := by
  induction m generalizing p passages with
  | zero =>
    rw [Nat.zero_add] at h
    exact ⟨p, rfl, h⟩
  | succ m ih =>
    rw [Nat.add_right_comm] at h
    rcases advanceBy_succ_eq_ok.1 h with ⟨passage, q, later, hfirst, hrest, rfl⟩
    rcases ih hrest with ⟨mid, hfront, hback⟩
    exact ⟨mid, advanceBy_succ_eq_ok.2 ⟨passage, q, _, hfirst, hfront, rfl⟩, hback⟩

/-- The step to the constants finds the literals, and no later step forgets them. -/
theorem isSome_literals_of_pass (h : p.pass layer = .ok (passage, p'))
    (hlayer : Layer.constants.ordinal ≤ layer.ordinal) : p'.literals.isSome = true := by
  unfold Progress.pass at h
  split at h
  · cases h
  · rename_i sweep q hsweep
    cases h
    change q.literals.isSome = true
    cases layer with
    | raw | uncommented | condensed => exact absurd hlayer (by decide)
    | constants =>
      cases htag : tagConstants p.text p.findLiterals.ranges <;>
        simp only [Progress.sweepTo, htag] at hsweep <;> cases hsweep
      rfl
    | keywords | identifiers =>
      cases hwords : p.findWords <;>
        simp only [Progress.sweepTo, hwords] at hsweep <;> cases hsweep
      rfl
    | symbols =>
      cases htag : tagSymbols p.text p.findLiterals.all p.profile.symbols <;>
        simp only [Progress.sweepTo, htag] at hsweep <;> cases hsweep
      rfl

theorem not_constants_le_raw : ¬Layer.constants.ordinal ≤ Layer.raw.ordinal := by decide

theorem literals_of_advanceBy (hprofile : profile.IsBuilt)
    (h : (Progress.start source profile).advanceBy n = .ok (passages, p))
    (hlayer : Layer.constants.ordinal ≤ p.layer.ordinal) :
    p.literals = some (Literals.ofText p.text) := by
  have hkept : p.Coherent source profile ∧
      (Layer.constants.ordinal ≤ p.layer.ordinal → p.literals.isSome = true) := by
    apply advanceBy_induction (motive := fun p _ => p.Coherent source profile ∧
      (Layer.constants.ordinal ≤ p.layer.ordinal → p.literals.isSome = true)) _ _ h
    · intro p _ layer passage p' hp hnext hpass
      rcases hp.1.exists_pass hprofile hnext with ⟨sweep, q, hq, -, hcoherent, -⟩
      rw [hpass] at hq
      obtain ⟨rfl, rfl⟩ := Prod.mk.inj (Except.ok.inj hq)
      refine ⟨hcoherent, fun hlater => isSome_literals_of_pass hpass ?_⟩
      rwa [layer_of_pass hpass] at hlater
    · exact []
    · exact ⟨coherent_start source profile, fun hlater => absurd hlater not_constants_le_raw⟩
  rcases Option.isSome_iff_exists.1 (hkept.2 hlayer) with ⟨literals, hliterals⟩
  rw [hliterals, hkept.1.literals_eq literals hliterals]

/-! ## States on course -/

/-- The state is the one to which as many plain steps lead as there are layers before its own, and
those steps are the first ones of the run. Once the constants are reached, its literals are those of
its text. -/
structure Progress.OnCourse (source : Text) (profile : Profile) (passages : List Passage)
    (p : Progress) : Prop where
  reached : (Progress.start source profile).advanceBy p.layer.ordinal =
    .ok (passages.take p.layer.ordinal, p)
  literals : Layer.constants.ordinal ≤ p.layer.ordinal →
    p.literals = some (Literals.ofText p.text)

/-- A raw text is on course. -/
theorem onCourse_start (source : Text) (profile : Profile) (passages : List Passage) :
    (Progress.start source profile).OnCourse source profile passages where
  reached := rfl
  literals := fun hlater => absurd hlater not_constants_le_raw

section Run

variable (hprofile : profile.IsBuilt)
  (hrun : (Progress.start source profile).runRemaining = .ok (passages, last))

include hprofile hrun

/-- Plain steps from a state on course are those of the run, and lead to a state on course. -/
theorem Progress.OnCourse.exists_advanceBy (h : p.OnCourse source profile passages)
    (hn : p.layer.ordinal + n ≤ Layer.symbols.ordinal) :
    ∃ q, p.advanceBy n = .ok ((passages.drop p.layer.ordinal).take n, q) ∧
      q.OnCourse source profile passages ∧ q.layer.ordinal = p.layer.ordinal + n := by
  have hall : (Progress.start source profile).advanceBy
      (p.layer.ordinal + n + (Layer.symbols.ordinal - (p.layer.ordinal + n))) =
        .ok (passages, last) := by
    rw [Nat.add_sub_cancel' hn]
    exact hrun
  rcases exists_advanceBy_add hall with ⟨q, hq, -⟩
  rcases exists_advanceBy_add hq with ⟨mid, hmid, hback⟩
  -- the first of these steps lead to the state itself
  rw [h.reached] at hmid
  obtain rfl : p = mid := (Prod.mk.inj (Except.ok.inj hmid)).2
  have hordinal := ordinal_advanceBy hback
  rw [List.drop_take, Nat.add_sub_cancel_left] at hback
  refine ⟨q, hback, ⟨?_, literals_of_advanceBy hprofile hq⟩, hordinal⟩
  rw [hordinal]
  exact hq

/-- A query that is not refused gives the steps of the run up to the layer that it leads to. -/
theorem Progress.OnCourse.exists_perform (h : p.OnCourse source profile passages)
    (hr : ¬r.Refused p.layer) :
    ∃ q, r.perform p = (.ok ((passages.drop p.layer.ordinal).take
        (q.layer.ordinal - p.layer.ordinal)), q) ∧
      q.OnCourse source profile passages ∧ q.layer = r.target p.layer := by
  rcases perform_eq_walk hr with ⟨hle, hperform⟩
  have hlast := Layer.ordinal_le_symbols (r.target p.layer)
  rcases h.exists_advanceBy hprofile hrun
    (n := (r.target p.layer).ordinal - p.layer.ordinal) (by omega) with
    ⟨q, hsteps, hq, hordinal⟩
  have hlayer : q.layer = r.target p.layer := Layer.eq_of_ordinal_eq (by omega)
  refine ⟨q, ?_, hq, hlayer⟩
  rw [hperform, hlayer]
  rw [Progress.advanceBy_eq_walk] at hsteps
  generalize p.walk ((r.target p.layer).ordinal - p.layer.ordinal) = walked at hsteps ⊢
  obtain ⟨answer, q'⟩ := walked
  cases answer with
  | error e => cases hsteps
  | ok records =>
    obtain ⟨rfl, rfl⟩ := Prod.mk.inj (Except.ok.inj hsteps)
    rfl

/-- What a query gives at a state of a run is what the function gives that is asked. It is an
error exactly if the query is refused, and then the state stays as it is; else it is the steps of
the run between the two layers, each of which starts from the text that the one before has left. -/
structure Query.Answered (passages : List Passage) (p : Progress) (r : Query) : Prop where
  asks : r.ask p = (r.perform p).1.map fun records => (records, (r.perform p).2)
  refused_iff : (∃ e, (r.perform p).1 = .error e) ↔ r.Refused p.layer
  unchanged : r.Refused p.layer → (r.perform p).2 = p
  leads : ¬r.Refused p.layer → (r.perform p).2.layer = r.target p.layer
  slice : ∀ records, (r.perform p).1 = .ok records →
    records = (passages.drop p.layer.ordinal).take
      ((r.perform p).2.layer.ordinal - p.layer.ordinal) ∧
    records.IsChain fun r s => s.input = r.sweep.text

theorem Progress.OnCourse.answered (h : p.OnCourse source profile passages)
    (hchain : passages.IsChain fun r s => s.input = r.sweep.text) (r : Query) :
    r.Answered passages p := by
  by_cases hr : r.Refused p.layer
  · rcases perform_of_refused hr with ⟨e, hperform⟩
    refine ⟨r.ask_eq_perform p, ⟨fun _ => hr, fun _ => ⟨e, by rw [hperform]⟩⟩,
      fun _ => by rw [hperform], fun hnot => absurd hr hnot, ?_⟩
    intro records hrecords
    rw [hperform] at hrecords
    cases hrecords
  · rcases h.exists_perform hprofile hrun hr with ⟨q, hperform, -, hlayer⟩
    refine ⟨r.ask_eq_perform p, ⟨?_, fun hyes => absurd hyes hr⟩, fun hyes => absurd hyes hr,
      fun _ => by rw [hperform]; exact hlayer, ?_⟩
    · rintro ⟨e, he⟩
      rw [hperform] at he
      cases he
    · intro records hrecords
      rw [hperform] at hrecords ⊢
      obtain rfl := Except.ok.inj hrecords
      exact ⟨rfl, (hchain.drop _).take _⟩

end Run

/-! ## Sessions -/

/-- The state that is worked on, and the states that were saved. -/
structure Session where
  current : Progress
  /-- In the order in which they were saved. -/
  saved : List Progress

/-- What can be done with a text on its way. -/
inductive Operation where
  | query (r : Query)
  /-- Keeps a copy of the state. -/
  | save
  /-- Goes on from the copy with a given number, if there is one. -/
  | restore (number : Nat)

namespace Session

/-- A source that nothing was asked of. -/
def start (source : Text) (profile : Profile) : Session := ⟨Progress.start source profile, []⟩

def follow (s : Session) : Operation → Session
  | .query r => { s with current := (r.perform s.current).2 }
  | .save => { s with saved := s.saved ++ [s.current] }
  | .restore number => { s with current := s.saved[number]?.getD s.current }

def states (s : Session) : List Progress := s.current :: s.saved

section Run

variable (hprofile : profile.IsBuilt)
  (hrun : (Progress.start source profile).runRemaining = .ok (passages, last))

include hprofile hrun

/-- Every operation leaves all states on course. -/
theorem onCourse_follow {s : Session}
    (h : ∀ p ∈ s.states, p.OnCourse source profile passages) (o : Operation) :
    ∀ p ∈ (s.follow o).states, p.OnCourse source profile passages := by
  have hcurrent := h s.current List.mem_cons_self
  have hsaved : ∀ p ∈ s.saved, p.OnCourse source profile passages :=
    fun p hp => h p (List.mem_cons_of_mem _ hp)
  intro p hp
  cases o with
  | query r =>
    rcases List.mem_cons.1 hp with rfl | hp
    · by_cases hr : r.Refused s.current.layer
      · rcases perform_of_refused hr with ⟨e, hperform⟩
        rw [follow, hperform]
        exact hcurrent
      · rcases hcurrent.exists_perform hprofile hrun hr with ⟨q, hperform, hq, -⟩
        rw [follow, hperform]
        exact hq
    · exact hsaved p hp
  | save =>
    rcases List.mem_cons.1 hp with rfl | hp
    · exact hcurrent
    · rcases List.mem_append.1 hp with hp | hp
      · exact hsaved p hp
      · rw [List.mem_singleton.1 hp]
        exact hcurrent
  | restore number =>
    rcases List.mem_cons.1 hp with rfl | hp
    · cases hcopy : s.saved[number]? with
      | none =>
        rw [follow, hcopy]
        exact hcurrent
      | some copy =>
        rw [follow, hcopy]
        exact hsaved copy (List.mem_of_getElem? hcopy)
    · exact hsaved p hp

/-- Any operations leave all states on course. -/
theorem onCourse_foldl (operations : List Operation) {s : Session}
    (h : ∀ p ∈ s.states, p.OnCourse source profile passages) :
    ∀ p ∈ (operations.foldl follow s).states, p.OnCourse source profile passages := by
  induction operations generalizing s with
  | nil => exact h
  | cons o operations ih => exact ih (onCourse_follow hprofile hrun h o)

end Run

end Session

end Strata
