import Mathlib
import Strata.Proofs.PathTable
import Strata.Proofs.Since

/-!
# The files that a ledger has seen

A ledger hears of a file in two ways: an event of the file is recorded, or work on it starts. It has
a table for each, and its summary gives the length of the longer one as the number of files. So the
number is right if all files of one table are in the other, and too low in all other cases.

* `Ledger.Tracks.perform`: what one deed preserves;
* `files_ofDeeds`: the number of files behind any deeds, and when it is right.
-/

namespace Strata

namespace Ledger

inductive Deed where
  /-- An event of a file is recorded. -/
  | record (file : String) (event : Event)
  /-- Work on a file starts. -/
  | enter (file : String) (number : Nat)
  | clear
deriving DecidableEq, Repr

namespace Deed

/-- The file that an event is recorded of. -/
def recorded? : Deed → Option (List PathStep)
  | record file _ => some (pathSteps file)
  | enter _ _ | clear => none

/-- The file that work is started on. -/
def entered? : Deed → Option (List PathStep)
  | enter file _ => some (pathSteps file)
  | record _ _ | clear => none

def isClear : Deed → Bool
  | clear => true
  | record _ _ | enter _ _ => false

end Deed

def perform (l : Ledger) : Deed → Ledger
  | .record file event => l.record file event
  | .enter file number => l.enter file number
  | .clear => .empty

/-- The ledger that some deeds make of an empty one. -/
def ofDeeds (deeds : List Deed) : Ledger := deeds.foldl perform .empty

/-- The files that deeds of one kind name since the ledger was last emptied. -/
def filesNamed (names : Deed → Option (List PathStep)) (deeds : List Deed) :
    Finset (List PathStep) :=
  (givenSince Deed.isClear (fun _ => names) deeds).toFinset

/-- The files that an event was recorded of since the ledger was last emptied. -/
def recordedFiles : List Deed → Finset (List PathStep) := filesNamed Deed.recorded?

/-- The files that work was started on since the ledger was last emptied. -/
def enteredFiles : List Deed → Finset (List PathStep) := filesNamed Deed.entered?

end Ledger

open Ledger

variable {names : Deed → Option (List PathStep)} {deeds : List Deed} {deed : Deed} {l : Ledger}

/-! ## One deed -/

/-- The two tables of a ledger have the files that it has heard of. -/
structure Ledger.Tracks (deeds : List Deed) (l : Ledger) : Prop where
  sorted_events : PathTable.IsSorted l.events
  sorted_entered : PathTable.IsSorted l.entered
  paths_events : PathTable.paths l.events = recordedFiles deeds
  paths_entered : PathTable.paths l.entered = enteredFiles deeds

/-- A deed that names no file adds none. -/
theorem filesNamed_concat_none (h : deed.isClear = false) (hnone : names deed = none) :
    filesNamed names (deeds ++ [deed]) = filesNamed names deeds := by
  rw [filesNamed, givenSince_concat_none h hnone, filesNamed]

theorem filesNamed_concat_some {steps : List PathStep} (h : deed.isClear = false)
    (hsome : names deed = some steps) :
    filesNamed names (deeds ++ [deed]) = insert steps (filesNamed names deeds) := by
  rw [filesNamed, givenSince_concat_some h hsome, List.toFinset_append, Finset.union_comm]
  rfl

theorem filesNamed_concat_clear : filesNamed names (deeds ++ [.clear]) = ∅ := by
  rw [filesNamed, givenSince_reset rfl, List.toFinset_nil]

/-- One more deed is tracked as well. -/
theorem Ledger.Tracks.perform (h : Tracks deeds l) (deed : Deed) :
    Tracks (deeds ++ [deed]) (l.perform deed) := by
  cases deed with
  | record file event =>
    exact {
      sorted_events := h.sorted_events.update
      sorted_entered := h.sorted_entered
      paths_events := by
        rw [recordedFiles, filesNamed_concat_some rfl rfl]
        exact h.sorted_events.paths_update.trans (by rw [h.paths_events]; rfl)
      paths_entered := h.paths_entered.trans (filesNamed_concat_none rfl rfl).symm }
  | enter file number =>
    exact {
      sorted_events := h.sorted_events
      sorted_entered := h.sorted_entered.update
      paths_events := h.paths_events.trans (filesNamed_concat_none rfl rfl).symm
      paths_entered := by
        rw [enteredFiles, filesNamed_concat_some rfl rfl]
        exact h.sorted_entered.paths_update.trans (by rw [h.paths_entered]; rfl) }
  | clear => exact ⟨.nil, .nil, filesNamed_concat_clear.symm, filesNamed_concat_clear.symm⟩

/-! ## Any deeds -/

/-- A ledger tracks all that was done with it since it was last emptied. -/
theorem tracks_ofDeeds (deeds : List Deed) : Tracks deeds (ofDeeds deeds) := by
  induction deeds using List.reverseRecOn with
  | nil => exact ⟨.nil, .nil, rfl, rfl⟩
  | append_singleton deeds deed ih =>
    rw [ofDeeds, List.foldl_concat]
    exact ih.perform deed

/-- Two sets have together as many elements as the greater one if one is in the other, and only
then. -/
theorem max_card_eq_card_union {α : Type} [DecidableEq α] {s t : Finset α} :
    max s.card t.card = (s ∪ t).card ↔ s ⊆ t ∨ t ⊆ s := by
  constructor
  · intro h
    rcases le_total s.card t.card with hle | hle
    · rw [max_eq_right hle] at h
      have hall : t = s ∪ t := Finset.eq_of_subset_of_card_le Finset.subset_union_right h.ge
      exact .inl (hall ▸ Finset.subset_union_left)
    · rw [max_eq_left hle] at h
      have hall : s = s ∪ t := Finset.eq_of_subset_of_card_le Finset.subset_union_left h.ge
      exact .inr (hall ▸ Finset.subset_union_right)
  · rintro (h | h)
    · rw [Finset.union_eq_right.2 h, max_eq_right (Finset.card_le_card h)]
    · rw [Finset.union_eq_left.2 h, max_eq_left (Finset.card_le_card h)]

/-- After any deeds, the number of files is that of the files with events or that of the files that
work was started on, whichever is greater. It is the number of all of them if and only if one of the
two kinds has all files of the other. -/
theorem files_ofDeeds (deeds : List Deed) :
    (ofDeeds deeds).summary.files = max (recordedFiles deeds).card (enteredFiles deeds).card ∧
      ((ofDeeds deeds).summary.files = (recordedFiles deeds ∪ enteredFiles deeds).card ↔
        recordedFiles deeds ⊆ enteredFiles deeds ∨ enteredFiles deeds ⊆ recordedFiles deeds) := by
  have h := tracks_ofDeeds deeds
  have hfiles : (ofDeeds deeds).summary.files =
      max (recordedFiles deeds).card (enteredFiles deeds).card := by
    rw [← h.paths_events, ← h.paths_entered, h.sorted_events.card_paths,
      h.sorted_entered.card_paths, max_comm]
    rfl
  exact ⟨hfiles, hfiles ▸ max_card_eq_card_union⟩

/-- An event of one file and work on another are two files, of which one is counted. -/
theorem files_of_one_recorded_one_entered :
    (ofDeeds [.record "a" (.error "E020" "m"), .enter "b" 1]).summary.files = 1 ∧
      (recordedFiles [.record "a" (.error "E020" "m"), .enter "b" 1] ∪
        enteredFiles [.record "a" (.error "E020" "m"), .enter "b" 1]).card = 2 := by
  have hfirst : pathSteps "a" = [.name "a"] := by cbv
  have hsecond : pathSteps "b" = [.name "b"] := by cbv
  have hrecorded : recordedFiles [.record "a" (.error "E020" "m"), .enter "b" 1] =
      {[.name "a"]} := by
    rw [← hfirst]
    rfl
  have hentered : enteredFiles [.record "a" (.error "E020" "m"), .enter "b" 1] = {[.name "b"]} := by
    rw [← hsecond]
    rfl
  refine ⟨rfl, ?_⟩
  rw [hrecorded, hentered]
  rfl

end Strata
