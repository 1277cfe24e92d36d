import Strata.Proofs.Noted
import Strata.Proofs.PathTable

/-!
# What a ledger collects

A journal turns from file to file. Each error or warning that it is told to note while it is at work
on a file is a report about this file, and the ledger has for each file the events of the reports
about it since it was last emptied: the first of them, as many as fit, and one warning if there were
more. Which file the journal is at work on does not change when the ledger is emptied, and what the
logger lets through does not matter.

* `addEvent_kept`: one more event of a file;
* `Ledger.Gathers.record`: one more report;
* `Journal.Follows.apply`: what one entry of the journal preserves;
* `collects_applyAll`: what the ledger has collected behind any entries.
-/

namespace Strata

open Ledger

variable {reports : List Report} {r : Report} {steps : List PathStep} {events : List Event}
  {event : Event} {l : Ledger} {first : Option (String × Nat)} {entries : List Entry}
  {entry : Entry} {notice : Notice} {j : Journal}

/-! ## Events of a file -/

/-- What is kept of the events of a file: the first ones, and one warning if these are not all. -/
def Ledger.kept (events : List Event) : List Event :=
  events.take Limits.events ++ if Limits.events < events.length then [overflow] else []

theorem kept_nil : kept [] = [] := rfl

/-- As long as they fit, all events are kept. -/
theorem kept_of_le (h : events.length ≤ Limits.events) : kept events = events := by
  rw [kept, List.take_of_length_le h, if_neg (Nat.not_lt.2 h), List.append_nil]

/-- Of more events than fit, those that came first are kept, and one event that says so. -/
theorem kept_of_lt (h : Limits.events < events.length) :
    kept events = events.take Limits.events ++ [overflow] := by
  rw [kept, if_pos h]

/-- One more event on top of those kept gives what is kept of all. -/
theorem addEvent_kept : addEvent (kept events) event = kept (events ++ [event]) := by
  have hmore : (events ++ [event]).length = events.length + 1 := List.length_append
  rw [addEvent]
  rcases Nat.lt_trichotomy events.length Limits.events with hlt | heq | hgt
  · rw [kept_of_le (Nat.le_of_lt hlt), if_pos hlt, kept_of_le (hmore ▸ hlt)]
  · -- the limit is reached: the event is the first one that does not fit
    have hbeyond : Limits.events < (events ++ [event]).length := by omega
    rw [kept_of_le (Nat.le_of_eq heq), if_neg (Nat.not_lt.2 (Nat.le_of_eq heq.symm)), if_pos heq,
      kept_of_lt hbeyond, List.take_append_of_le_length (Nat.le_of_eq heq.symm),
      List.take_of_length_le (Nat.le_of_eq heq)]
  · have hbeyond : Limits.events < (events ++ [event]).length := by omega
    have hfull : (kept events).length = Limits.events + 1 := by
      rw [kept_of_lt hgt, List.length_append, List.length_take, List.length_singleton]
      omega
    rw [if_neg (by omega), if_neg (by omega), kept_of_lt hgt, kept_of_lt hbeyond,
      List.take_append_of_le_length (Nat.le_of_lt hgt)]

/-! ## Reports -/

def reportedFiles (reports : List Report) : Finset (List PathStep) :=
  (reports.map fun r => pathSteps r.file).toFinset

/-- The reports about a file, in their order. -/
def reportsAbout (steps : List PathStep) (reports : List Report) : List Report :=
  reports.filter fun r => pathSteps r.file = steps

/-- What is kept of the events of a file that reports are about. -/
def keptAbout (steps : List PathStep) (reports : List Report) : List Event :=
  kept ((reportsAbout steps reports).map Report.event)

theorem keptAbout_eq_nil (h : steps ∉ reportedFiles reports) : keptAbout steps reports = [] := by
  have hnone : reportsAbout steps reports = [] := by
    rw [reportsAbout, List.filter_eq_nil_iff]
    intro r hr hsame
    exact h (List.mem_toFinset.2 (List.mem_map.2 ⟨r, hr, of_decide_eq_true hsame⟩))
  rw [keptAbout, hnone, List.map_nil, kept_nil]

/-- One more report changes what is kept of the events of its file. -/
theorem keptAbout_concat : keptAbout steps (reports ++ [r]) =
    if pathSteps r.file = steps then addEvent (keptAbout steps reports) r.event
    else keptAbout steps reports := by
  unfold keptAbout reportsAbout
  rw [List.filter_append]
  by_cases h : pathSteps r.file = steps
  · rw [if_pos h, addEvent_kept, List.filter_cons_of_pos (by simpa using h), List.filter_nil,
      List.map_append]
    rfl
  · rw [if_neg h, List.filter_cons_of_neg (by simpa using h), List.filter_nil, List.append_nil]

/-- The events of a ledger are those of some reports. -/
structure Ledger.Gathers (reports : List Report) (l : Ledger) : Prop where
  sorted : PathTable.IsSorted l.events
  valueAt?_eq : ∀ steps, PathTable.valueAt? l.events steps =
    if steps ∈ reportedFiles reports then some (keptAbout steps reports) else none

theorem gathers_empty : Gathers [] .empty := ⟨.nil, fun _ => rfl⟩

namespace Ledger.Gathers

/-- The table of a ledger holds what is kept of each file. -/
theorem getD_valueAt? (h : Gathers reports l) :
    (PathTable.valueAt? l.events steps).getD [] = keptAbout steps reports := by
  rw [h.valueAt?_eq]
  by_cases hmem : steps ∈ reportedFiles reports
  · rw [if_pos hmem, Option.getD_some]
  · rw [if_neg hmem, Option.getD_none, keptAbout_eq_nil hmem]

/-- One more report is gathered as well. -/
theorem record (h : Gathers reports l) (r : Report) :
    Gathers (reports ++ [r]) (l.record r.file r.event) := by
  refine ⟨h.sorted.update, ?_⟩
  intro steps
  have hmem : steps ∈ reportedFiles (reports ++ [r]) ↔
      steps ∈ reportedFiles reports ∨ pathSteps r.file = steps := by
    simp [reportedFiles, or_comm, eq_comm]
  refine h.sorted.valueAt?_update.trans ?_
  rw [h.getD_valueAt?, h.valueAt?_eq, keptAbout_concat]
  by_cases hsame : pathSteps r.file = steps
  · rw [if_pos hsame, if_pos hsame, if_pos (hmem.2 (.inr hsame))]
  · rw [if_neg hsame, if_neg hsame]
    simp only [hmem, hsame, or_false]

/-- A ledger has an entry for each file that was reported about, and for no other. -/
theorem paths (h : Gathers reports l) : PathTable.paths l.events = reportedFiles reports := by
  ext steps
  rw [PathTable.mem_paths, h.valueAt?_eq]
  by_cases hmem : steps ∈ reportedFiles reports <;> simp [hmem]

/-- What is counted over all events is the sum over the files that reports are about. -/
theorem sum_countP (h : Gathers reports l) (q : Event → Bool) :
    (l.events.map fun (_, events) => events.countP q).foldr (· + ·) 0 =
      ∑ steps ∈ reportedFiles reports, (keptAbout steps reports).countP q := by
  rw [h.sorted.sum_paths, h.paths]
  apply Finset.sum_congr rfl
  intro steps hsteps
  rw [h.valueAt?_eq, if_pos hsteps, Option.elim_some]

/-- The entries that have an event of some kind are those of the files that have one. -/
theorem card_countP (h : Gathers reports l) (q : Event → Bool) :
    (l.events.map fun (_, events) => events.countP q).countP (0 < ·) =
      ((reportedFiles reports).filter fun steps =>
        ∃ e ∈ keptAbout steps reports, q e = true).card := by
  rw [List.countP_map]
  refine (h.sorted.countP_paths fun events => decide (0 < events.countP q)).trans ?_
  rw [h.paths]
  congr 1
  apply Finset.filter_congr
  intro steps hsteps
  rw [h.valueAt?_eq, if_pos hsteps, Option.any_some, decide_eq_true_eq, List.countP_pos_iff]

end Ledger.Gathers

/-! ## Entries -/

namespace Entry

def isClear : Entry → Bool
  | clear => true
  | _ => false

/-- What the journal is at work on behind an entry that changes it. -/
def turnsTo? : Entry → Option (Option (String × Nat))
  | enter file number => some (some (file, number))
  | leave => some none
  | _ => none

end Entry

/-- What the journal is at work on behind some entries. -/
def fileBehind (first : Option (String × Nat)) (entries : List Entry) : Option (String × Nat) :=
  (lastTold Entry.turnsTo? entries).getD first

/-- A notice as a report about the file that is worked on. -/
def Notice.report? (notice : Notice) (current : Option (String × Nat)) : Option Report :=
  if notice.level = .error ∨ notice.level = .warning then
    current.map fun (file, number) => ⟨file, number, notice⟩
  else none

/-- The report of an entry that comes behind some entries. -/
def Entry.report? (first : Option (String × Nat)) (before : List Entry) : Entry → Option Report
  | note notice => notice.report? (fileBehind first before)
  | _ => none

/-- The reports since the ledger was last emptied. -/
def reportsIn (first : Option (String × Nat)) (entries : List Entry) : List Report :=
  givenSince Entry.isClear (Entry.report? first) entries

/-- A journal is where some entries take it. What its logger has is left open. -/
structure Journal.Follows (first : Option (String × Nat)) (entries : List Entry) (j : Journal) :
    Prop where
  namesFile : j.namesFile = true
  current : j.current = fileBehind first entries
  gathers : j.ledger.Gathers (reportsIn first entries)

theorem isError_or_isWarning_eventOf :
    ((j.eventOf notice).isError || (j.eventOf notice).isWarning) = true ↔
      notice.level = .error ∨ notice.level = .warning := by
  rw [Bool.or_eq_true, Event.isError, Event.isWarning, decide_eq_true_iff, decide_eq_true_iff]
  rfl

/-- A journal that names its file makes of a notice the event of the report. -/
theorem eventOf_eq_event {file : String} {number : Nat} (hnames : j.namesFile = true)
    (hcurrent : j.current = some (file, number)) :
    j.eventOf notice = Report.event ⟨file, number, notice⟩ := by
  rw [Journal.eventOf, Journal.fileFacts, hnames, hcurrent]
  rfl

/-- A notice is recorded if it makes a report. -/
theorem recorded_eventOf (hnames : j.namesFile = true) (notice : Notice) :
    j.recorded (j.eventOf notice) =
      (notice.report? j.current).elim j.ledger fun r => j.ledger.record r.file r.event := by
  by_cases hlevel : notice.level = .error ∨ notice.level = .warning
  · rw [Notice.report?, if_pos hlevel, Journal.recorded]
    cases hcurrent : j.current with
    | none => rfl
    | some context =>
      rw [Option.map_some, Option.elim_some, eventOf_eq_event hnames hcurrent]
      exact if_pos (isError_or_isWarning_eventOf.2 hlevel)
  · rw [Notice.report?, if_neg hlevel, Journal.recorded]
    cases hcurrent : j.current with
    | none => rfl
    | some context => exact if_neg fun h => hlevel (isError_or_isWarning_eventOf.1 h)

/-- The logger does not matter. -/
theorem Journal.Follows.withLogger (h : Follows first entries j) (logger : Logger) :
    Follows first entries { j with logger } :=
  ⟨h.namesFile, h.current, h.gathers⟩

/-- What one entry preserves. -/
theorem Journal.Follows.apply (h : Follows first entries j) (entry : Entry) :
    Follows first (entries ++ [entry]) (j.apply entry) := by
  have hbehind : fileBehind first (entries ++ [entry]) =
      entry.turnsTo?.getD (fileBehind first entries) := lastTold_concat_getD
  cases entry with
  | enter file number =>
    have hreports : reportsIn first (entries ++ [.enter file number]) = reportsIn first entries :=
      givenSince_concat_none rfl rfl
    -- only the other table of the ledger has changed
    exact ⟨h.namesFile, hbehind.symm, hreports ▸ ⟨h.gathers.sorted, h.gathers.valueAt?_eq⟩⟩
  | leave =>
    have hreports : reportsIn first (entries ++ [.leave]) = reportsIn first entries :=
      givenSince_concat_none rfl rfl
    exact ⟨h.namesFile, hbehind.symm, hreports ▸ h.gathers⟩
  | clear =>
    have hreports : reportsIn first (entries ++ [.clear]) = [] := givenSince_reset rfl
    exact ⟨h.namesFile, h.current.trans hbehind.symm, hreports ▸ gathers_empty⟩
  | note notice =>
    refine ⟨h.namesFile, h.current.trans hbehind.symm, ?_⟩
    change Gathers _ (j.recorded (j.eventOf notice))
    rw [recorded_eventOf h.namesFile, h.current]
    cases hreport : notice.report? (fileBehind first entries) with
    | none =>
      have hreports : reportsIn first (entries ++ [.note notice]) = reportsIn first entries :=
        givenSince_concat_none rfl hreport
      exact hreports ▸ h.gathers
    | some r =>
      have hreports :
          reportsIn first (entries ++ [.note notice]) = reportsIn first entries ++ [r] :=
        givenSince_concat_some rfl hreport
      exact hreports ▸ h.gathers.record r
  | plainError code message =>
    have hreports : reportsIn first (entries ++ [.plainError code message]) =
        reportsIn first entries := givenSince_concat_none rfl rfl
    have hsame : Follows first (entries ++ [.plainError code message]) j :=
      ⟨h.namesFile, h.current.trans hbehind.symm, hreports ▸ h.gathers⟩
    -- such an error passes the ledger by
    exact hsame.withLogger (j.logger.offer (.error code message))

/-! ## Any entries -/

/-- A journal follows its entries, whatever they are. -/
theorem follows_applyAll (logger : Logger) (first : Option (String × Nat)) (entries : List Entry) :
    ((⟨logger, .empty, first, true⟩ : Journal).applyAll entries).Follows first entries := by
  induction entries using List.reverseRecOn with
  | nil => exact ⟨rfl, rfl, gathers_empty⟩
  | append_singleton entries entry ih =>
    rw [Journal.applyAll, List.foldl_concat]
    exact ih.apply entry

/-- What a ledger tells of some reports. -/
structure Ledger.Collects (reports : List Report) (l : Ledger) : Prop where
  eventsOf : ∀ path,
    l.eventsOf path = kept ((reportsAbout (pathSteps path) reports).map Report.event)
  errors : l.summary.errors =
    ∑ steps ∈ reportedFiles reports, (keptAbout steps reports).countP (·.isError)
  warnings : l.summary.warnings =
    ∑ steps ∈ reportedFiles reports, (keptAbout steps reports).countP (·.isWarning)
  filesWithErrors : l.summary.filesWithErrors =
    ((reportedFiles reports).filter fun steps =>
      ∃ e ∈ keptAbout steps reports, e.isError = true).card
  filesWithWarnings : l.summary.filesWithWarnings =
    ((reportedFiles reports).filter fun steps =>
      ∃ e ∈ keptAbout steps reports, e.isWarning = true).card

theorem Ledger.Gathers.collects (h : Gathers reports l) : Collects reports l where
  eventsOf path := by
    rw [Ledger.eventsOf, PathTable.get?_eq_valueAt?]
    exact h.getD_valueAt?
  errors := h.sum_countP _
  warnings := h.sum_countP _
  filesWithErrors := h.card_countP _
  filesWithWarnings := h.card_countP _

/-- Behind any entries, the ledger of a journal that names its file has the events of the reports
since it was last emptied, and each of these events has what its report is to be logged with. -/
theorem collects_applyAll (logger : Logger) (first : Option (String × Nat)) (entries : List Entry) :
    ((⟨logger, .empty, first, true⟩ : Journal).applyAll entries).ledger.Collects
        (reportsIn first entries) ∧
      ∀ r ∈ reportsIn first entries, r.event.Logs r :=
  ⟨(follows_applyAll logger first entries).gathers.collects, fun r _ => r.logs_event⟩

end Strata
