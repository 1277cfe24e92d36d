import Mathlib.Data.List.DropRight
import Strata.Log.Journal
import Strata.Proofs.Since

/-!
# The newest events

A logger is asked to log events, to take another threshold, and to forget what it has. Its log holds
the newest of the events that it has let through since it last forgot, as many as fit, and what is
looked up in the log is looked up among these. Which events are let through depends on the threshold
at that time only: neither a log that is full nor one that was cleared changes it.

* `events_push`: one more event, at the cost of the oldest one;
* `LetsThrough.serve`: what one request preserves;
* `holds_serveAll`: what the log holds after any requests.
-/

namespace Strata

inductive LogRequest where
  | error (code message : String)
  | success (code message : String)
  | info (message : String)
  | warning (message : String)
  | debug (message : String)
  | event (event : Event)
  | setThreshold (threshold : Level)
  /-- The log is emptied. -/
  | clear
deriving DecidableEq, Repr

namespace LogRequest

def event? : LogRequest → Option Event
  | error code message => some (.error code message)
  | success code message => some (.success code message)
  | info message => some (.info message)
  | warning message => some (.warning none message)
  | debug message => some (.debug message)
  | event e => some e
  | setThreshold _ | clear => none

def threshold? : LogRequest → Option Level
  | setThreshold threshold => some threshold
  | _ => none

def isClear : LogRequest → Bool
  | clear => true
  | _ => false

end LogRequest

def Logger.serve (l : Logger) : LogRequest → Logger
  | .error code message => l.offer (.error code message)
  | .success code message => l.offer (.success code message)
  | .info message => l.offer (.info message)
  | .warning message => l.offer (.warning none message)
  | .debug message => l.offer (.debug message)
  | .event e => l.offer e
  | .setThreshold threshold => { l with threshold }
  | .clear => { l with log := .empty }

def Logger.serveAll (l : Logger) (requests : List LogRequest) : Logger := requests.foldl serve l

variable {log : MemoryLog} {event : Event} {events : List Event} {first : Level}
  {requests : List LogRequest} {request : LogRequest} {l : Logger}

/-! ## What is let through -/

/-- The threshold behind some requests: the one that was set last. -/
def thresholdBehind (first : Level) (requests : List LogRequest) : Level :=
  (lastTold LogRequest.threshold? requests).getD first

/-- The event of a request, if it matters at least as much as the threshold behind the requests
before it asks for. What matters more than what is the order of `Level.rank_le_iff`. -/
def letThrough? (first : Level) (before : List LogRequest) (request : LogRequest) : Option Event :=
  request.event?.filter fun e => e.level.rank ≤ (thresholdBehind first before).rank

/-- The events that are let through since the log was last emptied. -/
def letThrough (first : Level) (requests : List LogRequest) : List Event :=
  givenSince LogRequest.isClear (letThrough? first) requests

/-! ## One request -/

theorem length_rtake (events : List Event) (n : Nat) :
    (events.rtake n).length = min events.length n := by
  rw [List.rtake, List.length_drop]
  omega

/-- Without the oldest one, where there are too many, the newest events are one fewer at most. -/
theorem drop_rtake (events : List Event) (n : Nat) :
    (events.rtake (n + 1)).drop ((events.rtake (n + 1)).length + 1 - (n + 1)) = events.rtake n := by
  rw [length_rtake, List.rtake, List.rtake, List.drop_drop]
  congr 1
  omega

/-- Where the log holds the newest of some events, one more event makes it hold the newest of all of
them. -/
theorem events_push (h : log.events = events.rtake Limits.events) :
    (log.push event).events = (events ++ [event]).rtake Limits.events := by
  obtain ⟨n, hlimit⟩ : ∃ n, Limits.events = n + 1 := ⟨999, rfl⟩
  rw [hlimit] at h ⊢
  rw [List.rtake_concat_succ, MemoryLog.push, h, hlimit, drop_rtake]

/-- A logger has its threshold and its log from the requests it was asked. -/
structure LetsThrough (first : Level) (requests : List LogRequest) (l : Logger) : Prop where
  threshold_eq : l.threshold = thresholdBehind first requests
  events_eq : l.log.events = (letThrough first requests).rtake Limits.events

/-- A request for an event gives the logger the event. -/
theorem Logger.serve_event (h : request.event? = some event) : l.serve request = l.offer event := by
  cases request <;> simp only [LogRequest.event?, Option.some.injEq, reduceCtorEq] at h <;>
    rw [← h] <;> rfl

/-- A request for an event is let through if the threshold at that time lets the event pass. -/
theorem letThrough?_eq (h : LetsThrough first requests l) (hevent : request.event? = some event) :
    letThrough? first requests request =
      if l.threshold.passes event.level then some event else none := by
  rw [letThrough?, hevent, Option.filter_some, ← h.threshold_eq]
  rfl

/-- What one request preserves. -/
theorem LetsThrough.serve (h : LetsThrough first requests l) (request : LogRequest) :
    LetsThrough first (requests ++ [request]) (l.serve request) := by
  have hbehind : thresholdBehind first (requests ++ [request]) =
      request.threshold?.getD (thresholdBehind first requests) := lastTold_concat_getD
  cases hevent : request.event? with
  | some event =>
    have hkeeps : request.threshold? = none ∧ request.isClear = false := by
      cases request <;> cases hevent <;> exact ⟨rfl, rfl⟩
    rw [hkeeps.1, Option.getD_none, ← h.threshold_eq] at hbehind
    have hgives := letThrough?_eq h hevent
    rw [Logger.serve_event hevent, Logger.offer]
    by_cases hpasses : l.threshold.passes event.level = true
    · rw [if_pos hpasses] at hgives ⊢
      have hthrough : letThrough first (requests ++ [request]) =
          letThrough first requests ++ [event] := givenSince_concat_some hkeeps.2 hgives
      exact ⟨hbehind.symm, (events_push h.events_eq).trans (by rw [hthrough])⟩
    · rw [if_neg hpasses] at hgives ⊢
      have hthrough : letThrough first (requests ++ [request]) = letThrough first requests :=
        givenSince_concat_none hkeeps.2 hgives
      exact ⟨hbehind.symm, h.events_eq.trans (by rw [hthrough])⟩
  | none =>
    cases request with
    | setThreshold threshold =>
      have hthrough : letThrough first (requests ++ [.setThreshold threshold]) =
          letThrough first requests := givenSince_concat_none rfl rfl
      exact ⟨hbehind.symm, h.events_eq.trans (by rw [hthrough])⟩
    | clear =>
      have hthrough : letThrough first (requests ++ [.clear]) = [] := givenSince_reset rfl
      refine ⟨h.threshold_eq.trans hbehind.symm, ?_⟩
      rw [hthrough, List.rtake_nil]
      rfl
    | _ => cases hevent

/-! ## Any requests -/

/-- What a log holds of some events. -/
structure MemoryLog.Holds (log : MemoryLog) (events : List Event) : Prop where
  /-- The log has the newest of them, in their order. -/
  newest : log.events <:+ events
  /-- It has as many as fit. -/
  length : log.events.length = min events.length Limits.events
  errors : log.errors = (events.rtake Limits.events).filter (·.level = .error)
  withCode : ∀ code, log.withCode code = (events.rtake Limits.events).filter (·.code = code)
  hasError : ∀ code, log.hasError code = true ↔
    ∃ e ∈ events.rtake Limits.events, e.level = .error ∧ e.code = code
  hasSuccess : ∀ code, log.hasSuccess code = true ↔
    ∃ e ∈ events.rtake Limits.events, e.level = .info ∧ e.code = code

/-- After any requests, a logger has let through what it should. -/
theorem letsThrough_serveAll (first : Level) (requests : List LogRequest) :
    LetsThrough first requests (Logger.serveAll ⟨first, .empty⟩ requests) := by
  induction requests using List.reverseRecOn with
  | nil => exact ⟨rfl, (List.rtake_nil Limits.events).symm⟩
  | append_singleton requests request ih =>
    rw [Logger.serveAll, List.foldl_concat]
    exact ih.serve request

/-- After any requests, the log holds the newest of the events that were let through since it was
last emptied. -/
theorem holds_serveAll (first : Level) (requests : List LogRequest) :
    (Logger.serveAll ⟨first, .empty⟩ requests).log.Holds (letThrough first requests) := by
  have hevents := (letsThrough_serveAll first requests).events_eq
  constructor
  case newest =>
    rw [hevents]
    exact List.drop_suffix _ _
  case length => rw [hevents, length_rtake]
  case errors => rw [← hevents]; rfl
  case withCode =>
    intro code
    rw [← hevents]
    rfl
  case hasError =>
    intro code
    rw [← hevents]
    simp [MemoryLog.hasError, Event.isError]
  case hasSuccess =>
    intro code
    rw [← hevents]
    simp [MemoryLog.hasSuccess]

end Strata
