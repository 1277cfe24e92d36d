import Strata.Text.Lowercase

/-!
# Levels

How much an event matters. A logger takes the events that matter at least as much as its threshold.
-/

namespace Strata

/-- How much an event matters, the most important level first. -/
inductive Level where
  | error
  | warning
  | info
  | debug
deriving DecidableEq, Repr, Inhabited

namespace Level

/-- The place of a level, counted from the most important one. -/
def rank : Level → Nat
  | error => 0
  | warning => 1
  | info => 2
  | debug => 3

/-- The levels stand in this order: error, warning, info, debug. -/
theorem rank_le_iff (a b : Level) :
    a.rank ≤ b.rank ↔ a = b ∨ [a, b].Sublist [error, warning, info, debug] := by
  cases a <;> cases b <;> decide

/-- Whether a logger with a threshold takes events of a level. -/
def passes (threshold level : Level) : Bool := level.rank ≤ threshold.rank

def label : Level → String
  | error => "ERROR"
  | warning => "WARN"
  | info => "INFO"
  | debug => "DEBUG"

def configName : Level → String
  | error => "Error"
  | warning => "Warning"
  | info => "Info"
  | debug => "Debug"

/-- The level that a setting names, by a word or by its rank. -/
def ofName? (name : String) : Option Level :=
  match lowercase name with
  | "error" | "0" => some error
  | "warning" | "warn" | "1" => some warning
  | "info" | "2" => some info
  | "debug" | "3" => some debug
  | _ => none

end Level

end Strata
