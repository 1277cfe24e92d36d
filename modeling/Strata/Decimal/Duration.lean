import Strata.Decimal.Binary

/-!
# Durations

Durations are counted in nanoseconds, and reported in seconds or milliseconds.
-/

namespace Strata

def nanosPerSecond : Nat := 1000000000

/-- The seconds of a duration: whole seconds and the fraction, each rounded, then their sum. -/
def secondsOf (nanos : Nat) : Binary :=
  (Binary.ofNat (nanos / nanosPerSecond)).add
    ((Binary.ofNat (nanos % nanosPerSecond)).div (.ofNat nanosPerSecond))

def millisOf (nanos : Nat) : Binary := (secondsOf nanos).mul (.ofNat 1000)

end Strata
