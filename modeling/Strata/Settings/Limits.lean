/-!
# Limits

Bounds that no setting can raise.
-/

namespace Strata.Limits

def sourceBytes : Nat := 10485760

def sourceLines : Nat := 500000

def workers : Nat := 16

def batchFiles : Nat := 10000

/-- The most events kept for a file, and by a memory log. -/
def events : Nat := 1000

def messageBytes : Nat := 4096

/-- The name of the set of limits. -/
def profile : String := "development"

/-- Where the sets of limits are kept. -/
def directory : String := "config"

/-- Where the limits come from. -/
def origin : String := "Generated from " ++ directory ++ "/" ++ profile ++ ".toml"

/-- Whether logging is possible within the limits. -/
def areValid : Bool := events ≠ 0 && 16 ≤ messageBytes

end Strata.Limits
