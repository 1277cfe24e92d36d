/-!
# Why a batch does not start or end

A batch needs a directory with files to work on, and no more of them than the limit.
-/

namespace Strata

/-- What keeps a batch from starting or from ending. -/
inductive BatchError where
  | missingDirectory (path : String)
  | noFiles (path : String)
  | tooManyFiles (count limit : Nat)
  /-- The directory cannot be searched. -/
  | walk (reason : String)
  /-- A worker broke down. -/
  | brokenWorker
deriving DecidableEq, Repr

namespace BatchError

def message : BatchError → String
  | missingDirectory path => "Directory not found: " ++ path
  | noFiles path => "No source files found in directory: " ++ path
  | tooManyFiles count limit =>
    "Too many files found: " ++ toString count ++ " (max: " ++ toString limit ++ ")"
  | walk reason => "Error during directory traversal: " ++ reason
  | brokenWorker => "A batch worker thread panicked"

def code : BatchError → String
  | missingDirectory _ => "E012"
  | noFiles _ => "E050"
  | tooManyFiles _ _ => "E051"
  | walk _ => "E052"
  | brokenWorker => "E053"

end BatchError

end Strata
