import Strata.Files.Tree
import Strata.Log.Code
import Strata.Run.Progress

/-!
# Why a file is not run over

A file that cannot be had, or may not be read, stops its run before the first sweep. `IntakeError`
says what is wrong with a file, `Failure` what kept a run from its end.

* `IntakeError.ofDisk`: what a reason of the disk means for a source file;
* `Failure.message`, `Failure.code`: a failure in words, and its code.
-/

namespace Strata

/-- What is wrong with a source file. -/
inductive IntakeError where
  | missing (path : String)
  /-- The extension is not one of those that are read. -/
  | refusedExtension (extension : Option String)
  | tooLarge (size limit : Nat)
  | empty (path : String)
  | denied (path : String)
  | notText (path : String)
  | unreadable (reason : String)
  | notAFile (path : String)
  | tooManyLines (lines limit : Nat)
deriving DecidableEq, Repr

namespace IntakeError

def extensionText : Option String → String
  | some extension => "Some(" ++ String.ofList (quoted extension.toList) ++ ")"
  | none => "None"

def message : IntakeError → String
  | missing path => "File not found: " ++ path
  | refusedExtension extension =>
    "Invalid file extension: " ++ extensionText extension ++ " is not in the allowed list"
  | tooLarge size limit =>
    "File too large: " ++ toString size ++ " bytes (max: " ++ toString limit ++ ")"
  | empty path => "File is empty: " ++ path
  | denied path => "Permission denied: " ++ path
  | notText path => "Invalid UTF-8 encoding in file: " ++ path
  | unreadable reason => "I/O error reading file: " ++ reason
  | notAFile path => "Invalid file path: " ++ path
  | tooManyLines lines limit =>
    "File exceeds maximum line count: " ++ toString lines ++ " (max: " ++ toString limit ++ ")"

def code : IntakeError → String
  | missing _ => "E005"
  | refusedExtension _ => "E006"
  | tooLarge _ _ => "E007"
  | empty _ => "E008"
  | denied _ => "E009"
  | notText _ => "E010"
  | unreadable _ => "E011"
  | notAFile _ => "E012"
  | tooManyLines _ _ => "E013"

/-- What a reason of the disk means for the file at a path. -/
def ofDisk (path : String) : DiskError → IntakeError
  | .missing => missing path
  | .denied => denied path
  | e => unreadable (path ++ ": " ++ e.message)

end IntakeError

/-- What kept a run from its end. -/
inductive Failure where
  | intake (error : IntakeError)
  | profile (error : ProfileError)
  | run (error : RunError)
deriving DecidableEq, Repr

namespace Failure

def message : Failure → String
  | intake e => "Source acquisition failed: " ++ e.message
  | profile e => "Language profile failed to load: " ++ e.message
  | run e => e.message

def code : Failure → String
  | intake e => e.code
  | profile e => e.code
  | run e => e.code

end Failure

end Strata
