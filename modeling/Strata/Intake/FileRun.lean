import Strata.Intake.ProfileFile
import Strata.Intake.Reading
import Strata.Run.Notices

/-!
# Runs over files

A file is read, taken through all layers, and the outcome is reported. Work on a file is marked in
the journal by the path and the number of the file.

* `runFile`: a run over a file, where the journal knows the file already;
* `runFileAs`: the same, entered into the journal under a number;
* `runFileAlone`: a run over one file with the profile that the user prefers.
-/

namespace Strata

def runFile (disk : Disk) (preferences : Preferences) (profile : Profile) (path : String) :
    Told (Except Failure Outcome) :=
  let start := Entry.note (.info "Starting lexical pipeline" [("file", path)])
  let source := readSource disk preferences.intake path
  match source.result with
  | .error e => ⟨start :: source.said, .error (.intake e)⟩
  | .ok file =>
    match Outcome.ofText file.text profile with
    | .error e => ⟨start :: source.said, .error (.run e)⟩
    | .ok outcome =>
      let outcome := { outcome with path := some path }
      let notices := outcome.notices preferences.run ++ [outcome.finished]
      ⟨start :: source.said ++ notices.map .note, .ok outcome⟩

/-- A run over a file, entered into the journal under a number. -/
def runFileAs (number : Nat) (disk : Disk) (preferences : Preferences) (profile : Profile)
    (path : String) : Told (Except Failure Outcome) :=
  let run := runFile disk preferences profile path
  ⟨.enter path number :: run.said ++ [.leave], run.result⟩

/-- A run over one file with the profile that the user prefers. -/
def runFileAlone (disk : Disk) (preferences : Preferences) (path : String) :
    Told (Except Failure Outcome) :=
  let profile := preferredProfile disk preferences.run
  match profile.result with
  | .error e =>
    let report := Notice.error e.code "Failed to load language profile" [("error", e.message)]
    ⟨profile.said ++ [.note report], .error (.profile e)⟩
  | .ok p =>
    let run := runFileAs 0 disk preferences p path
    ⟨profile.said ++ run.said, run.result⟩

end Strata
