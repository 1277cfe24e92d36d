import Std.Time.DateTime.Timestamp
import Strata.Command.Basic

/-!
# The program

What the command needs from the world around it is gathered first: the settings, the files that the
command line names, the time, and some random bits. The answer follows from these alone, and is
written to the two outputs.
-/

namespace Strata

def readSettings : IO Settings := do
  let values ← Setting.all.filterMapM fun setting => do
    return (← IO.getEnv setting.name).map fun value => (setting.name, value)
  return .ofNames values

/-- What a refusal of the disk means. -/
def DiskError.ofIO : IO.Error → DiskError
  | .noFileOrDirectory .. => .missing
  | .permissionDenied .. => .denied
  | .inappropriateType .. => .notADirectory
  | .illegalOperation .. => .isADirectory
  | .invalidArgument .. => .tooLong
  | _ => .missing

/-- What is at a path. Of the files below a directory only the ones that a batch takes are read. -/
partial def snapshotAt (path : String) : IO Node := do
  let place := (← IO.currentDir) / path
  if ← place.isDir then
    let entries ← (← place.readDir).toList.filterMapM fun entry => do
      let name := entry.fileName
      match (← entry.path.symlinkMetadata).type with
      | .dir => return some (name, ← snapshotAt (joinPath path name))
      | .file =>
        if (BatchPlan.standard 1).takes name then
          return some (name, .file (← IO.FS.readBinFile entry.path))
        else
          return none
      | _ => return none
    return .directory (entries.mergeSort fun a b => a.1 ≤ b.1)
  else
    return .file (← IO.FS.readBinFile place)

/-- What is at a path, or why nothing is. -/
def snapshot (path : String) : IO (Except DiskError Node) := do
  if path = "" then
    return .error .missing
  match ← (snapshotAt path).toBaseIO with
  | .ok node => return .ok node
  | .error e => return .error (.ofIO e)

/-- A random number of 128 bits. -/
def randomSeed : IO Nat := do
  return (← IO.getRandomBytes 16).toList.foldl (fun n b => 256 * n + b.toNat) 0

/-- The time, in nanoseconds since the start of 1970. -/
def currentNanos : IO Nat := do
  return (← Std.Time.Timestamp.now).toNanosecondsSinceUnixEpoch.val.toNat

end Strata

def main (arguments : List String) : IO UInt32 := do
  let snapshots ← (Strata.Request.pathsOf arguments).mapM fun path =>
    return (path, ← Strata.snapshot path)
  let settings ← Strata.readSettings
  let stamp := Strata.Stamp.ofSeed (← Strata.randomSeed) (← Strata.currentNanos)
  let reply :=
    Strata.answerCommand ⟨Strata.Disk.ofSnapshots snapshots, settings, stamp⟩ arguments
  IO.print reply.output
  IO.eprint reply.messages
  return reply.exitCode.toUInt32
