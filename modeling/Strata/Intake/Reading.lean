import Strata.Decimal.ByteSize
import Strata.Intake.Failure
import Strata.Log.Journal
import Strata.Settings.Preferences
import Strata.Text.Utf8

/-!
# Reading source files

A source file must be a file, not too large, with an extension that is read, and hold UTF-8 text of
not too many lines. The first thing wrong with it is reported and ends the reading. Its size and its
name are looked at before its content is.

* `readSource`: the file at a path, with all that is known about it;
* `lineCount`: the number of lines of a text.
-/

namespace Strata

/-- The text of a source file, with what is known about the file. -/
structure SourceFile where
  path : String
  text : Text
  /-- The bytes of the file. -/
  size : Nat
  /-- The extension of the file, in lower case. -/
  extension : Option String
  lines : Nat
deriving DecidableEq, Repr

/-- The number of lines of a text. A line feed ends a line, and starts none. -/
def lineCount (t : Text) : Nat :=
  t.count '\n' + (if t.getLast?.all (· = '\n') then 0 else 1)

namespace SourceFile

/-- Whether a text holds nothing but white space. -/
def isBlank (s : SourceFile) : Bool := s.text.all Strata.isBlank

end SourceFile

/-- What is wrong with a source file, and how it is reported. -/
structure Refusal where
  error : IntakeError
  report : String
  facts : List (String × String)

def Refusal.notice (r : Refusal) : Notice := .error r.error.code r.report r.facts

/-- What stands at the path of a source file. -/
def checkPath (disk : Disk) (path : String) : Except Refusal ByteArray :=
  if path = "" then
    .error ⟨.notAFile "", "Empty source path", []⟩
  else
    match disk path with
    | .error e =>
      .error ⟨.ofDisk path e, "Failed to read source metadata",
        [("file", path), ("io_error", e.message)]⟩
    | .ok (.directory _) =>
      .error ⟨.notAFile path, "Source path is not a file", [("file", path)]⟩
    | .ok (.file content) => .ok content

/-- Whether a file of some size and with some extension is read. -/
def checkFile (preferences : IntakePreferences) (path : String) (size : Nat)
    (extension : Option String) : Except Refusal Unit :=
  if Limits.sourceBytes < size then
    .error ⟨.tooLarge size Limits.sourceBytes, "Source exceeds compile-time size limit",
      [("file", path), ("size", byteSize size), ("limit", byteSize Limits.sourceBytes)]⟩
  else if size = 0 ∧ preferences.refusesEmpty then
    .error ⟨.empty path, "Source file is empty", [("file", path)]⟩
  else if !preferences.accepts extension then
    .error ⟨.refusedExtension extension, "Source extension not allowed",
      [("file", path), ("extension", extension.getD "none"),
        ("allowed", String.intercalate "," preferences.extensions)]⟩
  else
    .ok ()

/-- The text of a file, and the number of its lines. -/
def checkText (path : String) (content : ByteArray) : Except Refusal (Text × Nat) :=
  match decodeUtf8 content.toList with
  | .error valid =>
    .error ⟨.notText path, "Source file is not valid UTF-8",
      [("file", path), ("valid_up_to", toString valid)]⟩
  | .ok text =>
    let lines := lineCount text
    if Limits.sourceLines < lines then
      .error ⟨.tooManyLines lines Limits.sourceLines, "Source exceeds maximum line count",
        [("file", path), ("lines", toString lines), ("max_lines", toString Limits.sourceLines)]⟩
    else
      .ok (text, lines)

/-- The source file at a path, or the first thing wrong with it. -/
def checkSource (disk : Disk) (preferences : IntakePreferences) (path : String) :
    Except Refusal SourceFile := do
  let content ← checkPath disk path
  let extension := (pathExtension? path).map lowercase
  checkFile preferences path content.size extension
  let (text, lines) ← checkText path content
  return ⟨path, text, content.size, extension, lines⟩

/-- What is said when a file has been read. -/
def SourceFile.notice (s : SourceFile) : Notice :=
  .success "I006" "Source read" [
    ("file", s.path), ("size", byteSize s.size), ("lines", toString s.lines),
    ("chars", toString s.text.length)]

def readSource (disk : Disk) (preferences : IntakePreferences) (path : String) :
    Told (Except IntakeError SourceFile) :=
  let start := Notice.debug "Reading source" [("file", path)]
  match checkSource disk preferences path with
  | .error refusal => .ofNotices [start, refusal.notice] (.error refusal.error)
  | .ok source =>
    .ofNotices (start :: if preferences.reportsReading then [source.notice] else []) (.ok source)

end Strata
