import Strata.Text.Place
import Strata.Toml.Error

/-!
# Reading from a place on

A reader goes on from a place in the file, and fails where the text is not what it should be. This
module has the readers from which all others are made, and those for what stands between values:
blanks, comments and line ends.

Readers that repeat are bounded by `fuel`. Each round takes one character at least, so the number of
characters in a file is always enough.
-/

namespace Strata.Toml

/-- Reads something from a place on, and says where it ends. -/
abbrev Reader := StateT Place (Except Error)

namespace Reader

/-- Fails with the span of the character at a place. -/
def failAt {α : Type} (place : Place) (message : String) : Reader α := fun _ =>
  let size := (place.peek?.map Char.utf8Size).getD 0
  .error ⟨⟨place.offset, place.offset + size⟩, message⟩

/-- Fails with the span of the next character. -/
def fail {α : Type} (message : String) : Reader α := do failAt (← get) message

def peek : Reader (Option Char) := do return (← get).peek?

/-- The text that is still ahead. -/
def ahead : Reader Text := do return (← get).rest

def skip : Nat → Reader Unit
  | 0 => pure ()
  | n + 1 => do
    match (← get).next? with
    | none => pure ()
    | some (_, there) => set there; skip n

/-- Whether the text from the place on starts with `t`. -/
def looksAt (t : Text) : Reader Bool := do return t.isPrefixOf (← ahead)

/-- Takes `t`, or fails if something else comes. -/
def expect (t : Text) (message : String) : Reader Unit := do
  if ← looksAt t then skip t.length else fail message

/-- Takes characters as long as they satisfy `ok`. -/
def takeWhile (ok : Char → Bool) : Reader Text := do
  let taken := (← ahead).takeWhile ok
  skip taken.length
  return taken

def offset : Reader Nat := do return (← get).offset

end Reader

open Reader

/-- A blank within a line. -/
def isBlankChar (c : Char) : Bool := c = ' ' || c = '\t'

/-- A character that may stand in a comment, or in a string on one line. -/
def isLineChar (c : Char) : Bool := c = '\t' || (0x20 ≤ c.toNat && c.toNat ≠ 0x7f)

def blanks : Reader Unit := do
  let _ ← takeWhile isBlankChar

/-- Whether a text starts with a line end. -/
def startsWithLineEnd (t : Text) : Bool := ['\n'].isPrefixOf t || ['\r', '\n'].isPrefixOf t

def lineEnd : Reader Bool := do
  if ← looksAt ['\n'] then
    skip 1
    return true
  else if ← looksAt ['\r', '\n'] then
    skip 2
    return true
  else
    return false

def comment : Reader Unit := do
  if ← looksAt ['#'] then
    let _ ← takeWhile isLineChar

/-- Takes a line end, or fails before the end of the file. -/
def endOfLine (message : String) : Reader Unit := do
  if (← peek).isSome then
    if !(← lineEnd) then
      fail message

/-- Takes what may stand behind an entry or a header, to the end of the line. -/
def restOfLine (about : String) : Reader Unit := do
  blanks
  comment
  endOfLine (about ++ "expected newline, `#`")

/-- Takes blanks, comments and line ends. -/
def space : Nat → Reader Unit
  | 0 => pure ()
  | fuel + 1 => do
    blanks
    comment
    if ← lineEnd then
      space fuel

end Strata.Toml
