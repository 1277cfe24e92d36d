import Strata.Text.Span

/-!
# Lines and columns

A reader of a message looks for a line and a column, not for a byte offset. `LineIndex` cuts a text
into its lines once; `LineIndex.positionAt` then finds the line and the column of an offset, and
`LineIndex.excerpt` shows a message together with the line it is about and a row of carets under the
span it is about.

Lines and columns count from one, and columns count characters. They are kept in 32 bits, so beyond
these they start anew from zero. A line ends with a line feed; the carriage returns before it are
not shown.
-/

namespace Strata

/-- A line of a text, without its line feed. -/
structure Line where
  /-- The offset at which the line starts. -/
  start : Nat
  text : Text
deriving DecidableEq, Repr

/-- A text cut into lines. There is at least one. -/
structure LineIndex where
  /-- The number of bytes of the text. -/
  size : Nat
  lines : List Line
deriving DecidableEq, Repr

/-- What 32 bits keep of a number. -/
def inWord (n : Nat) : Nat := n % 4294967296

/-- A place in a text as a reader counts it. -/
structure Position where
  offset : Nat
  line : Nat
  column : Nat
deriving DecidableEq, Repr

/-- The written form of a position: `line:column`. -/
def Position.render (p : Position) : String := toString p.line ++ ":" ++ toString p.column

/-- The parts of a text between its line feeds. -/
def splitLines : Text → List Text
  | [] => [[]]
  | c :: t =>
    if c = '\n' then
      [] :: splitLines t
    else
      match splitLines t with
      | [] => [[c]]
      | line :: lines => (c :: line) :: lines

/-- Lines with their offsets, the first of which is `start`. -/
def locateLines (start : Nat) : List Text → List Line
  | [] => []
  | line :: lines => ⟨start, line⟩ :: locateLines (start + byteLen line + 1) lines

namespace LineIndex

/-- Cuts a text into lines. -/
def ofText (t : Text) : LineIndex := ⟨byteLen t, locateLines 0 (splitLines t)⟩

def count (index : LineIndex) : Nat := index.lines.length

/-- The last line that starts at or before `offset`, with its number, or else `line`, which is the
line with the number `n`. -/
def lineFrom (offset n : Nat) (line : Line) : List Line → Nat × Line
  | [] => (n, line)
  | next :: lines =>
    if next.start ≤ offset then lineFrom offset (n + 1) next lines else (n, line)

/-- The line that an offset belongs to, with its number counted from one. -/
def lineAt? (index : LineIndex) (offset : Nat) : Option (Nat × Line) :=
  match index.lines with
  | [] => none
  | line :: lines => some (lineFrom offset 1 line lines)

/-- The position of an offset. An offset beyond the text has the position of its end. -/
def positionAt (index : LineIndex) (offset : Nat) : Except Fault Position :=
  let offset := min offset index.size
  match index.lineAt? offset with
  | none => .error (.offset offset)
  | some (n, line) =>
    match charsBefore? 0 (offset - line.start) line.text with
    | none => .error (.offset offset)
    | some before => .ok ⟨offset, inWord n, inWord (before + 1)⟩

/-- The text of a line, counted from one, as it is shown. -/
def line? (index : LineIndex) (n : Nat) : Option Text :=
  if n = 0 then
    none
  else
    (index.lines[n - 1]?).map fun line => (line.text.reverse.dropWhile (· = '\r')).reverse

/-- How many carets underline a span that starts and ends at the given positions, where `shown` is
the line that it starts on: up to its end, or up to the end of the line if it ends on another. -/
def caretCount (span : Span) (start stop : Position) (shown : Text) : Except Fault Nat :=
  let (first, last) :=
    if start.line = stop.line then (start.column, stop.column)
    else (start.column, shown.length + 1)
  if last < first then .error (.backwards span) else .ok (max (last - first) 1)

/-- A message about a span, with the line that the span starts on and carets under it. -/
def excerpt (index : LineIndex) (span : Span) (label message : String) : Except Fault String := do
  let start ← index.positionAt span.start
  let stop ← index.positionAt span.stop
  let heading := label ++ ": " ++ message ++ "\n  --> " ++ start.render ++ "\n"
  match index.line? start.line with
  | none => return heading
  | some shown =>
    let carets ← caretCount span start stop shown
    let number := toString start.line
    let margin := String.ofList (List.replicate number.length ' ')
    let underline :=
      String.ofList (List.replicate (start.column - 1) ' ' ++ List.replicate carets '^')
    return heading ++ margin ++ " |\n" ++ number ++ " | " ++ String.ofList shown ++ "\n" ++
      margin ++ " | " ++ underline ++ "\n"

end LineIndex

end Strata
