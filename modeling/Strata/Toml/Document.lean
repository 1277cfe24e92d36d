import Strata.Toml.Number
import Strata.Toml.Table

/-!
# Settings files

A settings file is written in TOML: entries, one on a line, each a key and a value, and headers that
name the tables to which the entries after them belong. Comments may end any line and stand in
arrays.

* `value`: takes a value;
* `Document.read`: the table that a file is, or the first thing wrong with it.
-/

namespace Strata.Toml

open Reader

/-- Whether a text starts with a key, after blanks. -/
def startsKey (t : Text) : Bool :=
  (t.dropWhile isBlankChar).head?.any fun c => c = '"' || c = '\'' || isKeyChar c

/-- Takes one part of a key. -/
def keyPart (fuel : Nat) : Reader Key := do
  let start ← offset
  let c ← peek
  let name ←
    if c = some '"' then
      skip 1
      lineString basic fuel
    else if c = some '\'' then
      skip 1
      lineString literal fuel
    else if c.any isKeyChar then
      takeWhile isKeyChar
    else
      fail "invalid key"
  return ⟨name, ⟨start, ← offset⟩⟩

/-- Takes the parts of a key, with blanks around them. A dot that no part follows is left. -/
def keyParts : Nat → Reader (List Key)
  | 0 => fail "invalid key"
  | fuel + 1 => do
    blanks
    let part ← keyPart fuel
    blanks
    let t ← ahead
    if t.head? = some '.' ∧ startsKey (t.drop 1) then
      skip 1
      return part :: (← keyParts fuel)
    else
      return [part]

/-- Values may be nested this deep, less one; so may tables. -/
def maxDepth : Nat := 80

/-- Takes a key: the parts that lead to it, and the last. -/
def key (about : String) (fuel : Nat) : Reader (List Key × Key) := do
  let start ← get
  let parts ← keyParts fuel
  if maxDepth ≤ parts.length then
    failAt start (about ++ "recursion limit exceeded")
  match parts.getLast? with
  | some last => return (parts.dropLast, last)
  | none => fail "invalid key"

/-- Why no value can start as a text does, and how many characters before the one that is wrong. -/
def refusal? (t : Text) : Option (Nat × String) :=
  let word := "invalid string\nexpected `\"`, `'`"
  let isNumberWord (t : Text) : Bool :=
    "inf".toList.isPrefixOf t || "nan".toList.isPrefixOf t
  match t with
  | [] => some (0, "")
  | c :: behind =>
    if c = '+' ∨ c = '-' then
      if behind.head?.any Char.isDigit || isNumberWord behind then none
      else some (1, "invalid integer")
    else if c = '_' then some (0, "invalid integer\nexpected leading digit")
    else if c = '.' then some (0, "invalid floating-point number\nexpected leading digit")
    else if c.isDigit || isNumberWord t || "\"'[\x7btf".toList.contains c then none
    else some (0, word)

def word (w : String) (s : Scalar) : Reader Scalar := do
  expect w.toList "invalid string\nexpected `\"`, `'`"
  return s

def scalar (fuel : Nat) : Reader Scalar := do
  match ← peek with
  | some '"' => return .string (← string basic fuel)
  | some '\'' => return .string (← string literal fuel)
  | some 't' => word "true" (.boolean true)
  | some 'f' => word "false" (.boolean false)
  | _ => number fuel

mutual

/-- Takes a value inside of `depth` others. -/
def value (depth : Nat) : Nat → Reader Value
  | 0 => fail ""
  | fuel + 1 => do
    let start ← get
    match refusal? start.rest with
    | some (skipped, message) => skip skipped; fail message
    | none =>
      let c ← peek
      if c = some '[' ∨ c = some '\x7b' then
        if maxDepth ≤ depth + 1 then
          fail "recursion limit exceeded"
        skip 1
        if c = some '[' then
          let vs ← items (depth + 1) fuel
          return .array ⟨start.offset, ← offset⟩ vs
        else
          let opened ← get
          blanks
          let ps ← if startsKey (← ahead) then pairs (depth + 1) fuel else pure []
          match Entries.ofPairs ps with
          | .error fault => failAt opened fault.message
          | .ok entries =>
            expect ['\x7d'] "invalid inline table\nexpected `\x7d`"
            return .table .braces (some ⟨start.offset, ← offset⟩) entries
      else
        let s ← scalar fuel
        return .scalar ⟨start.offset, ← offset⟩ s

/-- Takes the values of an array, behind its opening bracket or a comma, and the closing one. -/
def items (depth : Nat) : Nat → Reader (List Value)
  | 0 => fail "invalid array\nexpected `]`"
  | fuel + 1 => do
    space fuel
    if (refusal? (← ahead)).isSome then
      expect [']'] "invalid array\nexpected `]`"
      return []
    else
      let v ← value depth fuel
      space fuel
      if ← looksAt [','] then
        skip 1
        return v :: (← items depth fuel)
      else
        expect [']'] "invalid array\nexpected `]`"
        return [v]

/-- Takes the entries between two braces, of which there is one at least. A comma that no entry
follows is left. -/
def pairs (depth : Nat) : Nat → Reader (List (List Key × Key × Value))
  | 0 => return []
  | fuel + 1 => do
    let (path, last) ← key "" fuel
    expect ['='] "expected `.`, `=`"
    blanks
    let v ← value depth fuel
    blanks
    let t ← ahead
    if t.head? = some ',' ∧ startsKey (t.drop 1) then
      skip 1
      return (path, last, v) :: (← pairs depth fuel)
    else
      return [(path, last, v)]

end

/-- Fails at a place if a table cannot be filled as it is written. -/
def orFailAt {α : Type} (place : Place) (about : String) : Except Fault α → Reader α
  | .ok a => return a
  | .error fault => failAt place (about ++ fault.message)

/-- Takes an entry and adds it to a draft. -/
def field (d : Draft) (fuel : Nat) : Reader Draft := do
  let start ← get
  let (path, last) ← key "" fuel
  expect ['='] "expected `.`, `=`"
  blanks
  let v ← value 0 fuel
  restOfLine ""
  orFailAt start "" (d.field path last v)

/-- Takes a header and adds it to a draft. -/
def header (d : Draft) (fuel : Nat) : Reader Draft := do
  let start ← get
  let about := "invalid table header\n"
  let repeated ← looksAt ['[', '[']
  if start.rest.length = 1 then
    fail "invalid table header"
  skip (if repeated then 2 else 1)
  let (path, last) ← key about fuel
  if repeated then
    expect [']', ']'] (about ++ "expected `.`, `]]`")
  else
    expect [']'] (about ++ "expected `.`, `]`")
  let span : Span := ⟨start.offset, ← offset⟩
  restOfLine about
  orFailAt start about (d.header (path ++ [last]) repeated span)

/-- Takes all lines up to the end of the file and adds them to a draft. -/
def lines (d : Draft) : Nat → Reader Draft
  | 0 => return d
  | fuel + 1 => do
    blanks
    match ← peek with
    | none => return d
    | some '[' => lines (← header d fuel) fuel
    | some '#' =>
      comment
      endOfLine ""
      lines d fuel
    | some c =>
      if c = '\n' ∨ c = '\r' then
        endOfLine ""
        lines d fuel
      else
        lines (← field d fuel) fuel

/-- The table that a file is. -/
structure Document where
  /-- From the start of the file to the end of the last value before all headers. -/
  span : Span
  entries : Entries

/-- The table that a file is, or the first thing wrong with it. A byte order mark at its start means
nothing. -/
def Document.read (source : Text) : Except Error Document := do
  let whole : Reader Document := do
    if ← looksAt ['\ufeff'] then
      skip 1
    let start ← get
    let d ← lines .empty (source.length + 1)
    let entries ← orFailAt start "" d.close
    return ⟨d.span, entries⟩
  return (← whole.run (Place.start source)).1

end Strata.Toml
