import Strata.Toml.Reader

/-!
# Strings in settings files

A string has double quotes around it and escapes in it, or single quotes and no escapes. With one
quote at each end it stands on one line; with three it may go over many lines, and quotes may stand
in it as long as there are no three in a row.

* `string`: takes a string of any form;
* `lineString`: takes a string on one line, as keys are.
-/

namespace Strata.Toml

open Reader

def hexValue? (c : Char) : Option Nat :=
  if c.isDigit then some (c.toNat - '0'.toNat)
  else if 'a' ≤ c ∧ c ≤ 'f' then some (c.toNat - 'a'.toNat + 10)
  else if 'A' ≤ c ∧ c ≤ 'F' then some (c.toNat - 'A'.toNat + 10)
  else none

/-- The number with the given digits, which may be hexadecimal. -/
def numberOf (base : Nat) (digits : Text) : Nat :=
  digits.foldl (fun n c => base * n + (hexValue? c).getD 0) 0

/-- Takes `n` hexadecimal digits, which are the code point of a character. -/
def codePoint (n : Nat) : Reader Text := do
  let digits := (← ahead).take n
  let about := "invalid unicode " ++ toString n ++ "-digit hex code"
  if digits.length = n ∧ digits.all fun c => (hexValue? c).isSome then
    let code := numberOf 16 digits
    if code.isValidChar then
      skip n
      return [Char.ofNat code]
    else
      fail (about ++ "\nvalue is out of range")
  else
    fail about

/-- Takes what follows a backslash in a string. The message about an unknown escape points behind
it, if it is of one byte. -/
def escape : Reader Text := do
  let here ← get
  let known? : Option Char := match here.peek? with
    | some 'b' => some '\x08'
    | some 't' => some '\t'
    | some 'n' => some '\n'
    | some 'f' => some '\x0c'
    | some 'r' => some '\r'
    | some '"' => some '"'
    | some '\\' => some '\\'
    | _ => none
  match known?, here.peek? with
  | some c, _ => skip 1; return [c]
  | none, some 'u' => skip 1; codePoint 4
  | none, some 'U' => skip 1; codePoint 8
  | none, c =>
    if c.any fun c => c.utf8Size = 1 then
      skip 1
    fail "invalid escape sequence\nexpected `b`, `f`, `n`, `r`, `t`, `u`, `U`, `\\`, `\"`"

/-- How the characters of a string are written. -/
structure StringForm where
  quote : Char
  escapes : Bool
  /-- The name of the form in messages. -/
  name : String

/-- Strings with escapes. -/
def basic : StringForm := ⟨'"', true, "basic string"⟩

/-- Strings without escapes. -/
def literal : StringForm := ⟨'\'', false, "literal string"⟩

/-- Whether a text starts with a backslash and something that it escapes. -/
def StringForm.startsEscape (form : StringForm) (t : Text) : Bool :=
  form.escapes && t.head? = some '\\' && 1 < t.length

/-- Takes a string on one line, behind its opening quote. -/
def lineString (form : StringForm) : Nat → Reader Text
  | 0 => fail ("invalid " ++ form.name)
  | fuel + 1 => do
    let t ← ahead
    match t.head? with
    | none => fail ("invalid " ++ form.name)
    | some c =>
      if c = form.quote then
        skip 1
        return []
      else if form.startsEscape t then
        skip 1
        let front ← escape
        return front ++ (← lineString form fuel)
      else if isLineChar c ∧ !(form.escapes ∧ c = '\\') then
        skip 1
        return c :: (← lineString form fuel)
      else
        fail ("invalid " ++ form.name)

def blankLines : Nat → Reader Unit
  | 0 => pure ()
  | fuel + 1 => do
    blanks
    if ← lineEnd then
      blankLines fuel

/-- Takes a backslash at the end of a line with all blanks and line ends behind it, and says whether
there is one. -/
def foldedLine (fuel : Nat) : Reader Bool := do
  if startsWithLineEnd (((← ahead).drop 1).dropWhile isBlankChar) then
    skip 1
    blankLines fuel
    return true
  else
    return false

/-- Takes a string on many lines, behind its opening quotes. Up to two quotes may stand right before
the closing ones. -/
def blockString (form : StringForm) : Nat → Reader Text
  | 0 => fail ("invalid multiline " ++ form.name)
  | fuel + 1 => do
    let t ← ahead
    match t.head? with
    | none => fail ("invalid multiline " ++ form.name)
    | some c =>
      if c = form.quote then
        let count := (t.takeWhile (· = form.quote)).length
        let behind := t.drop count
        let mayGoOn := if form.escapes then !behind.isEmpty
          else behind.head?.any isLineChar || startsWithLineEnd behind
        if 3 ≤ count then
          let inside := min (count - 3) 2
          skip (inside + 3)
          return List.replicate inside c
        else if mayGoOn then
          skip count
          return List.replicate count c ++ (← blockString form fuel)
        else
          fail ("invalid multiline " ++ form.name)
      else if form.startsEscape t then
        if ← foldedLine fuel then
          blockString form fuel
        else
          skip 1
          let front ← escape
          return front ++ (← blockString form fuel)
      else if ← lineEnd then
        return '\n' :: (← blockString form fuel)
      else if isLineChar c ∧ !(form.escapes ∧ c = '\\') then
        skip 1
        return c :: (← blockString form fuel)
      else
        fail ("invalid multiline " ++ form.name)

def string (form : StringForm) (fuel : Nat) : Reader Text := do
  let q := form.quote
  if ← looksAt [q, q, q] then
    skip 3
    let _ ← lineEnd
    blockString form fuel
  else
    skip 1
    lineString form fuel

end Strata.Toml
