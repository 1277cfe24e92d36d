import Strata.Toml.Quoted
import Strata.Toml.Value

/-!
# Numbers and dates in settings files

Integers have 64 bits and may be hexadecimal, octal or binary; numbers with a point or an exponent
have 64 bits as well. Single underscores may stand between digits. Four digits and a dash begin a
date, and an hour and a colon begin a time.

* `number`: takes a number, a date or a time.
-/

namespace Strata.Toml

open Reader

/-- Takes digits with single underscores between them, the first of which has been seen. -/
def digits (ok : Char → Bool) (gap : String) : Nat → Reader Text
  | 0 => return []
  | fuel + 1 => do
    let front ← takeWhile ok
    if ← looksAt ['_'] then
      skip 1
      if (← peek).any ok then
        return front ++ (← digits ok gap fuel)
      else
        fail gap
    else
      return front

/-- Takes a sign, if there is one, and says whether it is a minus. -/
def sign : Reader Bool := do
  let c ← peek
  if c = some '+' ∨ c = some '-' then
    skip 1
  return c = some '-'

def greatestInteger : Int := 9223372036854775807

/-- An integer of 64 bits. A message about one that is too large points at its start. -/
def integer (start : Place) (i : Int) : Reader Scalar :=
  if greatestInteger < i then
    failAt start "number too large to fit in target type"
  else if i < -greatestInteger - 1 then
    failAt start "number too small to fit in target type"
  else
    return .integer i

/-- Takes an integer in another base than ten, behind the zero and the letter of the base. -/
def basedInteger (start : Place) (base : Nat) (name : String) (fuel : Nat) : Reader Scalar := do
  let ok (c : Char) : Bool := (hexValue? c).any (· < base)
  if (← peek).any ok then
    let ds ← digits ok ("invalid " ++ name ++ " integer\nexpected digit") fuel
    integer start (numberOf base ds)
  else
    fail ("invalid " ++ name ++ " integer")

/-- Takes the point of a number and the digits behind it, if there is a point. -/
def fraction (fuel : Nat) : Reader (Option Text) := do
  if ← looksAt ['.'] then
    skip 1
    if (← peek).any Char.isDigit then
      return some (← digits Char.isDigit
        "invalid floating-point number\nexpected digit, digit" fuel)
    else
      fail "invalid floating-point number\nexpected digit"
  else
    return none

/-- Takes the exponent of a number, if there is one. -/
def exponent (fuel : Nat) : Reader (Option Int) := do
  let c ← peek
  if c = some 'e' ∨ c = some 'E' then
    skip 1
    let negative ← sign
    if (← peek).any Char.isDigit then
      let ds ← digits Char.isDigit "invalid floating-point number\nexpected digit" fuel
      let n : Int := numberOf 10 ds
      return some (if negative then -n else n)
    else
      fail "invalid floating-point number"
  else
    return none

/-- Takes a number in base ten. One that has no end and is not negative is not a number. -/
def decimalNumber (start : Place) (fuel : Nat) : Reader Scalar := do
  let negative ← sign
  if ← looksAt "inf".toList then
    skip 3
    return .float (.infinite negative)
  else if ← looksAt "nan".toList then
    skip 3
    return .float .undefined
  else
    let whole ←
      if ← looksAt ['0'] then
        skip 1
        pure ['0']
      else
        digits Char.isDigit "invalid integer\nexpected digit" fuel
    let part ← fraction fuel
    let power ← exponent fuel
    if part.isNone ∧ power.isNone then
      let n : Int := numberOf 10 whole
      integer start (if negative then -n else n)
    else
      let part := part.getD []
      let size : Decimal := ⟨numberOf 10 (whole ++ part), power.getD 0 - part.length⟩
      let x := Double.ofDecimal negative size
      if x = .infinite false then
        failAt start "invalid floating-point number"
      else
        return .float x

/-- Takes a number of two digits between two bounds. -/
def twoDigits (low high : Nat) (about : String) : Reader Nat := do
  let ds := (← ahead).take 2
  if ds.length = 2 ∧ ds.all Char.isDigit then
    let n := numberOf 10 ds
    if low ≤ n ∧ n ≤ high then
      skip 2
      return n
    else
      fail (about ++ "\nvalue is out of range")
  else
    fail about

/-- Whether a text starts with an hour and a colon. -/
def startsTime (t : Text) : Bool :=
  match t with
  | a :: b :: ':' :: _ => a.isDigit && b.isDigit && numberOf 10 [a, b] ≤ 23
  | _ => false

/-- Whether a text starts with a year and a dash. -/
def startsDate (t : Text) : Bool :=
  (t.take 4).length = 4 && (t.take 4).all Char.isDigit && t[4]? = some '-'

/-- Takes a time, the hour and the colon of which have been seen. -/
def time : Reader Unit := do
  skip 3
  let _ ← twoDigits 0 59 "invalid date-time"
  expect [':'] "invalid date-time"
  let _ ← twoDigits 0 60 "invalid date-time"
  let t ← ahead
  if t.head? = some '.' ∧ t[1]?.any Char.isDigit then
    skip 1
    let _ ← takeWhile Char.isDigit

/-- Takes the distance of a time from universal time, if there is one. -/
def timeOffset : Reader Unit := do
  let c ← peek
  if c = some 'Z' ∨ c = some 'z' then
    skip 1
  else if c = some '+' ∨ c = some '-' then
    skip 1
    let _ ← twoDigits 0 23 "invalid time offset"
    expect [':'] "invalid time offset"
    let _ ← twoDigits 0 59 "invalid time offset"

def daysOfMonth (year month : Nat) : Nat :=
  if month = 2 then
    if year % 4 = 0 ∧ (year % 100 ≠ 0 ∨ year % 400 = 0) then 29 else 28
  else if month = 4 ∨ month = 6 ∨ month = 9 ∨ month = 11 then
    30
  else
    31

/-- Takes a date, the year and the dash of which have been seen, and a time if one follows. -/
def date : Reader Unit := do
  let year := numberOf 10 ((← ahead).take 4)
  skip 5
  let month ← twoDigits 1 12 "invalid date-time"
  expect ['-'] "invalid date-time"
  let here ← get
  let day ← twoDigits 1 31 "invalid date-time"
  if daysOfMonth year month < day then
    failAt here "invalid date-time\nvalue is out of range"
  let t ← ahead
  if t.head?.any (fun c => c = 'T' || c = 't' || c = ' ') ∧ startsTime (t.drop 1) then
    skip 1
    time
    timeOffset

def number (fuel : Nat) : Reader Scalar := do
  let start ← get
  if startsDate start.rest then
    date
    return .date
  else if startsTime start.rest then
    time
    return .date
  else if ← looksAt ['0', 'x'] then
    skip 2
    basedInteger start 16 "hexadecimal" fuel
  else if ← looksAt ['0', 'o'] then
    skip 2
    basedInteger start 8 "octal" fuel
  else if ← looksAt ['0', 'b'] then
    skip 2
    basedInteger start 2 "binary" fuel
  else
    decimalNumber start fuel

end Strata.Toml
