import Strata.Decimal.Duration
import Strata.Text.Escape

/-!
# Stamps of reports

Two reports of the same run differ in nothing but their stamp: an identifier that is drawn at
random, and the time at which the report was made.

* `Stamp.ofSeed`: the stamp of a report made at some instant;
* `instantText`: an instant as a date with the time of day;
* `identifierText`: 128 bits in the written form of a random identifier.

An instant is a number of nanoseconds since the start of 1970.
-/

namespace Strata

/-- What sets a report apart from others of the same run. -/
structure Stamp where
  runId : String
  generatedAt : String
deriving DecidableEq, Repr

structure Date where
  year : Nat
  month : Nat
  day : Nat
deriving DecidableEq, Repr

/-- The date of a day that is counted from the start of 1970. Years are taken to start in March, so
that a leap day comes last; 400 of them have 146097 days. -/
def Date.ofDays (days : Nat) : Date :=
  let shifted := days + 719468
  let inEra := shifted % 146097
  let yearOfEra := (inEra - inEra / 1460 + inEra / 36524 - inEra / 146096) / 365
  let inYear := inEra - (365 * yearOfEra + yearOfEra / 4 - yearOfEra / 100)
  let marchMonth := (5 * inYear + 2) / 153
  let day := inYear - (153 * marchMonth + 2) / 5 + 1
  let year := 400 * (shifted / 146097) + yearOfEra
  if marchMonth < 10 then ⟨year, marchMonth + 3, day⟩ else ⟨year + 1, marchMonth - 9, day⟩

example : Date.ofDays 0 = ⟨1970, 1, 1⟩ := by decide

example : Date.ofDays 11016 = ⟨2000, 2, 29⟩ := by decide

/-- A number with at least `width` digits. -/
def padDigits (width n : Nat) : String :=
  let digits := toString n
  String.ofList (List.replicate (width - digits.length) '0') ++ digits

/-- The part of a second, in as many groups of three digits as it needs. -/
def fractionText (nanos : Nat) : String :=
  if nanos = 0 then ""
  else if nanos % 1000000 = 0 then "." ++ padDigits 3 (nanos / 1000000)
  else if nanos % 1000 = 0 then "." ++ padDigits 6 (nanos / 1000)
  else "." ++ padDigits 9 nanos

/-- An instant as a date and a time of day. -/
def instantText (nanos : Nat) : String :=
  let seconds := nanos / nanosPerSecond
  let date := Date.ofDays (seconds / 86400)
  let ofDay := seconds % 86400
  padDigits 4 date.year ++ "-" ++ padDigits 2 date.month ++ "-" ++ padDigits 2 date.day ++ "T" ++
    padDigits 2 (ofDay / 3600) ++ ":" ++ padDigits 2 (ofDay / 60 % 60) ++ ":" ++
    padDigits 2 (ofDay % 60) ++ fractionText (nanos % nanosPerSecond) ++ "Z"

/-- The last `count` hexadecimal digits of a number. -/
def lastHexDigits (count n : Nat) : List Char :=
  let digits := List.replicate count '0' ++ hexDigits n
  digits.drop (digits.length - count)

/-- 128 bits as an identifier. Six of them say that the others were drawn at random. -/
def identifierText (bits : Nat) : String :=
  let digits := lastHexDigits 32 bits
  let part (start stop : Nat) : List Char := (digits.take stop).drop start
  let variant := ['8', '9', 'a', 'b'].getD (bits % 4) '8'
  String.ofList (part 0 8 ++ '-' :: part 8 12 ++ '-' :: '4' :: part 13 16 ++ '-' :: variant ::
    part 17 20 ++ '-' :: part 20 32)

/-- The stamp of the report with a number. Reports of one seed have identifiers of their own. -/
def Stamp.ofSeed (seed nanos number : Nat) : Stamp :=
  ⟨identifierText (seed + number), instantText nanos⟩

end Strata
