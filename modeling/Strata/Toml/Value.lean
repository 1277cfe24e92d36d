import Strata.Decimal.Double
import Strata.Text.Escape
import Strata.Text.Span

/-!
# Values of settings files

A settings file is a table: an ordered list of entries, each a key and a value. Keys and values know
where they stand in the file, so that a message can point at them. A table that was never written as
one, but only named on the way to another, stands nowhere.
-/

namespace Strata.Toml

/-- A key with its place in the file. -/
structure Key where
  name : Text
  span : Span
deriving DecidableEq, Repr

/-- A value without parts. -/
inductive Scalar where
  | string (s : Text)
  | integer (i : Int)
  | float (x : Double)
  | boolean (b : Bool)
  /-- A date, a time or both. No setting is one, so nothing more is known of it. -/
  | date
deriving DecidableEq, Repr

/-- How a table has come into being. Where a table may be added to depends on it. -/
inductive TableForm where
  /-- By a header of its own. The table of the whole file counts as such. -/
  | header
  /-- As a table on the way to the one that a header names. -/
  | passed
  /-- By a key of several parts. -/
  | dotted
  /-- By its entries between braces. -/
  | braces
deriving DecidableEq, Repr

inductive Value where
  | scalar (span : Span) (s : Scalar)
  | array (span : Span) (items : List Value)
  | table (form : TableForm) (span : Option Span) (entries : List (Key × Value))
  /-- Tables that share a header, each with the span of what is written under it. -/
  | tables (earlier : List (Span × List (Key × Value))) (last : Span × List (Key × Value))

/-- The entries of a table in the order in which they came into being. -/
abbrev Entries := List (Key × Value)

namespace Value

def span? : Value → Option Span
  | scalar span _ => some span
  | array span _ => some span
  | table _ span _ => span
  | tables [] last => some last.1
  | tables (first :: _) last => some ⟨first.1.start, last.1.stop⟩

/-- What a value is called when a key leads through it that should lead to a table. -/
def kind : Value → String
  | scalar _ (.string _) => "string"
  | scalar _ (.integer _) => "integer"
  | scalar _ (.float _) => "float"
  | scalar _ (.boolean _) => "boolean"
  | scalar _ .date => "datetime"
  | array _ _ => "array"
  | table _ _ _ => "inline table"
  | tables _ _ => "array of tables"

/-- What a value is called when another type is expected of it. -/
def describe : Value → String
  | scalar _ (.string s) => "string " ++ String.ofList (quoted s)
  | scalar _ (.integer i) => "integer `" ++ toString i ++ "`"
  | scalar _ (.float x) => "floating point `" ++ x.render ++ "`"
  | scalar _ (.boolean b) => "boolean `" ++ (if b then "true" else "false") ++ "`"
  | scalar _ .date => "map"
  | table _ _ _ => "map"
  | array _ _ => "sequence"
  | tables _ _ => "sequence"

end Value

namespace Entries

def get? (entries : Entries) (name : Text) : Option Value :=
  (entries.find? (·.1.name = name)).map (·.2)

/-- The entries with another value for a key that is there. -/
def set (entries : Entries) (name : Text) (value : Value) : Entries :=
  entries.map fun (k, v) => if k.name = name then (k, value) else (k, v)

def erase (entries : Entries) (name : Text) : Entries :=
  entries.filter fun (k, _) => k.name ≠ name

end Entries

end Strata.Toml
