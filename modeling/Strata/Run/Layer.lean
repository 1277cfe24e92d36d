import Strata.Text.Blank

/-!
# Layers

A source text is read in layers. The first is the raw text; each sweep leads to the next one, and
there is no other way to reach it.
-/

namespace Strata

/-- How far a text has been read. -/
inductive Layer where
  | raw
  | uncommented
  | condensed
  | constants
  | keywords
  | identifiers
  | symbols
deriving DecidableEq, Repr, Inhabited

namespace Layer

/-- Every layer, in the order in which they are reached. -/
def all : List Layer := [raw, uncommented, condensed, constants, keywords, identifiers, symbols]

/-- The number of a layer, counted from zero. -/
def ordinal : Layer → Nat
  | raw => 0
  | uncommented => 1
  | condensed => 2
  | constants => 3
  | keywords => 4
  | identifiers => 5
  | symbols => 6

def next? : Layer → Option Layer
  | raw => some uncommented
  | uncommented => some condensed
  | condensed => some constants
  | constants => some keywords
  | keywords => some identifiers
  | identifiers => some symbols
  | symbols => none

def isLast (l : Layer) : Bool := l.next?.isNone

/-- The first word of a layer's name. -/
def shortName : Layer → String
  | raw => "raw"
  | uncommented => "comments"
  | condensed => "whitespace"
  | constants => "constants"
  | keywords => "keywords"
  | identifiers => "identifiers"
  | symbols => "symbols"

/-- The name of a layer: what was done to reach it. -/
def name (l : Layer) : String :=
  match l with
  | raw => l.shortName
  | uncommented => l.shortName ++ "-stripped"
  | condensed => l.shortName ++ "-normalized"
  | _ => l.shortName ++ "-tagged"

def title : Layer → String
  | raw => "Source"
  | uncommented => "Comment removal"
  | condensed => "Whitespace normalization"
  | constants => "Constants"
  | keywords => "Keywords"
  | identifiers => "Identifiers"
  | symbols => "Operators and punctuators"

/-- The layer that a user names, by its name, the first word of it or its number. Case and white
space at the ends do not matter. -/
def ofName? (name : String) : Option Layer :=
  let name := String.ofList ((trimBlank name.toList).map Char.toLower)
  all.find? fun l => l.name == name || l.shortName == name || toString l.ordinal == name

end Layer

end Strata
