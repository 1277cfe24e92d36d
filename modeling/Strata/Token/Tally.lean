import Strata.Token.Basic

/-!
# Tallies of tokens

How many tokens of each kind there were, the longest of them, and how much text went with the
comments. The tally of two runs of tokens is the sum of their tallies.

Each counter is a word of the machine. `record`, `recordAll` and `merge` give the sums themselves;
`record?`, `recordAll?` and `merge?` are what the machine does: they stop with nothing where a
counter goes over. A run counts without these checks, since its counters stay below six times the
length of its source.
-/

namespace Strata

/-- The place of a kind among all kinds. -/
def Kind.index : Kind → Fin 15
  | comment => 0
  | whitespace => 1
  | string => 2
  | char => 3
  | hex => 4
  | binary => 5
  | octal => 6
  | decimal => 7
  | float => 8
  | bool => 9
  | keyword => 10
  | identifier => 11
  | operator => 12
  | punctuator => 13
  | unknown => 14

/-- Counts of tokens. -/
structure Tally where
  /-- The number of tokens of each kind. -/
  counts : Vector Nat 15
  total : Nat
  /-- The first of the longest lexemes that are no trivia. -/
  longest : Option Text
  /-- The bytes of all comments. -/
  commentBytes : Nat
deriving DecidableEq, Repr

namespace Tally

def empty : Tally := ⟨Vector.replicate 15 0, 0, none, 0⟩

/-- The first of the longer of two lexemes. -/
def longer : Option Text → Option Text → Option Text
  | a, none => a
  | none, b => b
  | some a, some b => if byteLen a < byteLen b then some b else some a

def count (t : Tally) (kind : Kind) : Nat := t.counts[kind.index]

def record (t : Tally) (token : Token) : Tally where
  counts := t.counts.set token.kind.index (t.count token.kind + 1)
  total := t.total + 1
  longest := if token.kind.isTrivia then t.longest else longer t.longest (some token.lexeme)
  commentBytes :=
    if token.kind = .comment then t.commentBytes + token.span.len else t.commentBytes

def recordAll (t : Tally) (tokens : List Token) : Tally := tokens.foldl record t

def ofTokens (tokens : List Token) : Tally := empty.recordAll tokens

/-- The sum of two tallies. -/
def merge (s t : Tally) : Tally where
  counts := Vector.zipWith (· + ·) s.counts t.counts
  total := s.total + t.total
  longest := longer s.longest t.longest
  commentBytes := s.commentBytes + t.commentBytes

/-! ## Counters that go over -/

/-- What a counter of 64 bits stays below. -/
def counterLimit : Nat := 18446744073709551616

/-- Whether every counter is below the limit. -/
def fits (t : Tally) : Bool :=
  (Kind.all.all fun kind => t.count kind < counterLimit) && t.total < counterLimit &&
    t.commentBytes < counterLimit

/-- The tally, unless a counter has gone over. -/
def checked? (t : Tally) : Option Tally := if t.fits then some t else none

def record? (t : Tally) (token : Token) : Option Tally := (t.record token).checked?

/-- Tokens are recorded one by one, and each is checked. -/
def recordAll? (t : Tally) (tokens : List Token) : Option Tally := tokens.foldlM record? t

def merge? (s t : Tally) : Option Tally := (s.merge t).checked?

def ofTokens? (tokens : List Token) : Option Tally := empty.recordAll? tokens

/-! ## Groups of kinds -/

/-- The number of tokens of the kinds that satisfy `p`. -/
def countOf (t : Tally) (p : Kind → Bool) : Nat :=
  (Kind.all.filter p).foldr (fun kind n => t.count kind + n) 0

/-- The kinds that occur, with the number of their tokens. -/
def rows (t : Tally) : List (Kind × Nat) :=
  (Kind.all.map fun kind => (kind, t.count kind)).filter (0 < ·.2)

end Tally

end Strata
