import Strata.Grammar.Pattern
import Strata.Token.Basic

/-!
# Constants

The rules that say what a literal constant is. They are tried in order, and the first one that
matches decides. A rule for numbers and words does not match in the middle of a word, but a dot
always separates: after `x`, the `.5` of `x.5` is a number.

* `constantRules`: the rules, the most specific first;
* `matchConstant`: the first rule that matches at a place, and how far.
-/

namespace Strata

structure ConstantRule where
  name : String
  /-- The kind of token that the rule finds. -/
  kind : Kind
  pattern : Pattern
  /-- The constant must not follow a character of a word. -/
  wordStart : Bool
deriving DecidableEq, Repr

namespace ConstantRule

open Pattern

/-- What stands between the quotes of a literal: an escape, or anything but the quote and the
backslash. -/
def quotedChar (quote : Char) : Pattern := alt (seq (lit '\\') any) (noneOf [quote, '\\'])

/-- A zero followed by the mark of a radix. -/
def radix (mark upper : Char) : Pattern := seq (lit '0') (oneOf [mark, upper])

def exponent : Pattern := seq (oneOf ['e', 'E']) (seq (opt (oneOf ['+', '-'])) (plus digit))

def suffix : Pattern := opt (oneOf ['f', 'F', 'l', 'L'])

/-- Text between double quotes. -/
def string : ConstantRule where
  name := "string"
  kind := .string
  pattern := seq (lit '"') (seq (star (quotedChar '"')) (lit '"'))
  wordStart := false

/-- One character between single quotes. -/
def char : ConstantRule where
  name := "char"
  kind := .char
  pattern := seq (lit '\'') (seq (quotedChar '\'') (lit '\''))
  wordStart := false

/-- Two single quotes with nothing between them, which are no constant. -/
def emptyChar : ConstantRule where
  name := "empty-char"
  kind := .unknown
  pattern := seq (lit '\'') (lit '\'')
  wordStart := false

def hex : ConstantRule where
  name := "hex"
  kind := .hex
  pattern := seq (radix 'x' 'X') (plus (within [('0', '9'), ('A', 'F'), ('a', 'f')]))
  wordStart := true

def binary : ConstantRule where
  name := "binary"
  kind := .binary
  pattern := seq (radix 'b' 'B') (plus (oneOf ['0', '1']))
  wordStart := true

def octal : ConstantRule where
  name := "octal"
  kind := .octal
  pattern := seq (lit '0') (plus (within [('0', '7')]))
  wordStart := true

/-- Floating-point numbers with a point. -/
def float : ConstantRule where
  name := "float"
  kind := .float
  pattern :=
    seq (alt (seq (plus digit) (seq (lit '.') (star digit))) (seq (lit '.') (plus digit)))
      (seq (opt exponent) suffix)
  wordStart := true

/-- Floating-point numbers with an exponent and no point. -/
def floatExponent : ConstantRule where
  name := "float-exponent"
  kind := .float
  pattern := seq (plus digit) (seq exponent suffix)
  wordStart := true

def decimal : ConstantRule where
  name := "decimal"
  kind := .decimal
  pattern := seq (plus digit) wordEdge
  wordStart := true

def bool : ConstantRule where
  name := "bool"
  kind := .bool
  pattern := seq (alt (word 't' ['r', 'u', 'e']) (word 'f' ['a', 'l', 's', 'e'])) wordEdge
  wordStart := true

/-- How many bytes the rule matches at a place. -/
def matchLen? (rule : ConstantRule) (here : Place) : Option Nat :=
  if rule.wordStart ∧ here.before.any isIdentChar ∧ here.peek? ≠ some '.' then
    none
  else
    rule.pattern.matchLen? here

end ConstantRule

/-- The rules for constants, in the order in which they are tried. -/
def constantRules : List ConstantRule :=
  [.string, .char, .emptyChar, .hex, .binary, .octal, .float, .floatExponent, .decimal, .bool]

/-- Whether a constant can start with a character. -/
def startsConstant (c : Char) : Bool :=
  c = '"' || c = '\'' || c = '.' || c = 't' || c = 'f' || c.isDigit

/-- The first rule that matches at a place, and the number of bytes it matches. -/
def matchConstant (here : Place) : Option (ConstantRule × Nat) :=
  if here.peek?.any startsConstant then
    constantRules.findSome? fun rule => (rule.matchLen? here).map fun len => (rule, len)
  else
    none

end Strata
