import Strata.Text.Escape
import Strata.Text.Span

/-!
# Tokens

A token is a classified part of a text: what kind of lexeme it is, where it stands, and what it
says. `Kind` lists the kinds of lexeme; the groups of kinds that the reports count together are
predicates on it.
-/

namespace Strata

inductive Kind where
  | comment
  | whitespace
  | string
  | char
  | hex
  | binary
  | octal
  | decimal
  | float
  | bool
  | keyword
  | identifier
  | operator
  | punctuator
  /-- Text that nothing classifies, or a constant that was accounted for elsewhere. -/
  | unknown
deriving DecidableEq, Repr, Inhabited

namespace Kind

/-- Every kind, in the order in which they are counted. -/
def all : List Kind :=
  [comment, whitespace, string, char, hex, binary, octal, decimal, float, bool, keyword,
    identifier, operator, punctuator, unknown]

def label : Kind → String
  | comment => "comment"
  | whitespace => "whitespace"
  | string => "string-literal"
  | char => "char-literal"
  | hex => "hex-int"
  | binary => "bin-int"
  | octal => "oct-int"
  | decimal => "dec-int"
  | float => "float"
  | bool => "bool"
  | keyword => "keyword"
  | identifier => "identifier"
  | operator => "operator"
  | punctuator => "punctuator"
  | unknown => "unknown"

def ofLabel? (name : String) : Option Kind := all.find? (·.label == name)

def isInteger : Kind → Bool
  | hex | binary | octal | decimal => true
  | _ => false

def isNumber (k : Kind) : Bool := k.isInteger || k = float

/-- Literal constants of any type. -/
def isConstant (k : Kind) : Bool := k.isNumber || k = string || k = char || k = bool

def isSymbol : Kind → Bool
  | operator | punctuator => true
  | _ => false

def isWord : Kind → Bool
  | keyword | identifier => true
  | _ => false

/-- Comments and whitespace, which are removed and not reported. -/
def isTrivia : Kind → Bool
  | comment | whitespace => true
  | _ => false

end Kind

/-- A classified part of a text. -/
structure Token where
  kind : Kind
  lexeme : Text
  /-- Where the lexeme stands in the text that was scanned. -/
  span : Span
deriving DecidableEq, Repr, Inhabited

namespace Token

/-- The written form of a token: its kind, its quoted lexeme and its span. -/
def render (t : Token) : String :=
  t.kind.label ++ " " ++ String.ofList (quoted t.lexeme) ++ " @ " ++ t.span.render

end Token

end Strata
