import Strata.Text.Hidden
import Strata.Text.Extender

/-!
# Escaped texts

Two ways of writing a text so that every character of it can be seen. Control characters have short
forms or their code point in braces; so has every character without a visible form.

* `quoted` puts the text between double quotes and also writes the code point of every character
  that extends the one before it;
* `escaped` has no quotes around it, escapes both kinds of quote, and leaves an extending character
  alone unless it comes first.
-/

namespace Strata

/-- The hexadecimal digits of a number, in lower case. -/
def hexDigits (n : Nat) : List Char := Nat.toDigits 16 n

/-- A character written by its code point, between braces. -/
def codeEscape (c : Char) : List Char := ['\\', 'u', '\x7b'] ++ hexDigits c.toNat ++ ['\x7d']

/-- Which characters are escaped besides the ones that always are. -/
structure EscapeStyle where
  single : Bool
  double : Bool
  extenders : Bool

/-- One character as it is written in a style. -/
def EscapeStyle.write (style : EscapeStyle) (c : Char) : List Char :=
  if c = '\x00' then ['\\', '0']
  else if c = '\t' then ['\\', 't']
  else if c = '\r' then ['\\', 'r']
  else if c = '\n' then ['\\', 'n']
  else if c = '\\' then ['\\', '\\']
  else if c = '"' ∧ style.double then ['\\', '"']
  else if c = '\'' ∧ style.single then ['\\', '\'']
  else if style.extenders ∧ isExtender c then codeEscape c
  else if isHidden c then codeEscape c
  else [c]

/-- A text between double quotes, with every invisible or extending character written out. -/
def quoted (t : List Char) : List Char :=
  '"' :: t.flatMap (EscapeStyle.write ⟨false, true, true⟩) ++ ['"']

/-- A text with every invisible character and every quote written out. -/
def escaped : List Char → List Char
  | [] => []
  | c :: t =>
    EscapeStyle.write ⟨true, true, true⟩ c ++ t.flatMap (EscapeStyle.write ⟨true, true, false⟩)

end Strata
