import Strata.Text.Basic

/-!
# Places in a text

A place is where a reader of a text stands: what it has just read, how far it has come, and what
is still ahead.
-/

namespace Strata

/-- A place in a text. -/
structure Place where
  /-- The character that ends here. -/
  before : Option Char
  /-- The offset of the place in the text. -/
  offset : Nat
  /-- The text from here on. -/
  rest : Text
deriving DecidableEq, Repr

namespace Place

def start (t : Text) : Place := ⟨none, 0, t⟩

def next? (p : Place) : Option (Char × Place) :=
  match p.rest with
  | [] => none
  | c :: t => some (c, ⟨some c, p.offset + c.utf8Size, t⟩)

def peek? (p : Place) : Option Char := p.rest.head?

/-- The next `n` bytes, and the place after them, where `n` bytes end between two characters. -/
def take? (p : Place) (n : Nat) : Option (Text × Place) :=
  (splitAt? n p.rest).map fun (front, back) =>
    (front, ⟨front.getLast?.or p.before, p.offset + n, back⟩)

def at? (t : Text) (offset : Nat) : Option Place := ((start t).take? offset).map (·.2)

end Place

end Strata
