/-!
# Classes of characters

The classes that the grammar is written in. All of them hold ASCII characters only.
-/

namespace Strata

/-- A character that can start an identifier: a letter or an underscore. -/
def isIdentStart (c : Char) : Bool := c.isAlpha || c = '_'

/-- A character that can go on with an identifier: a letter, a digit or an underscore. -/
def isIdentChar (c : Char) : Bool := c.isAlphanum || c = '_'

/-- White space as source text knows it: blanks, tabs, line breaks and form feeds. -/
def isLayout (c : Char) : Bool := c = ' ' || c = '\t' || c = '\n' || c = '\r' || c = '\x0c'

/-- Whether a word is a letter or underscore followed by letters, digits and underscores. -/
def isIdentShaped : List Char → Bool
  | [] => false
  | c :: t => isIdentStart c && t.all isIdentChar

end Strata
