import Strata.Grammar.Character
import Strata.Text.Place

/-!
# Patterns

Regular patterns over characters, matched from a given place on. Of two alternatives the first one
that leads to a match is taken, and a repetition goes on as long as it can; `Pattern.search` tries
them in this order. `Pattern.render` is the usual written form.
-/

namespace Strata

/-- A member of a class of characters. -/
inductive ClassItem where
  | single (c : Char)
  | range (first last : Char)
deriving DecidableEq, Repr

/-- A class of characters, or what it leaves out. -/
structure CharClass where
  negated : Bool
  items : List ClassItem
deriving DecidableEq, Repr

/-- Whether a character is one of an item's. -/
def ClassItem.holds : ClassItem → Char → Bool
  | single d, c => c = d
  | range first last, c => first ≤ c && c ≤ last

/-- Whether a character belongs to a class. -/
def CharClass.holds (k : CharClass) (c : Char) : Bool := k.items.any (·.holds c) != k.negated

inductive Pattern where
  /-- One given character. -/
  | lit (c : Char)
  /-- One character of a class. -/
  | one (k : CharClass)
  /-- Any one character. -/
  | any
  /-- One pattern, then the other. -/
  | seq (p q : Pattern)
  /-- The first pattern, or else the second. -/
  | alt (p q : Pattern)
  /-- The pattern, or nothing. -/
  | opt (p : Pattern)
  /-- The pattern, any number of times. -/
  | star (p : Pattern)
  /-- The pattern, once or more. -/
  | plus (p : Pattern)
  /-- A place where a word starts or ends. -/
  | wordEdge
deriving DecidableEq, Repr

namespace Pattern

def oneOf (cs : List Char) : Pattern := one ⟨false, cs.map .single⟩

def noneOf (cs : List Char) : Pattern := one ⟨true, cs.map .single⟩

def within (ranges : List (Char × Char)) : Pattern :=
  one ⟨false, ranges.map fun (first, last) => .range first last⟩

def digit : Pattern := within [('0', '9')]

/-- A given word of two letters or more, letter by letter. -/
def word (c : Char) : List Char → Pattern
  | [] => lit c
  | d :: t => seq (lit c) (word d t)

/-- A character that satisfies `ok`, then whatever `found` finds. -/
def oneChar {α : Type} (ok : Char → Bool) (here : Place) (found : Place → Option α) : Option α :=
  match here.next? with
  | some (c, there) => if ok c then found there else none
  | none => none

/-- As many steps as possible, each of which gets ahead, then whatever `found` finds. The number of
steps is bounded by the characters of `bound`. -/
def repeated {α : Type} (step : Place → (Place → Option α) → Option α) (found : Place → Option α) :
    Text → Place → Option α
  | [], here => found here
  | _ :: bound, here =>
    (step here fun there =>
        if here.offset < there.offset then repeated step found bound there else none)
      <|> found here

/-- Whether a word starts or ends at a place. -/
def isWordEdge (here : Place) : Bool := here.before.any isIdentChar != here.peek?.any isIdentChar

/-- Looks for a way to match the pattern from `here` on after which `found` finds something, and
says what it found. -/
def search {α : Type} : Pattern → Place → (Place → Option α) → Option α
  | lit c, here, found => oneChar (· = c) here found
  | one k, here, found => oneChar k.holds here found
  | any, here, found => oneChar (fun _ => true) here found
  | seq p q, here, found => search p here fun there => search q there found
  | alt p q, here, found => search p here found <|> search q here found
  | opt p, here, found => search p here found <|> found here
  | star p, here, found => repeated (search p) found here.rest here
  | plus p, here, found => search p here fun there => repeated (search p) found there.rest there
  | wordEdge, here, found => if isWordEdge here then found here else none

/-- The number of bytes that the pattern matches from `here` on. -/
def matchLen? (p : Pattern) (here : Place) : Option Nat :=
  p.search here fun there => some (there.offset - here.offset)

def renderChar (c : Char) : List Char := if c = '\\' ∨ c = '.' then ['\\', c] else [c]

def renderItem : ClassItem → List Char
  | .single c => if c = '\\' then ['\\', c] else [c]
  | .range first last => [first, '-', last]

/-- How tightly the parts of a written pattern hold together. -/
inductive Binding where
  | loose
  | joined
  | tight
deriving DecidableEq

def group (t : List Char) : List Char := "(?:".toList ++ t ++ [')']

/-- The written form of a pattern where at least a given binding is asked for. -/
def renderAs : Pattern → Binding → List Char
  | lit c, _ => renderChar c
  | one k, _ => '[' :: (if k.negated then ['^'] else []) ++ k.items.flatMap renderItem ++ [']']
  | any, _ => "(?s:.)".toList
  | seq p q, b =>
    let t := renderAs p .joined ++ renderAs q .joined
    if b = .tight then group t else t
  | alt p q, b =>
    let t := renderAs p .joined ++ '|' :: renderAs q .loose
    if b = .loose then t else group t
  | opt p, _ => renderAs p .tight ++ ['?']
  | star p, _ => renderAs p .tight ++ ['*']
  | plus p, _ => renderAs p .tight ++ ['+']
  | wordEdge, _ => "(?-u:\\b)".toList

/-- The written form of a pattern that is tied to the place where matching starts. -/
def render (p : Pattern) : String := String.ofList ('^' :: renderAs p .joined)

end Pattern

end Strata
