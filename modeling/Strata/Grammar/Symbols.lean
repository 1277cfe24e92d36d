import Strata.Grammar.Trie
import Strata.Text.Utf8

/-!
# Tables of symbols

The operators and punctuators of a language. A table lists its symbols longest first, and keeps a
trie of their bytes in which the longest one is found.

* `SymbolTable.ofList`: a table from symbols with their class; of a symbol listed twice the last
  class counts, and the empty symbol is left out;
* `SymbolTable.munch?`: the longest symbol that some bytes start with;
* `SymbolTable.longestMatch`: the longest symbol that a text starts with.
-/

namespace Strata

/-- What a symbol is for. -/
inductive SymbolClass where
  | operator
  | punctuator
deriving DecidableEq, Repr, Inhabited

def SymbolClass.label : SymbolClass → String
  | operator => "operator"
  | punctuator => "punctuator"

structure SymbolEntry where
  text : Text
  cls : SymbolClass
deriving DecidableEq, Repr

/-- The trie in which the bytes of symbols lead to their classes. -/
def trieOf (entries : List SymbolEntry) : Trie SymbolClass :=
  entries.foldl (fun trie e => trie.insert (encodeUtf8 e.text) e.cls) .empty

/-- A set of symbols, the longest first, symbols of one length in ascending order. -/
structure SymbolTable where
  entries : List SymbolEntry
  /-- Where the symbols are looked up. -/
  trie : Trie SymbolClass
  trie_eq : trie = trieOf entries
deriving Repr

namespace SymbolTable

/-- The table with the given entries. -/
def compile (entries : List SymbolEntry) : SymbolTable := ⟨entries, trieOf entries, rfl⟩

def empty : SymbolTable := compile []

instance : Inhabited SymbolTable := ⟨empty⟩

/-- The entries of a table say all about it. -/
theorem eq_of_entries {table other : SymbolTable} (h : table.entries = other.entries) :
    table = other := by
  rcases table with ⟨entries, trie, rfl⟩
  rcases other with ⟨entries', trie', rfl⟩
  obtain rfl : entries = entries' := h
  rfl

instance : DecidableEq SymbolTable := fun table other =>
  decidable_of_iff (table.entries = other.entries) ⟨eq_of_entries, congrArg entries⟩

/-- Whether a symbol stands before another in a table. -/
def precedes (s t : Text) : Bool :=
  byteLen t < byteLen s || (byteLen s = byteLen t && decide (s < t))

/-- Puts a symbol into its place. One that is there already gets the new class. -/
def insertInto (entry : SymbolEntry) : List SymbolEntry → List SymbolEntry
  | [] => [entry]
  | e :: es =>
    if precedes entry.text e.text then entry :: e :: es
    else if entry.text = e.text then entry :: es
    else e :: insertInto entry es

/-- The table with one more symbol; the empty one is left out. -/
def insert (table : SymbolTable) (entry : SymbolEntry) : SymbolTable :=
  if entry.text = [] then table else compile (insertInto entry table.entries)

def ofList (entries : List SymbolEntry) : SymbolTable := entries.foldl insert empty

/-- The table of the given operators and punctuators. A symbol in both lists is a punctuator. -/
def ofLists (operators punctuators : List Text) : SymbolTable :=
  ofList (operators.map (⟨·, .operator⟩) ++ punctuators.map (⟨·, .punctuator⟩))

/-- The symbols of one class, the longest first. -/
def symbolsOf (table : SymbolTable) (c : SymbolClass) : List Text :=
  (table.entries.filter (·.cls = c)).map (·.text)

def maxLen (table : SymbolTable) : Nat := (table.entries.head?.map (byteLen ·.text)).getD 0

/-- The longest symbol that some bytes start with: its number of bytes and its class. -/
def munch? (table : SymbolTable) (bytes : List UInt8) : Option (Nat × SymbolClass) :=
  table.trie.longest? bytes

/-- The longest symbol that a text starts with. It has no more characters than the longest symbol
has bytes, so no others are written as bytes. -/
def longestMatch (table : SymbolTable) (t : Text) : Option SymbolEntry := do
  let (len, cls) ← table.munch? (encodeUtf8 (t.take table.maxLen))
  let text ← takeBytes? len t
  return ⟨text, cls⟩

def classOf? (table : SymbolTable) (symbol : Text) : Option SymbolClass :=
  match table.munch? (encodeUtf8 symbol) with
  | some (len, cls) => if len = byteLen symbol then some cls else none
  | none => none

def cpp : SymbolTable :=
  ofLists
    ([">>=", "<<=", "->*", ".*", "->", "++", "--", "<<", ">>", "<=", ">=", "==", "!=", "&&", "||",
      "+=", "-=", "*=", "/=", "%=", "&=", "|=", "^=", "~", "!", "+", "-", "*", "/", "%", "&", "|",
      "^", "=", "<", ">", "?", ":", "."].map String.toList)
    (["...", "::", "##", ",", ";", "(", ")", "\x7b", "\x7d", "[", "]", "#"].map String.toList)

end SymbolTable

end Strata
