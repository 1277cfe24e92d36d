/-!
# Tries

A trie stores values under keys, which are strings of bytes, and finds the longest of its keys that
some bytes start with in one walk over them. Its nodes stand in one array, in the order in which
they were made, and lead to each other by their index; the first one is the root.

* `Trie.insert`: stores a value under a key;
* `Trie.longest?`: the length of the longest key that some bytes start with, and its value.
-/

namespace Strata

structure TrieNode (α : Type) where
  /-- The index of the node that each byte leads to. -/
  children : List (UInt8 × Nat)
  /-- What is stored under the key that ends here. -/
  value : Option α
deriving DecidableEq, Repr, Inhabited

/-- Values stored under keys. -/
structure Trie (α : Type) where
  nodes : Array (TrieNode α)
deriving DecidableEq, Repr, Inhabited

namespace Trie

variable {α : Type}

/-- The trie with nothing in it: a root that leads nowhere. -/
def empty : Trie α := ⟨#[⟨[], none⟩]⟩

/-- The index of the node that a byte leads to. -/
def child? (trie : Trie α) (node : Nat) (byte : UInt8) : Option Nat :=
  trie.nodes[node]?.bind (·.children.lookup byte)

def value? (trie : Trie α) (node : Nat) : Option α := trie.nodes[node]?.bind (·.value)

/-- Makes a node that a byte leads to. -/
def link (trie : Trie α) (node : Nat) (byte : UInt8) : Trie α :=
  ⟨(trie.nodes.push ⟨[], none⟩).modify node fun n =>
    { n with children := (byte, trie.nodes.size) :: n.children }⟩

/-- The node that a byte leads to, which is made if there is none. -/
def growBy (trie : Trie α) (node : Nat) (byte : UInt8) : Trie α × Nat :=
  match trie.child? node byte with
  | some next => (trie, next)
  | none => (trie.link node byte, trie.nodes.size)

/-- The node that bytes lead to, with all nodes on the way there. -/
def grow (trie : Trie α) (node : Nat) : List UInt8 → Trie α × Nat
  | [] => (trie, node)
  | byte :: bytes =>
    let (trie, next) := trie.growBy node byte
    grow trie next bytes

def store (trie : Trie α) (node : Nat) (value : α) : Trie α :=
  ⟨trie.nodes.modify node ({ · with value := some value })⟩

/-- Stores a value under a key, in place of what was there. -/
def insert (trie : Trie α) (key : List UInt8) (value : α) : Trie α :=
  let (trie, node) := trie.grow 0 key
  trie.store node value

/-- Walks on from a node, at which `len` bytes are behind and `best` is the last that was stored on
the way. -/
def longestFrom (trie : Trie α) (node len : Nat) (best : Option (Nat × α)) :
    List UInt8 → Option (Nat × α)
  | [] => best
  | byte :: bytes =>
    match trie.child? node byte with
    | none => best
    | some next =>
      longestFrom trie next (len + 1) (((trie.value? next).map (len + 1, ·)).or best) bytes

/-- The length of the longest key that some bytes start with, and what is stored under it. The empty
key is not looked at. -/
def longest? (trie : Trie α) (bytes : List UInt8) : Option (Nat × α) :=
  trie.longestFrom 0 0 none bytes

end Trie

end Strata
