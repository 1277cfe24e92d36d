import Strata.Text.Span

/-!
# Offset maps

A text that was derived from another by copying parts of it keeps an `OffsetMap`: which bytes of
the source text each of its bytes came from. Maps compose, so that an offset can be followed through
several derivations.

* `OffsetMap.identity`: the map of a text that was copied whole;
* `OffsetMap.Builder`: a map under construction, one copied part after another;
* `OffsetMap.toSource`: where an offset of the derived text came from;
* `OffsetMap.andThen`: first one map, then the other.
-/

namespace Strata

/-- `len` bytes of the derived text, from `outStart` on, that were copied from `inStart`. -/
structure Copied where
  outStart : Nat
  inStart : Nat
  len : Nat
deriving DecidableEq, Repr, Inhabited

/-- From the offsets of a derived text of `outLen` bytes to those of a source of `inLen` bytes. -/
structure OffsetMap where
  /-- The copied parts, in the order of the derived text. An identity holds none. -/
  parts : List Copied
  outLen : Nat
  inLen : Nat
  /-- Every offset is its own source. -/
  isIdentity : Bool
deriving DecidableEq, Repr, Inhabited

namespace OffsetMap

/-- The map of a text of `len` bytes to itself. -/
def identity (len : Nat) : OffsetMap := ⟨[], len, len, true⟩

/-- A map under construction. -/
structure Builder where
  /-- The parts so far, the newest first. -/
  latest : List Copied
  outLen : Nat
  inLen : Nat

/-- Nothing copied yet from a source of `inLen` bytes. -/
def builder (inLen : Nat) : Builder := ⟨[], 0, inLen⟩

namespace Builder

/-- Adds a part at a given place. A part that goes on where the last one ends, on both sides,
lengthens it. -/
def push (b : Builder) (part : Copied) : Builder :=
  if part.len = 0 then
    b
  else
    let outLen := max b.outLen (part.outStart + part.len)
    match b.latest with
    | last :: older =>
      if last.outStart + last.len = part.outStart ∧ last.inStart + last.len = part.inStart then
        { b with latest := { last with len := last.len + part.len } :: older, outLen }
      else
        { b with latest := part :: b.latest, outLen }
    | [] => { b with latest := [part], outLen }

/-- Adds `len` bytes from `inStart` at the end of the derived text. -/
def copy (b : Builder) (inStart len : Nat) : Builder := b.push ⟨b.outLen, inStart, len⟩

/-- The finished map of a derived text of `outLen` bytes. -/
def finish (b : Builder) (outLen : Nat) : OffsetMap := ⟨b.latest.reverse, outLen, b.inLen, false⟩

end Builder

/-- The last part that starts at or before `offset`, or else `first`. -/
def partFrom (offset : Nat) (first : Copied) : List Copied → Copied
  | [] => first
  | p :: ps => if p.outStart ≤ offset then partFrom offset p ps else first

/-- The part that an offset belongs to: the last one that starts at or before it. An offset before
all of them belongs to the first. -/
def partAt (offset : Nat) : List Copied → Option Copied
  | [] => none
  | p :: ps => some (partFrom offset p ps)

/-- Where an offset of the derived text came from. One past the end of a part anchors after the
copied bytes. -/
def toSource (m : OffsetMap) (offset : Nat) : Nat :=
  if m.isIdentity then
    min offset m.inLen
  else
    match partAt offset m.parts with
    | none => 0
    | some p =>
      let delta := offset - p.outStart
      if delta < p.len then p.inStart + delta else min (p.inStart + p.len) m.inLen

/-- Where a span of the derived text came from: from the source of its first byte through that of
its last. -/
def spanToSource (m : OffsetMap) (s : Span) : Span :=
  let start := m.toSource s.start
  let stop := if s.isEmpty then start else m.toSource (s.stop - 1) + 1
  ⟨start, max stop start⟩

/-- How many of the next `count` offsets from `mid` on keep following `start` through `m`. -/
def runLength (m : OffsetMap) (mid start : Nat) : Nat → Nat → Nat
  | 0, run => run
  | count + 1, run =>
    if m.toSource (mid + run) = start + run then runLength m mid start count (run + 1) else run

/-- A run holds what it started with. -/
theorem le_runLength (m : OffsetMap) (mid start count run : Nat) :
    run ≤ m.runLength mid start count run := by
  induction count generalizing run with
  | zero => simp [runLength]
  | succ count ih =>
    unfold runLength
    split
    · exact Nat.le_trans (Nat.le_succ run) (ih (run + 1))
    · exact Nat.le_refl run

/-- Adds the part `outStart`, `mid` of length `left`, split wherever `m` jumps. -/
def pushThrough (m : OffsetMap) (b : Builder) (outStart mid left : Nat) : Builder :=
  if h : left = 0 then
    b
  else
    let start := m.toSource mid
    let run := m.runLength mid start (left - 1) 1
    have : left - run < left := by
      have := m.le_runLength mid start (left - 1) 1
      omega
    pushThrough m (b.push ⟨outStart, start, run⟩) (outStart + run) (mid + run) (left - run)
  termination_by left
  decreasing_by exact this

/-- `outer` leads to a text that `inner` leads on from: the map from the first text of `outer` to
the last of `inner`. -/
def andThen (outer inner : OffsetMap) : OffsetMap :=
  if outer.isIdentity then
    { inner with outLen := outer.outLen }
  else if inner.isIdentity then
    { outer with inLen := inner.inLen }
  else
    (outer.parts.foldl (fun b p => inner.pushThrough b p.outStart p.inStart p.len)
      (builder inner.inLen)).finish outer.outLen

end OffsetMap

end Strata
