import Strata.Text.Basic

/-!
# Spans

A span is a half-open range of byte offsets into a text. Taking the part of a text that a span
covers fails where an end of the span is no boundary of the text; `Fault` names the ways in which
an offset can be wrong.
-/

namespace Strata

/-- The bytes from `start` up to, not including, `stop`. -/
structure Span where
  start : Nat
  stop : Nat
deriving DecidableEq, Repr, Inhabited

/-- Why a text cannot be addressed as asked. -/
inductive Fault where
  /-- The offset lies outside the text or inside one of its characters. -/
  | offset (position : Nat)
  /-- The span ends before it starts. -/
  | backwards (span : Span)
deriving DecidableEq, Repr

namespace Span

/-- The span of `len` bytes from `start` on. -/
def ofLen (start len : Nat) : Span := ⟨start, start + len⟩

def len (s : Span) : Nat := s.stop - s.start

/-- A span is empty where its ends meet. -/
def isEmpty (s : Span) : Bool := s.start = s.stop

def contains (s : Span) (offset : Nat) : Bool := s.start ≤ offset && offset < s.stop

def covers (s t : Span) : Bool := s.start ≤ t.start && t.stop ≤ s.stop

def overlaps (s t : Span) : Bool := s.start < t.stop && t.start < s.stop

/-- The least span that covers both. -/
def join (s t : Span) : Span := ⟨min s.start t.start, max s.stop t.stop⟩

/-- Spans are ordered by their start, then by their end. -/
def order (s t : Span) : Ordering := (compare s.start t.start).then (compare s.stop t.stop)

/-- `s` comes no later than `t`. -/
def le (s t : Span) : Bool := s.order t != .gt

/-- The written form of a span: `start..stop`. -/
def render (s : Span) : String := toString s.start ++ ".." ++ toString s.stop

end Span

def slice (t : Text) (s : Span) : Except Fault Text :=
  if s.stop < s.start then
    .error (.backwards s)
  else
    match dropBytes? s.start t with
    | none => .error (.offset s.start)
    | some back =>
      match takeBytes? (s.stop - s.start) back with
      | none => .error (.offset s.stop)
      | some front => .ok front

end Strata
