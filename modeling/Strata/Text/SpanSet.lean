import Strata.Text.Span

/-!
# Sets of spans

A `SpanSet` holds the bytes that some spans cover, as the fewest spans that cover them: they are in
order, none is empty, and no two touch. It answers which of its spans covers an offset.
-/

namespace Strata

/-- Covered bytes, as separate spans in order. -/
structure SpanSet where
  spans : List Span
deriving DecidableEq, Repr, Inhabited

namespace SpanSet

def empty : SpanSet := ⟨[]⟩

/-- Joins spans that come in order of their start to `current`, where they overlap or touch it. -/
def joinInto (current : Span) : List Span → List Span
  | [] => [current]
  | s :: ss =>
    if s.start ≤ current.stop then
      joinInto ⟨current.start, max current.stop s.stop⟩ ss
    else
      current :: joinInto s ss

/-- Joins spans that come in order of their start, where they overlap or touch. -/
def joinSorted : List Span → List Span
  | [] => []
  | s :: ss => joinInto s ss

/-- The bytes that any of the given spans covers. -/
def ofSpans (spans : List Span) : SpanSet :=
  ⟨joinSorted ((spans.filter (!·.isEmpty)).mergeSort Span.le)⟩

/-- The span that covers an offset: if any does, it is the first one that ends behind it. -/
def spanAt? (s : SpanSet) (offset : Nat) : Option Span :=
  (s.spans.find? (offset < ·.stop)).filter (·.contains offset)

def contains (s : SpanSet) (offset : Nat) : Bool := (s.spanAt? offset).isSome

end SpanSet

end Strata
