import Strata.Grammar.Symbols
import Strata.Sweep.Constants

/-!
# Finding symbols

At each place the longest symbol of the table counts. Literals, layout, numbers and words are
stepped over; any other character that starts no symbol is reported as unknown.
-/

namespace Strata

def SymbolClass.kind : SymbolClass → Kind
  | operator => .operator
  | punctuator => .punctuator

/-- Reports a symbol or an unknown character; steps over `skip`, layout, numbers and words. -/
def symbolStep (skip : SpanSet) (table : SymbolTable) (here : Place) : Move :=
  match skip.spanAt? here.offset, here.rest with
  | some s, _ => .pass (s.stop - here.offset)
  | none, [] => .pass 0
  | none, c :: _ =>
    if isLayout c then
      .pass 1
    else
      match numberLen? here with
      | some len => .pass len
      | none =>
        if isIdentChar c then
          .pass (wordLen here.rest)
        else
          match table.longestMatch here.rest with
          | some entry => .report entry.cls.kind (byteLen entry.text)
          | none => .report .unknown c.utf8Size

/-- Finds the operators and punctuators of a text outside `skip`. -/
def tagSymbols (text : Text) (skip : SpanSet) (table : SymbolTable) : Except Fault Sweep :=
  Sweep.ofScan text (symbolStep skip table)

end Strata
