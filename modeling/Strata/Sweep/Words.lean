import Strata.Grammar.Keywords
import Strata.Sweep.Constants

/-!
# Finding words

A word is a whole run of word characters that starts like an identifier: `return_value` is one
identifier, and no keyword with something behind it. Literals and numbers are stepped over, so
neither the exponent of `1e5` nor the digits of `0x1F` start a word.
-/

namespace Strata

/-- Reports a word; steps over `skip`, numbers, other runs of word characters, and other
characters. -/
def wordStep (skip : SpanSet) (keywords : KeywordTable) (here : Place) : Move :=
  match skip.spanAt? here.offset with
  | some s => .pass (s.stop - here.offset)
  | none =>
    if here.peek?.any isIdentStart && atWordStart here then
      let word := here.rest.takeWhile isIdentChar
      .report (if keywords.contains word then .keyword else .identifier) (byteLen word)
    else
      match numberLen? here with
      | some len => .pass len
      | none => here.passOver

/-- Finds the keywords and identifiers of a text outside `skip`. -/
def tagWords (text : Text) (skip : SpanSet) (keywords : KeywordTable) : Except Fault Sweep :=
  Sweep.ofScan text (wordStep skip keywords)

end Strata
