import Strata.Grammar.Profile
import Strata.Run.Layer
import Strata.Sweep.Comments
import Strata.Sweep.Constants
import Strata.Sweep.Layout
import Strata.Sweep.Literals
import Strata.Sweep.Symbols
import Strata.Sweep.Words

/-!
# Reading a text layer by layer

`Progress` is a text on its way through the layers: the layer it has reached, the text there, and
where each byte of it came from. What later sweeps share is kept: the literals, which the first
sweep for tokens finds, and the words, of which one layer takes the keywords and the next the
identifiers.

* `Progress.advance`: to the next layer;
* `Progress.run`: to a given layer, which must be the next one;
* `Progress.runTo`: to a later layer;
* `Progress.runRemaining`: to the last one.
-/

namespace Strata

/-- One step between two layers. -/
structure Passage where
  /-- The layer reached. -/
  layer : Layer
  /-- The text of the layer before. -/
  input : Text
  sweep : Sweep
  /-- From the text of the layer before to the raw text. -/
  inputOrigin : OffsetMap
  /-- How long the step took. -/
  nanos : Nat
deriving DecidableEq, Repr

namespace Passage

/-- Where a token of the step stands in the raw text. -/
def rawSpan (p : Passage) (token : Token) : Span := p.inputOrigin.spanToSource token.span

end Passage

inductive RunError where
  /-- Another layer comes first, or the layer has been passed. -/
  | outOfOrder (requested current : Layer)
  /-- There is no layer behind the last one. -/
  | complete
  /-- A sweep was torn. -/
  | fault (fault : Fault)
deriving DecidableEq, Repr

namespace RunError

def code : RunError → String
  | outOfOrder _ _ => "E040"
  | complete => "E041"
  | fault _ => "ERR001"

def message : RunError → String
  | outOfOrder requested current =>
    "Stage " ++ requested.name ++ " cannot run from " ++ current.name ++
      "; stages run strictly in order"
  | complete => "Pipeline already reached " ++ Layer.symbols.name
  | fault (.offset position) => "No character starts at offset " ++ toString position
  | fault (.backwards span) => "Span " ++ span.render ++ " ends before it starts"

end RunError

/-- A text on its way through the layers. -/
structure Progress where
  profile : Profile
  layer : Layer
  /-- The text of the layer. -/
  text : Text
  /-- From the text of the layer to the raw text. -/
  origin : OffsetMap
  /-- The literals of the text, once a sweep has asked for them. -/
  literals : Option Literals
  /-- The words of the text, while only the keywords among them have been taken. -/
  words : Option Sweep
deriving DecidableEq, Repr

namespace Progress

def start (source : Text) (profile : Profile) : Progress :=
  ⟨profile, .raw, source, OffsetMap.identity (byteLen source), none, none⟩

/-- The literals of the text, found now if they were not before. -/
def findLiterals (p : Progress) : Literals := p.literals.getD (Literals.ofText p.text)

/-- The words of the text, found now if they were not before. -/
def findWords (p : Progress) : Except Fault Sweep :=
  match p.words with
  | some words => .ok words
  | none => tagWords p.text p.findLiterals.all p.profile.keywords

/-- A sweep with the tokens of one kind only. -/
def keeping (kind : Kind) (s : Sweep) : Sweep :=
  { s with tokens := s.tokens.filter (·.kind = kind) }

/-- The sweep that leads to a layer, and what is known about the text after it. -/
def sweepTo (p : Progress) : Layer → Except Fault (Sweep × Progress)
  | .raw => .ok (Sweep.inPlace p.text [], p)
  | .uncommented => .ok (stripComments p.text, p)
  | .condensed => .ok (condenseLayout p.text, p)
  | .constants => do
    let literals := p.findLiterals
    return (← tagConstants p.text literals.ranges, { p with literals := some literals })
  | .keywords => do
    let literals := p.findLiterals
    let words ← p.findWords
    return (keeping .keyword words, { p with literals := some literals, words := some words })
  | .identifiers => do
    let literals := p.findLiterals
    let words ← p.findWords
    return (keeping .identifier words, { p with literals := some literals, words := none })
  | .symbols => do
    let literals := p.findLiterals
    return (← tagSymbols p.text literals.all p.profile.symbols,
      { p with literals := some literals })

/-- The step to a layer. -/
def pass (p : Progress) (layer : Layer) : Except RunError (Passage × Progress) :=
  match p.sweepTo layer with
  | .error fault => .error (.fault fault)
  | .ok (sweep, p') =>
    .ok (⟨layer, p.text, sweep, p.origin, 0⟩,
      { p' with layer, text := sweep.text, origin := sweep.origin.andThen p.origin })

def advance (p : Progress) : Except RunError (Passage × Progress) :=
  match p.layer.next? with
  | none => .error .complete
  | some layer => p.pass layer

/-- The step to a given layer, which must be the next one. -/
def run (p : Progress) (layer : Layer) : Except RunError (Passage × Progress) :=
  match p.layer.next? with
  | none => .error .complete
  | some next =>
    if next = layer then p.pass layer else .error (.outOfOrder layer p.layer)

def advanceBy (p : Progress) : Nat → Except RunError (List Passage × Progress)
  | 0 => .ok ([], p)
  | n + 1 => do
    let (passage, p') ← p.advance
    let (passages, p'') ← p'.advanceBy n
    return (passage :: passages, p'')

/-- The steps to a later layer. -/
def runTo (p : Progress) (target : Layer) : Except RunError (List Passage × Progress) :=
  if target.ordinal ≤ p.layer.ordinal then
    .error (.outOfOrder target p.layer)
  else
    p.advanceBy (target.ordinal - p.layer.ordinal)

/-- The steps to the last layer, of which there may be none left. -/
def runRemaining (p : Progress) : Except RunError (List Passage × Progress) :=
  p.advanceBy (Layer.symbols.ordinal - p.layer.ordinal)

end Progress

end Strata
