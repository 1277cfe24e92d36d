import Strata.Run.Diagnostic
import Strata.Token.Tally

/-!
# The outcome of a run

A run takes a text through all layers. Its outcome holds every step, the literals of the text, what
is wrong with it, and the tally of all tokens.
-/

namespace Strata

structure Outcome where
  /-- The file that the text came from. -/
  path : Option String
  profileName : String
  source : Text
  passages : List Passage
  literals : Literals
  diagnostics : List Diagnostic
  tally : Tally
  /-- How long the run took. -/
  nanos : Nat

/-- One line of a summary: a layer and the number of its tokens. -/
structure LayerSummary where
  layer : Layer
  tokens : Nat
  /-- The tokens that were classified. -/
  found : Nat
  /-- The bytes of the text left. -/
  outputLen : Nat
deriving DecidableEq, Repr

namespace Outcome

/-- Takes a text through all layers. -/
def ofText (source : Text) (profile : Profile) : Except RunError Outcome := do
  let (passages, progress) ← (Progress.start source profile).runRemaining
  let tally := passages.foldl (fun t p => t.recordAll p.sweep.tokens) Tally.empty
  match Diagnostic.ofPassages (LineIndex.ofText source) passages with
  | .error fault => throw (.fault fault)
  | .ok diagnostics =>
    return ⟨none, profile.name, source, passages, progress.literals.getD default, diagnostics,
      tally, 0⟩

/-- The outcome with a given duration for the run and each of its steps. -/
def stamped (o : Outcome) (nanos : Nat) : Outcome :=
  { o with nanos, passages := o.passages.map fun p => { p with nanos } }

def lineIndex (o : Outcome) : LineIndex := LineIndex.ofText o.source

/-- The text of the last layer reached. -/
def finalText (o : Outcome) : Text := (o.passages.getLast?.map (·.sweep.text)).getD o.source

/-- The steps that a report shows: all of them, or the one to a given layer. -/
def shown (o : Outcome) (only : Option Layer) : List Passage :=
  o.passages.filter fun p => only.all (· = p.layer)

def errorCount (o : Outcome) : Nat := Diagnostic.countOf .error o.diagnostics

def warningCount (o : Outcome) : Nat := Diagnostic.countOf .warning o.diagnostics

def hasErrors (o : Outcome) : Bool := 0 < o.errorCount

def summary (o : Outcome) : List LayerSummary :=
  o.passages.map fun p =>
    ⟨p.layer, p.sweep.tokens.length, p.sweep.found.length, byteLen p.sweep.text⟩

def totalTokens (o : Outcome) : Nat := o.summary.foldr (fun s n => s.tokens + n) 0

end Outcome

end Strata
