import Strata.Run.Outcome
import Strata.Text.Escape

/-!
# Reports for readers

The outcome of a run as plain text: a table of tokens for each step, the diagnostics with the lines
that they are about, and a table of token counts.

* `Outcome.screen`: the whole text;
* `shownLexeme`: a lexeme as the tables show it.
-/

namespace Strata

def padRight (width : Nat) (s : String) : String :=
  s ++ String.ofList (List.replicate (width - s.length) ' ')

def padLeft (width : Nat) (s : String) : String :=
  String.ofList (List.replicate (width - s.length) ' ') ++ s

def lexemeWidth : Nat := 24

/-- A lexeme with every invisible character written out, cut to the width of its column. -/
def shownLexeme (lexeme : Text) : String :=
  let t := escaped lexeme
  if t.length ≤ lexemeWidth then String.ofList t
  else String.ofList (t.take (lexemeWidth - 3)) ++ "..."

def tokenRow (kind lexeme place : String) : String :=
  "  " ++ padRight 14 kind ++ " " ++ padRight lexemeWidth lexeme ++ " " ++ padLeft 9 place ++ "\n"

def countRow (label : String) (count : Nat) : String :=
  "  " ++ padRight 14 label ++ " " ++ padLeft 6 (toString count) ++ "\n"

/-- A step: the text after it and a table of its tokens. -/
def Passage.screen (p : Passage) (index : LineIndex) : Except Fault String := do
  let heading :=
    "== Stage " ++ toString p.layer.ordinal ++ ": " ++ p.layer.title ++ " (" ++ p.layer.name ++
      ") ==\n" ++ String.ofList p.sweep.text ++ "\n"
  if p.sweep.tokens = [] then
    return heading ++ "  (no tokens)\n"
  else
    let rows ← p.sweep.tokens.mapM fun t => do
      let position ← index.positionAt (p.rawSpan t).start
      return tokenRow t.kind.label (shownLexeme t.lexeme) position.render
    return heading ++ tokenRow "KIND" "LEXEME" "LINE:COL" ++ String.join rows

/-- A table of the numbers of tokens. -/
def Tally.screen (t : Tally) : String :=
  "== Token counts ==\n" ++
    String.join (t.rows.map fun (kind, count) => countRow kind.label count) ++
    countRow "total" t.total ++
    (match t.longest with
      | some lexeme => "  longest lexeme: " ++ shownLexeme lexeme ++ "\n"
      | none => "") ++
    "  comment bytes removed: " ++ toString t.commentBytes ++ "\n"

/-- The diagnostics of a run with their lines, if there are any. -/
def Outcome.diagnosticsScreen (o : Outcome) : Except Fault String :=
  if o.diagnostics = [] then
    .ok ""
  else
    (Diagnostic.excerpts o.lineIndex o.diagnostics).map (· ++ "\n")

/-- A run, with all of its steps and the counts, or with one step alone. -/
def Outcome.screen (o : Outcome) (only : Option Layer) : Except Fault String := do
  let steps ← (o.shown only).mapM fun p => (p.screen o.lineIndex).map (· ++ "\n")
  let diagnostics ← o.diagnosticsScreen
  return String.join steps ++ diagnostics ++ (if only.isNone then o.tally.screen else "")

end Strata
