import Strata.Text.Lines

/-!
# Errors in settings files

An error is shown with the line that it is about and a row of carets under its span.
-/

namespace Strata.Toml

/-- What is wrong with a file, and where. -/
structure Error where
  span : Span
  message : String
deriving DecidableEq, Repr

/-- What stands before the end of a text on its last line, and the number of lines before. -/
def lastLine (t : Text) : Nat × Text :=
  (t.count '\n', (t.reverse.takeWhile (· ≠ '\n')).reverse)

/-- The line and the column of an offset, both counted from zero. Columns count characters, but
before a character of several bytes they count bytes. The end of a file is one column behind its
last character, even if that ends a line. -/
def lineAndColumn (source : Text) (offset : Nat) : Nat × Nat :=
  if source = [] then
    (0, offset)
  else
    match splitAt? offset source with
    | some (before, c :: _) =>
      let (line, text) := lastLine before
      (line, if c.utf8Size = 1 then text.length else byteLen text)
    | _ =>
      let (line, text) := lastLine source.dropLast
      (line, text.length + 1)

/-- An error with the line that it is about and carets under the part of the span on that line. -/
def Error.render (source : Text) (e : Error) : String :=
  let (line, column) := lineAndColumn source e.span.start
  let shown := (splitLines source).getD line []
  let number := toString (line + 1)
  let margin := String.ofList (List.replicate (number.length + 1) ' ')
  let carets := max 1 (min (e.span.stop - e.span.start) (byteLen shown - column))
  "TOML parse error at line " ++ number ++ ", column " ++ toString (column + 1) ++ "\n" ++
    margin ++ "|\n" ++ number ++ " | " ++ String.ofList shown ++ "\n" ++
    margin ++ "|" ++ String.ofList (List.replicate (column + 1) ' ' ++ List.replicate carets '^') ++
    "\n" ++ e.message ++ "\n"

end Strata.Toml
