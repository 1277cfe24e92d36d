import Strata.Grammar.Profile
import Strata.Toml.Document

/-!
# Profiles from settings files

A profile is declared by a settings file with the fields `name`, `extends`, `keywords`, `operators`
and `punctuators`. Only the name must be there, and there may be no other field.

* `ProfileDecl.ofToml`: the declaration in a file;
* `Profile.ofToml`: the profile that a file declares.
-/

namespace Strata

namespace ProfileDecl

open Toml (Key Value Document Error)

/-- The string that a value is. A value that stands nowhere is pointed at by its key. -/
def stringOf (spare : Span) (v : Value) : Except Error Text :=
  match v with
  | .scalar _ (.string s) => .ok s
  | v => .error ⟨v.span?.getD spare, "invalid type: " ++ v.describe ++ ", expected a string"⟩

/-- The strings that a value is an array of. -/
def stringsOf (spare : Span) (v : Value) : Except Error (List Text) :=
  match v with
  | .array _ items => items.mapM (stringOf spare)
  | .tables earlier last =>
    (earlier ++ [last]).mapM fun (span, entries) =>
      stringOf spare (.table .header (some span) entries)
  | v => .error ⟨v.span?.getD spare, "invalid type: " ++ v.describe ++ ", expected a sequence"⟩

/-- The fields of a declaration that have been read so far. -/
structure Draft where
  name : Option Text
  base : Option Text
  keywords : List Text
  operators : List Text
  punctuators : List Text

def Draft.add (d : Draft) (entry : Key × Value) : Except Error Draft := do
  let (key, value) := entry
  match String.ofList key.name with
  | "name" => return { d with name := some (← stringOf key.span value) }
  | "extends" => return { d with base := some (← stringOf key.span value) }
  | "keywords" => return { d with keywords := ← stringsOf key.span value }
  | "operators" => return { d with operators := ← stringsOf key.span value }
  | "punctuators" => return { d with punctuators := ← stringsOf key.span value }
  | other =>
    throw ⟨key.span, "unknown field `" ++ other ++
      "`, expected one of `name`, `extends`, `keywords`, `operators`, `punctuators`"⟩

def ofDocument (document : Document) : Except Error ProfileDecl := do
  let d ← document.entries.foldlM Draft.add ⟨none, none, [], [], []⟩
  match d.name with
  | none => throw ⟨document.span, "missing field `name`"⟩
  | some name =>
    return ⟨String.ofList name, d.base.map String.ofList, d.keywords, d.operators, d.punctuators⟩

def ofToml (source : Text) : Except Error ProfileDecl := do ofDocument (← Document.read source)

end ProfileDecl

def Profile.ofToml (source : Text) : Except ProfileError Profile :=
  match ProfileDecl.ofToml source with
  | .error e => .error (.malformed (e.render source))
  | .ok decl => Profile.ofDecl decl

end Strata
