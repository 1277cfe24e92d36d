import Strata.Toml.Value

/-!
# Building tables

Tables are filled in the order of the file. A key of several parts leads through tables that are
made when they are missing, and so does a header. What has been written as a whole stays as it is:
neither a key of several parts nor a second header may add to it.

* `Entries.put`: a table with one more entry, at the end of a key of several parts;
* `Draft`: a file that has been read in part, with `Draft.header`, `Draft.field` and `Draft.close`.
-/

namespace Strata.Toml

/-- Why a table cannot be filled as it is written. -/
inductive Fault where
  /-- The key is taken, in the table that has the given path. -/
  | duplicate (key : String) (table : Option (List Text))
  /-- The parts of a key lead through something that is not a table. -/
  | notATable (path : List Text) (kind : String)
deriving DecidableEq, Repr

/-- The names of a path with dots between them. -/
def dottedPath (path : List Text) : String :=
  String.intercalate "." (path.map String.ofList)

def Fault.message : Fault → String
  | duplicate key none => "duplicate key `" ++ key ++ "`"
  | duplicate key (some []) => "duplicate key `" ++ key ++ "` in document root"
  | duplicate key (some path) =>
    "duplicate key `" ++ key ++ "` in table `" ++ dottedPath path ++ "`"
  | notATable path kind =>
    "dotted key `" ++ dottedPath path ++ "` attempted to extend non-table type (" ++ kind ++ ")"

/-- A character of a bare key. -/
def isKeyChar (c : Char) : Bool := c.isAlphanum || c = '_' || c = '-'

/-- A name as it is written as a key: bare if it can be, else between quotes, of the kind that needs
no escapes if there is one. -/
def keyText (name : Text) : String :=
  if name ≠ [] ∧ name.all isKeyChar then
    String.ofList name
  else if name.any fun c => c = '"' || c = '\\' || c.toNat < 0x20 || c.toNat = 0x7f then
    if name.any fun c => c = '\'' || c.toNat < 0x20 || c.toNat = 0x7f then
      String.ofList (quoted name)
    else
      "'" ++ String.ofList name ++ "'"
  else
    "\"" ++ String.ofList name ++ "\""

namespace Entries

/-- A table with one more entry, found by the tables that `path` leads through. `dotted` says
whether the whole key has several parts, and `passed` are those that have been followed. `owner` is
the path of the table that is written under a header, and nothing for one between braces. -/
def put (owner : Option (List Text)) (dotted : Bool) (key : Key) (value : Value)
    (passed : List Text) (form : TableForm) (entries : Entries) :
    List Key → Except Fault Entries
  | [] =>
    if (form == .dotted) != dotted then
      .error (.duplicate (String.ofList key.name) none)
    else if (get? entries key.name).isSome then
      .error (.duplicate (String.ofList key.name) owner)
    else
      .ok (entries ++ [(key, value)])
  | k :: path =>
    let here := passed ++ [k.name]
    match get? entries k.name with
    | none => do
      let inner ← put owner dotted key value here .dotted [] path
      return entries ++ [(k, .table .dotted none inner)]
    | some (.table form span inner) =>
      if form = .braces ∧ owner.isSome then
        .error (.notATable here (Value.table form span inner).kind)
      else if form = .braces ∨ form = .header then
        .error (.duplicate (String.ofList k.name) none)
      else do
        let inner ← put owner dotted key value here form inner path
        return set entries k.name (.table form span inner)
    | some (.tables earlier (span, last)) => do
      let last ← put owner dotted key value here .header last path
      return set entries k.name (.tables earlier (span, last))
    | some other => .error (.notATable here other.kind)

/-- A table with one of the tables in it changed by `f`: the one that the path of a header leads
to. Tables that are missing on the way are made. -/
def within (f : Entries → Except Fault Entries) (passed : List Text) (entries : Entries) :
    List Key → Except Fault Entries
  | [] => f entries
  | k :: path =>
    let here := passed ++ [k.name]
    match get? entries k.name with
    | none => do
      let inner ← within f here [] path
      return entries ++ [(k, .table .passed none inner)]
    | some (.table form span inner) =>
      if form = .braces then
        .error (.notATable here (Value.table form span inner).kind)
      else do
        let inner ← within f here inner path
        return set entries k.name (.table form span inner)
    | some (.tables earlier (span, last)) => do
      let last ← within f here last path
      return set entries k.name (.tables earlier (span, last))
    | some other => .error (.notATable here other.kind)

/-- The entries of the table that a path leads to, if there is one. -/
def inside (entries : Entries) : List Key → Entries
  | [] => entries
  | k :: path =>
    match get? entries k.name with
    | some (.table _ _ inner) => inside inner path
    | some (.tables _ (_, last)) => inside last path
    | _ => []

/-- The table that the entries between two braces make. -/
def ofPairs (pairs : List (List Key × Key × Value)) : Except Fault Entries :=
  pairs.foldlM (fun entries (path, key, value) =>
    put none (!path.isEmpty) key value [] .braces entries path) []

end Entries

/-- The part of a file under one header. The part before all headers has no path. -/
structure Section where
  path : List Key
  /-- Whether the header may come again, for one more table. -/
  repeated : Bool
  /-- From the header to the end of the last value under it. -/
  span : Span
  entries : Entries

/-- A file that has been read in part. -/
structure Draft where
  /-- All tables, without the one that is being filled. -/
  done : Entries
  /-- The span of the part before all headers. -/
  span : Span
  current : Section

namespace Draft

def empty : Draft := ⟨[], ⟨0, 0⟩, ⟨[], false, ⟨0, 0⟩, []⟩⟩

/-- All tables, with the one that has been filled. -/
def close (d : Draft) : Except Fault Entries :=
  let filled := d.current.entries
  match d.current.path.getLast? with
  | none => .ok filled
  | some key =>
    let add (entries : Entries) : Entries :=
      if d.current.repeated then
        match Entries.get? entries key.name with
        | some (.tables earlier last) =>
          Entries.set entries key.name (.tables (earlier ++ [last]) (d.current.span, filled))
        | _ => entries ++ [(key, .tables [] (d.current.span, filled))]
      else
        Entries.erase entries key.name ++ [(key, .table .header (some d.current.span) filled)]
    Entries.within (fun entries => .ok (add entries)) [] d.done d.current.path.dropLast

/-- Whether a header may give a value to a key that has the value `old`. -/
def mayOpen (repeated : Bool) (old : Option Value) : Bool :=
  match old with
  | none => true
  | some (.table .passed _ _) => !repeated
  | some (.tables _ _) => repeated
  | some _ => false

/-- A draft with one more header. -/
def header (d : Draft) (path : List Key) (repeated : Bool) (span : Span) : Except Fault Draft := do
  let done ← d.close
  let parent := path.dropLast
  let check (entries : Entries) : Except Fault Entries :=
    match path.getLast? with
    | none => .ok entries
    | some key =>
      if mayOpen repeated (Entries.get? entries key.name) then
        .ok entries
      else
        .error (.duplicate (keyText key.name) (some (parent.map (·.name))))
  let done ← Entries.within check [] done parent
  let kept := if repeated then [] else Entries.inside done path
  return ⟨done, d.span, ⟨path, repeated, span, kept⟩⟩

/-- A draft with one more entry under the last header. -/
def field (d : Draft) (path : List Key) (key : Key) (value : Value) : Except Fault Draft := do
  let owner := some (d.current.path.map (·.name))
  let entries ← Entries.put owner (!path.isEmpty) key value [] .header d.current.entries path
  let stop := (value.span?.getD d.current.span).stop
  let span : Span := ⟨d.current.span.start, stop⟩
  return { d with
    span := if d.current.path.isEmpty then span else d.span
    current := { d.current with span, entries } }

end Draft

end Strata.Toml
