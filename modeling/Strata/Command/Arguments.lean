import Strata.Batch.Discovery
import Strata.Run.Layer

/-!
# The command line

One input and any options, in any order. A long option has its value behind an equals sign or in the
next argument; short options can be put together. Behind `--` there are no options. The first
argument that is wrong decides, and so does a request for help that comes before it.

* `Request.ofArguments`: what a command line asks for, or what is wrong with it;
* `Request.pathsOf`: which files and directories it is about.
-/

namespace Strata

inductive ReportForm where
  | text
  | json
deriving DecidableEq, Repr

/-- What a command line can say about a run. -/
structure Options where
  /-- A source file, or a directory for a batch. -/
  input : String
  /-- The only layer that is shown. -/
  only : Option Layer
  form : ReportForm
  /-- A built-in profile, or the file that declares one. -/
  profile : Option String
  workers : Nat
  recursive : Bool
  failFast : Bool
  quiet : Bool
  verbosity : Nat
deriving DecidableEq, Repr

inductive Request where
  | run (options : Options)
  | help
  | version
deriving DecidableEq, Repr

inductive ArgumentError where
  | missingInput
  | unexpected (argument : String)
  | missingValue (option : String)
  | needlessValue (option value : String)
  | invalidValue (option value reason : String)
  | repeated (option : String)
deriving DecidableEq, Repr

def ArgumentError.message : ArgumentError → String
  | missingInput => "the following required arguments were not provided:\n  <INPUT>"
  | unexpected argument => "unexpected argument '" ++ argument ++ "' found"
  | missingValue option => "a value is required for '" ++ option ++ "' but none was supplied"
  | needlessValue option value => "unexpected value '" ++ value ++ "' for '" ++ option ++ "' found"
  | invalidValue option value reason =>
    "invalid value '" ++ value ++ "' for '" ++ option ++ "': " ++ reason
  | repeated option => "the argument '" ++ option ++ "' cannot be used multiple times"

namespace Options

/-- The layer that a value names. The raw text is none to be shown. -/
def layerOf (value : String) : Except String Layer :=
  match Layer.ofName? value with
  | some .raw => .error "the raw source is not a stage; pick 1-6"
  | some layer => .ok layer
  | none => .error ("unknown stage '" ++ value ++ "'")

def formOf (value : String) : Except String ReportForm :=
  match value with
  | "text" => .ok .text
  | "json" => .ok .json
  | _ => .error "[possible values: text, json]"

/-- The greatest number of 64 bits. -/
def greatestNumber : Nat := 18446744073709551615

/-- The number that a value is, of at most 64 bits. -/
def numberOf (value : String) : Except String Nat :=
  let digits := match value.toList with
    | '+' :: digits => digits
    | digits => digits
  if digits = [] then .error "cannot parse integer from empty string"
  else if !digits.all Char.isDigit then .error "invalid digit found in string"
  else
    let n := digits.foldl (fun n c => 10 * n + (c.toNat - '0'.toNat)) 0
    if n ≤ greatestNumber then .ok n else .error "number too large to fit in target type"

end Options

namespace Request

/-- What has been read of a command line. -/
structure Draft where
  input : Option String
  only : Option Layer
  form : Option ReportForm
  profile : Option String
  workers : Option Nat
  flat : Bool
  failFast : Bool
  quiet : Bool
  verbosity : Nat

def Draft.empty : Draft := ⟨none, none, none, none, none, false, false, false, 0⟩

/-- A value that is given once. -/
def once {α : Type} (option : String) (old : Option α) (value : α) :
    Except ArgumentError (Option α) :=
  if old.isSome then .error (.repeated option) else .ok (some value)

def onceFlag (option : String) (old : Bool) : Except ArgumentError Bool :=
  if old then .error (.repeated option) else .ok true

def readAs {α : Type} (option value : String) (result : Except String α) : Except ArgumentError α :=
  result.mapError (.invalidValue option value)

def Draft.addInput (d : Draft) (value : String) : Except ArgumentError Draft := do
  if d.input.isSome then throw (.unexpected value)
  if value = "" then throw (.missingValue "<INPUT>")
  return { d with input := some value }

def hasValue (option : String) : Bool :=
  ["--stage", "--format", "--profile", "--threads"].contains option

def Draft.addValue (d : Draft) (option value : String) : Except ArgumentError Draft := do
  match option with
  | "--stage" =>
    return { d with only := ← once option d.only (← readAs option value (Options.layerOf value)) }
  | "--format" =>
    return { d with form := ← once option d.form (← readAs option value (Options.formOf value)) }
  | "--profile" => return { d with profile := ← once option d.profile value }
  | "--threads" =>
    return { d with
      workers := ← once option d.workers (← readAs option value (Options.numberOf value)) }
  | _ => throw (.unexpected option)

/-- What a flag does: it changes the draft or ends the reading. -/
def Draft.addFlag (d : Draft) (flag : String) : Except ArgumentError (Draft ⊕ Request) := do
  match flag with
  | "--no-recursive" => return .inl { d with flat := ← onceFlag flag d.flat }
  | "--fail-fast" => return .inl { d with failFast := ← onceFlag flag d.failFast }
  | "--quiet" => return .inl { d with quiet := ← onceFlag flag d.quiet }
  | "--verbose" => return .inl { d with verbosity := d.verbosity + 1 }
  | "--help" => return .inr .help
  | "--version" => return .inr .version
  | _ => throw (.unexpected flag)

/-- The flag that a letter stands for. -/
def flagOf? : Char → Option String
  | 'q' => some "--quiet"
  | 'v' => some "--verbose"
  | 'h' => some "--help"
  | 'V' => some "--version"
  | _ => none

/-- Flags by their letters, one after the other. -/
def Draft.addLetters (d : Draft) : List Char → Except ArgumentError (Draft ⊕ Request)
  | [] => .ok (.inl d)
  | c :: cs =>
    match flagOf? c with
    | none => .error (.unexpected (String.ofList ['-', c]))
    | some flag =>
      match d.addFlag flag with
      | .ok (.inl d') => d'.addLetters cs
      | other => other

/-- An argument as an option and the value behind its equals sign. -/
def splitOption (argument : List Char) : String × Option String :=
  let name := argument.takeWhile (· ≠ '=')
  match argument.drop name.length with
  | [] => (String.ofList name, none)
  | _ :: value => (String.ofList name, some (String.ofList value))

/-- Whether an argument can be a value: it does not look like an option. -/
def isValue (argument : String) : Bool :=
  match argument.toList with
  | '-' :: _ :: _ => false
  | _ => true

/-- The inputs behind `--`. -/
def Draft.addInputs (d : Draft) (arguments : List String) : Except ArgumentError Draft :=
  arguments.foldlM addInput d

def Draft.add (d : Draft) : List String → Except ArgumentError (Draft ⊕ Request)
  | [] => .ok (.inl d)
  | argument :: rest =>
    match argument.toList with
    | ['-', '-'] => (d.addInputs rest).map .inl
    | '-' :: '-' :: _ =>
      match splitOption argument.toList with
      | (option, some value) =>
        if hasValue option then do (← d.addValue option value).add rest
        else if (d.addFlag option).isOk then .error (.needlessValue option value)
        else .error (.unexpected option)
      | (option, none) =>
        if hasValue option then
          match rest with
          | value :: rest =>
            if isValue value then do (← d.addValue option value).add rest
            else .error (.missingValue option)
          | [] => .error (.missingValue option)
        else
          match d.addFlag option with
          | .ok (.inl d') => d'.add rest
          | other => other
    | '-' :: c :: cs =>
      match d.addLetters (c :: cs) with
      | .ok (.inl d') => d'.add rest
      | other => other
    | _ => do (← d.addInput argument).add rest

/-- What a whole command line asks for. -/
def Draft.finish (d : Draft) : Except ArgumentError Request :=
  match d.input with
  | none => .error .missingInput
  | some input => .ok (.run ⟨input, d.only, d.form.getD .text, d.profile,
      d.workers.getD Limits.workers, !d.flat, d.failFast, d.quiet, d.verbosity⟩)

/-- What a command line asks for, or what is wrong with it. -/
def ofArguments (arguments : List String) : Except ArgumentError Request := do
  match ← Draft.empty.add arguments with
  | .inl d => d.finish
  | .inr request => return request

/-- The paths that an answer to a command line may depend on. -/
def pathsOf (arguments : List String) : List String :=
  match ofArguments arguments with
  | .ok (.run o) => o.input :: o.profile.toList
  | _ => []

end Request

end Strata
