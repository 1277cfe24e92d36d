import Strata.Grammar.Character
import Strata.Grammar.Keywords
import Strata.Grammar.Symbols
import Strata.Text.Blank
import Strata.Text.Escape

/-!
# Profiles of languages

A profile says what the words and symbols of a language mean: which words are reserved, and which
symbols are operators or punctuators. C++ is built in. Others are declared: a declaration may start
from a built-in profile, and adds words and symbols to it.

A declared symbol must be one that a sweep for symbols can find. That sweep steps over words,
numbers, literals and layout, so a symbol cannot start like one of them.

* `Profile.cpp`: the built-in profile;
* `Profile.ofDecl`: the profile that a declaration describes, or the first thing wrong with it;
* `ProfileError.message`: what is wrong, for a reader.
-/

namespace Strata

/-- The words and symbols of a language. -/
structure Profile where
  name : String
  keywords : KeywordTable
  symbols : SymbolTable
deriving DecidableEq, Repr, Inhabited

structure ProfileDecl where
  name : String
  /-- The built-in profile to start from. -/
  base : Option String
  keywords : List Text
  operators : List Text
  punctuators : List Text
deriving DecidableEq, Repr

/-- Why a profile cannot be had. -/
inductive ProfileError where
  /-- The file with the declaration cannot be read. -/
  | unreadable (path reason : String)
  /-- The file holds no declaration. -/
  | malformed (reason : String)
  | unknownBase (name : String)
  | invalidKeyword (word : Text)
  | emptySymbol (cls : SymbolClass)
  | unmatchableSymbol (symbol : Text) (cls : SymbolClass)
  | conflictingSymbol (symbol : Text)
deriving DecidableEq, Repr

def ProfileError.message : ProfileError → String
  | unreadable path reason => "Failed to read profile " ++ path ++ ": " ++ reason
  | malformed reason => "Invalid profile TOML: " ++ reason
  | unknownBase name => "Unknown base profile " ++ String.ofList (quoted name.toList)
  | invalidKeyword word => "Keyword " ++ String.ofList (quoted word) ++ " is not identifier-shaped"
  | emptySymbol cls => "Empty " ++ cls.label ++ " symbol"
  | unmatchableSymbol symbol cls =>
    cls.label ++ " symbol " ++ String.ofList (quoted symbol) ++
      " starts with a word, number, quote or whitespace character"
  | conflictingSymbol symbol =>
    "Symbol " ++ String.ofList (quoted symbol) ++ " is listed as both operator and punctuator"

/-- Whether a sweep for symbols can find a symbol: it starts like no word, number, literal or
layout. -/
def startsLikeSymbol : Text → Bool
  | [] => false
  | '.' :: c :: _ => !c.isDigit
  | c :: _ => !(isIdentChar c || isBlank c || c = '"' || c = '\'')

def ProfileError.code : ProfileError → String
  | unreadable _ _ => "E011"
  | malformed _ => "E030"
  | invalidKeyword _ => "E031"
  | emptySymbol _ => "E032"
  | conflictingSymbol _ => "E033"
  | unknownBase _ => "E034"
  | unmatchableSymbol _ _ => "E035"

namespace Profile

def cpp : Profile := ⟨"cpp", .cpp, .cpp⟩

def builtin? (name : String) : Option Profile :=
  if name = "cpp" ∨ name = "c++" then some cpp else none

/-- The profile that a declaration starts from. -/
def baseOf (decl : ProfileDecl) : Except ProfileError Profile :=
  match decl.base with
  | none => .ok ⟨decl.name, ⟨[]⟩, .empty⟩
  | some base =>
    match builtin? base with
    | some profile => .ok profile
    | none => .error (.unknownBase base)

/-- The first thing wrong with a declared symbol, after the ones in `earlier`. -/
def checkSymbol (earlier : List SymbolEntry) (entry : SymbolEntry) : Except ProfileError Unit :=
  if entry.text = [] then
    .error (.emptySymbol entry.cls)
  else if !startsLikeSymbol entry.text then
    .error (.unmatchableSymbol entry.text entry.cls)
  else if earlier.any fun e => e.text = entry.text && e.cls ≠ entry.cls then
    .error (.conflictingSymbol entry.text)
  else
    .ok ()

/-- The first thing wrong with declared symbols, after the ones in `earlier`. -/
def checkSymbols (earlier : List SymbolEntry) : List SymbolEntry → Except ProfileError Unit
  | [] => .ok ()
  | entry :: entries => do
    checkSymbol earlier entry
    checkSymbols (entry :: earlier) entries

/-- The symbols of a declaration, operators first. -/
def declaredSymbols (decl : ProfileDecl) : List SymbolEntry :=
  decl.operators.map (⟨·, .operator⟩) ++ decl.punctuators.map (⟨·, .punctuator⟩)

/-- The profile that a declaration describes. A symbol of the base may be declared again with
another class, but no symbol may be declared with both. -/
def ofDecl (decl : ProfileDecl) : Except ProfileError Profile := do
  let base ← baseOf decl
  match decl.keywords.find? (!isIdentShaped ·) with
  | some word => throw (.invalidKeyword word)
  | none =>
    let symbols := declaredSymbols decl
    checkSymbols [] symbols
    return ⟨decl.name, decl.keywords.foldl KeywordTable.insert base.keywords,
      symbols.foldl SymbolTable.insert base.symbols⟩

end Profile

end Strata
