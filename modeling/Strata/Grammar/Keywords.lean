import Strata.Grammar.Character
import Strata.Text.Basic

/-!
# Tables of keywords

The reserved words of a language. A table is a set: it does not matter in which order, or how often,
a word was put in. Words are told apart by case.
-/

namespace Strata

/-- A set of reserved words, in ascending order. -/
structure KeywordTable where
  words : List Text
deriving DecidableEq, Repr, Inhabited

namespace KeywordTable

/-- Puts a word into its place among words in ascending order. -/
def insertInto (word : Text) : List Text → List Text
  | [] => [word]
  | w :: ws =>
    if word < w then word :: w :: ws
    else if word = w then w :: ws
    else w :: insertInto word ws

def insert (table : KeywordTable) (word : Text) : KeywordTable := ⟨insertInto word table.words⟩

def union (table other : KeywordTable) : KeywordTable := other.words.foldl insert table

def ofList (words : List Text) : KeywordTable := words.foldl insert ⟨[]⟩

def contains (table : KeywordTable) (word : Text) : Bool := table.words.contains word

def cpp : KeywordTable :=
  ofList <| [
    -- types
    "auto", "bool", "char", "char16_t", "char32_t", "char8_t", "double", "float", "int", "long",
    "short", "signed", "unsigned", "void", "wchar_t", "decltype", "nullptr_t",
    -- storage and qualifiers
    "extern", "mutable", "register", "static", "thread_local", "volatile", "const",
    -- control flow
    "break", "case", "continue", "default", "do", "else", "for", "goto", "if", "return", "switch",
    "while",
    -- declarations
    "class", "struct", "union", "enum", "template", "typename", "using", "namespace", "inline",
    "virtual", "explicit", "friend", "operator", "this",
    -- memory and exceptions
    "new", "delete", "try", "catch", "throw", "noexcept",
    -- casts
    "const_cast", "static_cast", "dynamic_cast", "reinterpret_cast",
    -- literal words
    "true", "false", "nullptr",
    -- compile time
    "sizeof", "typeid", "alignof", "alignas", "constexpr", "consteval", "constinit",
    -- modules, concepts and coroutines
    "export", "import", "requires", "concept", "co_await", "co_yield", "co_return"].map
      String.toList

end KeywordTable

end Strata
