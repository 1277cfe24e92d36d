import Strata.Grammar.Constant

/-!
# The length of lexemes

What every scan agrees on: how long a closed literal, a run of word characters, a number and a
comment are. A length counts bytes.
-/

namespace Strata

/-- The bytes through the next double quote that no backslash escapes, and `passed` more. -/
def closingFrom? (passed : Nat) : Text → Option Nat
  | [] => none
  | '"' :: _ => some (passed + 1)
  | ['\\'] => none
  | '\\' :: c :: t => closingFrom? (passed + (1 + c.utf8Size)) t
  | c :: t => closingFrom? (passed + c.utf8Size) t

/-- The bytes through the next double quote that no backslash escapes. -/
def closingLen? (t : Text) : Option Nat := closingFrom? 0 t

/-- The bytes passed before are only added. -/
theorem closingFrom?_eq_map_closingLen? (passed : Nat) (t : Text) :
    closingFrom? passed t = (closingLen? t).map (passed + ·) := by
  unfold closingLen?
  suffices h : ∀ n m, closingFrom? (n + m) t = (closingFrom? m t).map (n + ·) from h passed 0
  intro n m
  fun_induction closingFrom? m t with
  | case1 m => rfl
  | case2 m t => simp [closingFrom?, Nat.add_assoc]
  | case3 m => rfl
  | case4 m c t ih => rw [closingFrom?, ← ih, Nat.add_assoc]
  | case5 m c t h1 h2 h3 ih => rw [closingFrom?, ← ih, Nat.add_assoc] <;> assumption

/-- The length of the closed literal at the start of a text: a string, or exactly one character or
escape between single quotes. An empty pair of single quotes is no literal. -/
def quotedLen? : Text → Option Nat
  | '"' :: t => closingFrom? 1 t
  | '\'' :: '\\' :: c :: '\'' :: _ => some (3 + c.utf8Size)
  | '\'' :: c :: '\'' :: _ => if c = '\'' ∨ c = '\\' then none else some (2 + c.utf8Size)
  | _ => none

/-- The length of the run of word characters at the start of a text. -/
def wordLen (t : Text) : Nat := byteLen (t.takeWhile isIdentChar)

/-- Whether a word can start at a place: no character of a word ends there. -/
def atWordStart (here : Place) : Bool := !here.before.any isIdentChar

/-- The length of the number at a place. -/
def numberLen? (here : Place) : Option Nat :=
  if here.peek?.any fun c => c.isDigit || c = '.' then
    match matchConstant here with
    | some (rule, len) => if rule.kind.isNumber then some len else none
    | none => none
  else
    none

/-- The bytes through the next `*/`, or all of them. -/
def blockLen : Text → Nat
  | [] => 0
  | '*' :: '/' :: _ => 2
  | c :: t => c.utf8Size + blockLen t

/-- The length of the comment at the start of a text. A line comment leaves its line break; a block
comment that is never closed goes on to the end. -/
def commentLen? : Text → Option Nat
  | '/' :: '/' :: t => some (2 + byteLen (t.takeWhile (· ≠ '\n')))
  | '/' :: '*' :: t => some (2 + blockLen t)
  | _ => none

end Strata
