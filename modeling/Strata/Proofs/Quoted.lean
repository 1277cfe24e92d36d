import Strata.Proofs.Advance

/-!
# Closed literals

What a closed string or char literal looks like. Whether a quote opens one is settled by the
literal itself, so a literal is closed whatever comes behind it. A double quote that opens none has
no closing quote ahead, and neither has any later one.

* `exists_of_quotedLen?_single`: a char literal is one character between quotes, plain or escaped;
* `exists_of_quotedLen?`: a closed literal is one whatever comes behind it;
* `closingLen?_eq_none_of_append`: behind a string that is never closed, none is.
-/

namespace Strata

variable {len : Nat} {c : Char} {t back : Text}

/-- Behind a double quote in a string that is never closed, nothing closes it, either. -/
theorem closingLen?_eq_none_of_append {passed : Nat} (h : closingFrom? passed t = none) :
    ∀ front, t = front ++ '"' :: back → closingLen? back = none := by
  fun_induction closingFrom? passed t with
  | case1 =>
    intro front ht
    simp at ht
  | case2 => cases h
  | case3 =>
    intro front ht
    rcases front with _ | ⟨d, _ | ⟨e, front⟩⟩ <;> simp at ht
  | case4 passed c t ih =>
    intro front ht
    rcases front with _ | ⟨d, _ | ⟨e, front⟩⟩
    · simp at ht
    · -- the quote is escaped, and the text behind it is read afresh
      obtain ⟨-, -, rfl⟩ : '\\' = d ∧ c = '"' ∧ t = back := by simpa using ht
      rw [closingFrom?_eq_map_closingLen?] at h
      exact Option.map_eq_none_iff.1 h
    · exact ih h front (List.cons.inj (List.cons.inj ht).2).2
  | case5 passed c t hquote _ _ ih =>
    intro front ht
    cases front with
    | nil => exact absurd (List.cons.inj ht).1 hquote
    | cons d front => exact ih h front (List.cons.inj ht).2

/-- Whatever comes behind a closing quote, it closes the string. -/
theorem exists_of_closingFrom? {passed : Nat} (h : closingFrom? passed t = some len) :
    ∃ front back, t = front ++ back ∧ passed + byteLen front = len ∧
      front.getLast? = some '"' ∧ ∀ b, closingFrom? passed (front ++ b) = some len := by
  fun_induction closingFrom? passed t with
  | case1 => cases h
  | case2 passed t =>
    cases h
    exact ⟨['"'], t, rfl, rfl, rfl, fun _ => rfl⟩
  | case3 => cases h
  | case4 passed c t ih =>
    rcases ih h with ⟨front, back, rfl, hlen, hlast, hany⟩
    refine ⟨'\\' :: c :: front, back, rfl, ?_, ?_, ?_⟩
    · rw [byteLen_cons, byteLen_cons, ← hlen]
      have : ('\\' : Char).utf8Size = 1 := rfl
      omega
    · rw [List.getLast?_cons, List.getLast?_cons, hlast]
      rfl
    · intro b
      exact hany b
  | case5 passed c t hquote hlone hescape ih =>
    rcases ih h with ⟨front, back, rfl, hlen, hlast, hany⟩
    -- a backslash would be followed by the character that it escapes
    have hplain : c ≠ '\\' := by
      rintro rfl
      rcases front with _ | ⟨d, front⟩
      · cases hlast
      · exact hescape d (front ++ back) rfl rfl
    refine ⟨c :: front, back, rfl, ?_, ?_, ?_⟩
    · rw [byteLen_cons, ← hlen, Nat.add_assoc]
    · rw [List.getLast?_cons, hlast]
      rfl
    · intro b
      rw [List.cons_append, closingFrom?]
      · exact hany b
      · exact hquote
      · simp [hplain]
      · simp [hplain]

/-- What a char literal looks like. -/
theorem exists_of_quotedLen?_single (h : quotedLen? ('\'' :: t) = some len) :
    (∃ c back, t = c :: '\'' :: back ∧ c ≠ '\'' ∧ c ≠ '\\' ∧ len = 2 + c.utf8Size) ∨
      ∃ c back, t = '\\' :: c :: '\'' :: back ∧ len = 3 + c.utf8Size := by
  rcases t with _ | ⟨c, t⟩
  · cases h
  · by_cases hescape : c = '\\'
    · right
      rw [hescape] at h ⊢
      rcases t with _ | ⟨d, t⟩
      · cases h
      · rw [quotedLen?_escape] at h
        split at h
        · rename_i hclosed
          rcases List.head?_eq_some_iff.1 hclosed with ⟨back, rfl⟩
          exact ⟨d, back, rfl, (Option.some.inj h).symm⟩
        · cases h
    · left
      rw [quotedLen?_plain hescape] at h
      split at h
      · rename_i hclosed
        rcases List.head?_eq_some_iff.1 hclosed.2 with ⟨back, rfl⟩
        exact ⟨c, back, rfl, hclosed.1, hescape, (Option.some.inj h).symm⟩
      · cases h

/-- A closed literal is one whatever comes behind it. -/
theorem exists_of_quotedLen? (h : quotedLen? t = some len) :
    ∃ front back, t = front ++ back ∧ byteLen front = len ∧
      (front.getLast? = some '"' ∨ front.getLast? = some '\'') ∧
      ∀ b, quotedLen? (front ++ b) = some len := by
  rcases t with _ | ⟨c, t⟩
  · cases h
  by_cases hdouble : c = '"'
  · subst hdouble
    have hclosing : closingFrom? 1 t = some len := h
    rcases exists_of_closingFrom? hclosing with ⟨front, back, rfl, hlen, hlast, hany⟩
    refine ⟨'"' :: front, back, rfl, ?_, Or.inl ?_, hany⟩
    · rw [byteLen_cons, ← hlen]
      rfl
    · rw [List.getLast?_cons, hlast]
      rfl
  by_cases hsingle : c = '\''
  · subst hsingle
    rcases exists_of_quotedLen?_single h with ⟨c, back, rfl, hquote, hescape, rfl⟩ |
      ⟨c, back, rfl, rfl⟩
    · refine ⟨['\'', c, '\''], back, rfl, ?_, Or.inr rfl, ?_⟩
      · have : ('\'' : Char).utf8Size = 1 := rfl
        simp only [byteLen_cons, byteLen_nil]
        omega
      · intro b
        rw [List.cons_append, List.cons_append, quotedLen?_plain hescape, if_pos ⟨hquote, rfl⟩]
    · refine ⟨['\'', '\\', c, '\''], back, rfl, ?_, Or.inr rfl, ?_⟩
      · have : ('\'' : Char).utf8Size = 1 := rfl
        have : ('\\' : Char).utf8Size = 1 := rfl
        simp only [byteLen_cons, byteLen_nil]
        omega
      · intro b
        rw [List.cons_append, List.cons_append, List.cons_append, quotedLen?_escape]
        rfl
  · rw [quotedLen?_eq_none hdouble hsingle] at h
    cases h

end Strata
