import Mathlib.Data.List.Basic

/-!
# What was said since a reset

A state that is reset now and then shows only what was said since the last reset, and what is said
may have to be read by what was said before it, resets or not. `givenSince` tells this place by
place, without a state.

* `givenSince_concat`, `givenSince_reset`: one more element, which may be a reset;
* `lastTold_concat`: one more element, which may have the last word.
-/

namespace Strata

variable {α β : Type} {resets : α → Bool} {gives : List α → α → Option β} {tells : α → Option β}
  {as : List α} {a : α} {b : β}

/-- What the elements of a list give that no reset comes behind, each of them read by the elements
before it. -/
def givenSince (resets : α → Bool) (gives : List α → α → Option β) (as : List α) : List β :=
  (List.range as.length).filterMap fun place =>
    if (as.drop place).any resets then none else as[place]?.bind (gives (as.take place))

/-- What is told by the last element that tells something. -/
def lastTold (tells : α → Option β) (as : List α) : Option β := as.reverse.findSome? tells

/-- A reset leaves nothing. -/
theorem givenSince_reset (h : resets a = true) : givenSince resets gives (as ++ [a]) = [] := by
  unfold givenSince
  rw [List.filterMap_eq_nil_iff]
  intro place hplace
  rw [List.mem_range, List.length_append, List.length_singleton] at hplace
  have hlater : ((as ++ [a]).drop place).any resets = true := by
    rw [List.drop_append_of_le_length (by omega), List.any_append]
    simp [h]
  rw [if_pos hlater]

/-- What is no reset adds what it gives. -/
theorem givenSince_concat (h : resets a = false) :
    givenSince resets gives (as ++ [a]) = givenSince resets gives as ++ (gives as a).toList := by
  unfold givenSince
  rw [List.length_append, List.length_singleton, List.range_succ, List.filterMap_append]
  congr 1
  · -- what comes behind an earlier element has one more, which resets nothing
    apply List.filterMap_congr
    intro place hplace
    rw [List.mem_range] at hplace
    rw [List.drop_append_of_le_length (Nat.le_of_lt hplace), List.any_append,
      List.take_append_of_le_length (Nat.le_of_lt hplace), List.getElem?_append_left hplace]
    simp [h]
  · have hlast : (as ++ [a]).drop as.length = [a] := List.drop_left
    have hbefore : (as ++ [a]).take as.length = as := List.take_left
    have hat : (as ++ [a])[as.length]? = some a := List.getElem?_concat_length
    rw [List.filterMap_cons, List.filterMap_nil, hlast, hbefore, hat]
    simp only [List.any_cons, List.any_nil, h, Bool.or_self, Bool.false_eq_true, if_false,
      Option.bind_some]
    cases gives as a <;> rfl

theorem givenSince_concat_none (h : resets a = false) (hnone : gives as a = none) :
    givenSince resets gives (as ++ [a]) = givenSince resets gives as := by
  rw [givenSince_concat h, hnone, Option.toList_none, List.append_nil]

theorem givenSince_concat_some (h : resets a = false) (hsome : gives as a = some b) :
    givenSince resets gives (as ++ [a]) = givenSince resets gives as ++ [b] := by
  rw [givenSince_concat h, hsome, Option.toList_some]

/-- What is told last hides what was told before. -/
theorem lastTold_concat : lastTold tells (as ++ [a]) = (tells a).or (lastTold tells as) := by
  unfold lastTold
  rw [List.reverse_append, List.reverse_singleton, List.singleton_append, List.findSome?_cons]
  cases tells a <;> rfl

/-- Where nothing was told before, one more element has the last word if it tells something. -/
theorem lastTold_concat_getD :
    (lastTold tells (as ++ [a])).getD b = (tells a).getD ((lastTold tells as).getD b) := by
  rw [lastTold_concat, Option.getD_or]

end Strata
