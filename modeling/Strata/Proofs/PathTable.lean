import Mathlib.Algebra.BigOperators.Group.Finset.Basic
import Strata.Log.Ledger

/-!
# Tables by path

Two spellings name the same path if they have the same steps, and the order of paths compares
nothing else. So a table by path is a map from steps: `valueAt?` looks up by steps, `paths` is the
set of steps that it has an entry for. Every table that is only ever updated is sorted, and then
each path has one entry.

* `IsSorted.valueAt?_update`: an update changes what is there for one path;
* `IsSorted.update`: what an update preserves;
* `IsSorted.card_paths`, `IsSorted.sum_paths`, `IsSorted.countP_paths`: what is counted over the
  entries is counted over the paths.
-/

namespace Strata

/-! ## The order of paths -/

namespace PathStep

/-- What a step says besides its kind. -/
def text : PathStep → String
  | name s => s
  | _ => ""

theorem order_eq : order = compareLex (compareOn rank) (compareOn text) := by
  funext a b
  cases a <;> cases b <;> simp [order, compareLex, compareOn, rank, text] <;> rfl

instance : Std.TransCmp order := order_eq ▸ inferInstance

instance : Std.LawfulEqCmp order where
  eq_of_compare := by
    intro a b h
    rw [order_eq] at h
    have hboth : compare a.rank b.rank = .eq ∧ compare a.text b.text = .eq :=
      Ordering.then_eq_eq.1 h
    rw [Std.LawfulEqOrd.compare_eq_iff_eq, Std.LawfulEqOrd.compare_eq_iff_eq] at hboth
    cases a <;> cases b <;> simp_all [rank, text]

end PathStep

theorem compareSteps_eq : compareSteps = List.compareLex PathStep.order := by
  funext as bs
  induction as generalizing bs with
  | nil => cases bs <;> rfl
  | cons a as ih =>
    cases bs with
    | nil => rfl
    | cons b bs => rw [compareSteps, ih, List.compareLex_cons_cons]

instance : Std.TransCmp compareSteps := compareSteps_eq ▸ inferInstance

instance : Std.LawfulEqCmp compareSteps := compareSteps_eq ▸ inferInstance

/-- Two spellings are equal for the order of paths if they have the same steps. -/
theorem comparePaths_eq_eq {a b : String} : comparePaths a b = .eq ↔ pathSteps a = pathSteps b := by
  rw [comparePaths, Std.LawfulEqCmp.compare_eq_iff_eq]

/-- The order of paths is transitive. -/
theorem comparePaths_lt_trans {a b c : String} (hab : comparePaths a b = .lt)
    (hbc : comparePaths b c = .lt) : comparePaths a c = .lt := by
  unfold comparePaths at hab hbc ⊢
  exact Std.TransCmp.lt_trans hab hbc

namespace PathTable

variable {α : Type} {table : PathTable α} {path : String} {steps : List PathStep} {f : Option α → α}
  {a : α}

/-! ## What is there for a path -/

def valueAt? (table : PathTable α) (steps : List PathStep) : Option α :=
  (table.find? fun (p, _) => pathSteps p = steps).map (·.2)

/-- Looking up a path is looking up its steps. -/
theorem get?_eq_valueAt? (table : PathTable α) (path : String) :
    table.get? path = table.valueAt? (pathSteps path) := by
  simp only [get?, valueAt?, comparePaths_eq_eq]

theorem valueAt?_cons : valueAt? ((path, a) :: table) steps =
    if pathSteps path = steps then some a else table.valueAt? steps := by
  unfold valueAt?
  rw [List.find?_cons]
  by_cases h : pathSteps path = steps <;> simp [h]

/-- The paths of a table come in ascending order. -/
def IsSorted (table : PathTable α) : Prop :=
  table.Pairwise fun x y => comparePaths x.1 y.1 = .lt

/-- A path before all those of a table has no entry. -/
theorem valueAt?_eq_none (h : ∀ x ∈ table, comparePaths path x.1 = .lt) :
    table.valueAt? (pathSteps path) = none := by
  unfold valueAt?
  rw [Option.map_eq_none_iff, List.find?_eq_none]
  intro x hx hsame
  have hpath : pathSteps path = pathSteps x.1 := by simpa using Eq.symm (of_decide_eq_true hsame)
  have heq : comparePaths path x.1 = .eq := comparePaths_eq_eq.2 hpath
  rw [h x hx] at heq
  cases heq

/-- An update of a sorted table changes what is there for one path. -/
theorem IsSorted.valueAt?_update (h : table.IsSorted) : (table.update path f).valueAt? steps =
    if pathSteps path = steps then some (f (table.valueAt? steps)) else table.valueAt? steps := by
  induction table with
  | nil => rw [update, valueAt?_cons]; rfl
  | cons x rest ih =>
    rcases x with ⟨p, a⟩
    rcases List.pairwise_cons.1 h with ⟨hfirst, hrest⟩
    rw [update]
    cases hcompare : comparePaths path p with
    | lt =>
      -- all paths of the table are behind this one
      have hnone : valueAt? ((p, a) :: rest) (pathSteps path) = none := by
        refine valueAt?_eq_none fun y hy => ?_
        rcases List.mem_cons.1 hy with rfl | hy
        · exact hcompare
        · exact comparePaths_lt_trans hcompare (hfirst y hy)
      rw [valueAt?_cons]
      by_cases hsteps : pathSteps path = steps
      · rw [if_pos hsteps, if_pos hsteps, ← hsteps, hnone]
      · rw [if_neg hsteps, if_neg hsteps]
    | eq =>
      rw [comparePaths_eq_eq] at hcompare
      rw [valueAt?_cons, valueAt?_cons, hcompare]
      by_cases hsteps : pathSteps p = steps
      · rw [if_pos hsteps, if_pos hsteps, if_pos hsteps]
      · rw [if_neg hsteps, if_neg hsteps, if_neg hsteps]
    | gt =>
      have hne : pathSteps path ≠ pathSteps p := by
        intro hsame
        rw [comparePaths_eq_eq.2 hsame] at hcompare
        cases hcompare
      rw [valueAt?_cons, valueAt?_cons, ih hrest]
      by_cases hsteps : pathSteps path = steps
      · rw [if_pos hsteps, if_pos hsteps, if_neg (hsteps ▸ hne.symm), if_neg (hsteps ▸ hne.symm)]
      · rw [if_neg hsteps, if_neg hsteps]

/-- The paths of an updated table are those of the table and the one updated. -/
theorem mem_update {x : String × α} (h : x ∈ table.update path f) :
    pathSteps x.1 = pathSteps path ∨ ∃ y ∈ table, y.1 = x.1 := by
  induction table with
  | nil =>
    rw [List.mem_singleton.1 h]
    exact .inl rfl
  | cons y rest ih =>
    rcases y with ⟨p, a⟩
    rw [update] at h
    cases hcompare : comparePaths path p with
    | lt =>
      rw [hcompare] at h
      rcases List.mem_cons.1 h with rfl | h
      · exact .inl rfl
      · exact .inr ⟨x, h, rfl⟩
    | eq =>
      rw [hcompare] at h
      rcases List.mem_cons.1 h with rfl | h
      · exact .inr ⟨(p, a), List.mem_cons_self, rfl⟩
      · exact .inr ⟨x, List.mem_cons_of_mem _ h, rfl⟩
    | gt =>
      rw [hcompare] at h
      rcases List.mem_cons.1 h with rfl | h
      · exact .inr ⟨(p, a), List.mem_cons_self, rfl⟩
      · rcases ih h with hsame | ⟨y, hy, hyx⟩
        · exact .inl hsame
        · exact .inr ⟨y, List.mem_cons_of_mem _ hy, hyx⟩

/-- An update keeps the paths in ascending order. -/
theorem IsSorted.update (h : table.IsSorted) : (table.update path f).IsSorted := by
  induction table with
  | nil => exact List.pairwise_singleton _ _
  | cons y rest ih =>
    rcases y with ⟨p, a⟩
    rcases List.pairwise_cons.1 h with ⟨hfirst, hrest⟩
    rw [PathTable.update]
    cases hcompare : comparePaths path p with
    | lt =>
      refine List.pairwise_cons.2 ⟨fun y hy => ?_, h⟩
      rcases List.mem_cons.1 hy with rfl | hy
      · exact hcompare
      · exact comparePaths_lt_trans hcompare (hfirst y hy)
    | eq => exact List.pairwise_cons.2 ⟨hfirst, hrest⟩
    | gt =>
      refine List.pairwise_cons.2 ⟨fun x hx => ?_, ih hrest⟩
      rcases mem_update hx with hsame | ⟨y, hy, hyx⟩
      · change compareSteps (pathSteps p) (pathSteps x.1) = .lt
        rw [hsame]
        exact Std.OrientedCmp.gt_iff_lt.1 hcompare
      · exact hyx ▸ hfirst y hy

/-! ## The paths of a table -/

def paths (table : PathTable α) : Finset (List PathStep) :=
  (table.map fun (p, _) => pathSteps p).toFinset

/-- A table has the paths that it has an entry for. -/
theorem mem_paths : steps ∈ table.paths ↔ (table.valueAt? steps).isSome = true := by
  simp [paths, valueAt?]

/-- An updated table has an entry for the path that was updated, and for those it had. -/
theorem IsSorted.paths_update (h : table.IsSorted) :
    (table.update path f).paths = insert (pathSteps path) table.paths := by
  ext steps
  rw [Finset.mem_insert, mem_paths, mem_paths, h.valueAt?_update]
  by_cases hsteps : pathSteps path = steps
  · simp [hsteps]
  · simp [hsteps, Ne.symm hsteps]

/-- Each path of a sorted table has one entry. -/
theorem IsSorted.nodup (h : table.IsSorted) : (table.map fun (p, _) => pathSteps p).Nodup := by
  refine List.pairwise_map.2 (h.imp ?_)
  intro x y hlt hsame
  rw [comparePaths_eq_eq.2 hsame] at hlt
  cases hlt

/-- A sorted table has as many paths as entries. -/
theorem IsSorted.card_paths (h : table.IsSorted) : table.paths.card = table.length := by
  rw [paths, List.toFinset_card_of_nodup h.nodup, List.length_map]

/-- An entry of a sorted table is found under its path. -/
theorem IsSorted.valueAt?_of_mem (h : table.IsSorted) {x : String × α} (hx : x ∈ table) :
    table.valueAt? (pathSteps x.1) = some x.2 := by
  induction table with
  | nil => cases hx
  | cons y rest ih =>
    rcases y with ⟨p, a⟩
    rcases List.pairwise_cons.1 h with ⟨hfirst, hrest⟩
    rw [valueAt?_cons]
    rcases List.mem_cons.1 hx with rfl | hx
    · rw [if_pos rfl]
    · have hne : pathSteps p ≠ pathSteps x.1 := by
        intro hsame
        have hlt := hfirst x hx
        rw [comparePaths_eq_eq.2 hsame] at hlt
        cases hlt
      rw [if_neg hne, ih hrest hx]

/-- What is summed over the entries of a sorted table is summed over its paths. -/
theorem IsSorted.sum_paths (h : table.IsSorted) (g : α → Nat) :
    (table.map fun (_, a) => g a).foldr (· + ·) 0 =
      ∑ steps ∈ table.paths, (table.valueAt? steps).elim 0 g := by
  rw [paths, List.sum_toFinset _ h.nodup, List.map_map, List.sum_eq_foldr]
  congr 1
  apply List.map_congr_left
  intro x hx
  simp [h.valueAt?_of_mem hx]

/-- The entries of a sorted table with some property are counted over its paths. -/
theorem IsSorted.countP_paths (h : table.IsSorted) (q : α → Bool) :
    table.countP (fun (_, a) => q a) =
      (table.paths.filter fun steps => (table.valueAt? steps).any q).card := by
  rw [paths, ← List.toFinset_filter, List.toFinset_card_of_nodup (h.nodup.filter _),
    ← List.countP_eq_length_filter, List.countP_map]
  apply List.countP_congr
  intro x hx
  simp [h.valueAt?_of_mem hx]

end PathTable

end Strata
