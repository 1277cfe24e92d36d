import Mathlib.Data.List.Basic
import Strata.Grammar.Profile

/-!
# The checks of a declaration

A declaration is checked from front to back: its base, its keywords, its operators, and then its
punctuators, each of which is also looked for among the operators. What is reported is the first
thing that is wrong, so a declaration describes a profile exactly if nothing is.

* `ProfileDecl.flaws`: all that is wrong with a declaration, in this order;
* `ofDecl_cases`: a declaration is refused for its first flaw, or describes a profile;
* `flaws_eq_nil_iff`: when nothing is wrong;
* `ProfileDecl.Sound.declared`: what is known about a symbol that is declared.
-/

namespace Strata

variable {decl : ProfileDecl} {entry : SymbolEntry} {earlier : List SymbolEntry} {s : Text}
  {ss : List Text} {cls : SymbolClass}

/-! ## Flaws -/

/-- What is wrong with a symbol on its own. -/
def symbolFlaw? (cls : SymbolClass) (s : Text) : Option ProfileError :=
  if s = [] then some (.emptySymbol cls)
  else if startsLikeSymbol s then none
  else some (.unmatchableSymbol s cls)

/-- What is wrong with a symbol, if it is listed with the other class. -/
def conflict? (listed : Prop) [Decidable listed] (s : Text) : Option ProfileError :=
  if listed then some (.conflictingSymbol s) else none

/-- A base that there is not. -/
def ProfileDecl.baseFlaws (decl : ProfileDecl) : List ProfileError :=
  (decl.base.toList.filter (Profile.builtin? · = none)).map .unknownBase

/-- Operators that cannot be found, then punctuators that cannot be found or are operators. -/
def ProfileDecl.symbolFlaws (decl : ProfileDecl) : List ProfileError :=
  decl.operators.filterMap (symbolFlaw? .operator) ++
    decl.punctuators.filterMap fun s =>
      (symbolFlaw? .punctuator s).or (conflict? (s ∈ decl.operators) s)

/-- All that is wrong with a declaration, first things first. -/
def ProfileDecl.flaws (decl : ProfileDecl) : List ProfileError :=
  decl.baseFlaws ++ (decl.keywords.filter (!isIdentShaped ·)).map .invalidKeyword ++
    decl.symbolFlaws

/-- Fails for the first of some reasons. -/
def firstOf {ε : Type} : List ε → Except ε Unit
  | [] => .ok ()
  | e :: _ => .error e

/-- Of two lists of reasons, the second counts if the first is empty. -/
theorem firstOf_append {ε : Type} (es fs : List ε) :
    firstOf (es ++ fs) = (firstOf es >>= fun _ => firstOf fs) := by
  cases es <;> rfl

theorem checkSymbol_eq : Profile.checkSymbol earlier ⟨s, cls⟩ =
    firstOf ((symbolFlaw? cls s).or
      (conflict? (∃ e ∈ earlier, e.text = s ∧ e.cls ≠ cls) s)).toList := by
  unfold Profile.checkSymbol symbolFlaw? conflict?
  by_cases hnil : s = []
  · simp [hnil, firstOf]
  · by_cases hstarts : startsLikeSymbol s = true
    · by_cases hconflict : ∃ e ∈ earlier, e.text = s ∧ e.cls ≠ cls
      · simp [hnil, hstarts, hconflict, firstOf]
      · simp [hnil, hstarts, hconflict, firstOf]
    · simp [hnil, hstarts, firstOf]

/-- Symbols of one class are in conflict with others only. -/
theorem checkSymbols_map : Profile.checkSymbols earlier (ss.map (⟨·, cls⟩)) =
    firstOf (ss.filterMap fun s =>
      (symbolFlaw? cls s).or (conflict? (∃ e ∈ earlier, e.text = s ∧ e.cls ≠ cls) s)) := by
  induction ss generalizing earlier with
  | nil => rfl
  | cons s ss ih =>
    have hself : ∀ s', (∃ e ∈ ⟨s, cls⟩ :: earlier, e.text = s' ∧ e.cls ≠ cls) ↔
        ∃ e ∈ earlier, e.text = s' ∧ e.cls ≠ cls := by
      intro s'
      simp
    rw [List.map_cons, Profile.checkSymbols, checkSymbol_eq, ih, List.filterMap_cons]
    simp only [hself]
    cases (symbolFlaw? cls s).or (conflict? (∃ e ∈ earlier, e.text = s ∧ e.cls ≠ cls) s) <;> rfl

/-- The symbols behind others are checked against those as well. -/
theorem checkSymbols_append (earlier entries others : List SymbolEntry) :
    Profile.checkSymbols earlier (entries ++ others) =
      (Profile.checkSymbols earlier entries >>= fun _ =>
        Profile.checkSymbols (entries.reverse ++ earlier) others) := by
  induction entries generalizing earlier with
  | nil => rfl
  | cons entry entries ih =>
    rw [List.cons_append, Profile.checkSymbols, Profile.checkSymbols, List.reverse_cons,
      List.append_assoc, List.singleton_append, ih]
    cases Profile.checkSymbol earlier entry <;> rfl

/-- The symbols of a declaration are checked for their flaws. -/
theorem checkSymbols_declared (decl : ProfileDecl) :
    Profile.checkSymbols [] (Profile.declaredSymbols decl) = firstOf decl.symbolFlaws := by
  have hlisted : ∀ s, (∃ e ∈ (decl.operators.map (⟨·, .operator⟩)).reverse ++ [],
      SymbolEntry.text e = s ∧ e.cls ≠ .punctuator) ↔ s ∈ decl.operators := by
    intro s
    simp
  rw [Profile.declaredSymbols, checkSymbols_append, ProfileDecl.symbolFlaws, firstOf_append,
    checkSymbols_map, checkSymbols_map]
  simp only [hlisted]
  simp [conflict?]

/-! ## Refusals -/

/-- A base is there, or that it is not is the only flaw of the base. -/
theorem baseOf_cases (decl : ProfileDecl) :
    (∃ b, decl.baseFlaws = [.unknownBase b] ∧ Profile.baseOf decl = .error (.unknownBase b)) ∨
      ∃ base, decl.baseFlaws = [] ∧ Profile.baseOf decl = .ok base := by
  unfold Profile.baseOf ProfileDecl.baseFlaws
  cases decl.base with
  | none => exact Or.inr ⟨_, rfl, rfl⟩
  | some b =>
    cases hbuiltin : Profile.builtin? b with
    | none => exact Or.inl ⟨b, by simp [hbuiltin], by simp [hbuiltin]⟩
    | some base => exact Or.inr ⟨base, by simp [hbuiltin], by simp [hbuiltin]⟩

/-- A declaration is refused for its first flaw, or describes a profile. -/
theorem ofDecl_cases (decl : ProfileDecl) :
    (∃ e es, decl.flaws = e :: es ∧ Profile.ofDecl decl = .error e) ∨
      ∃ base, decl.flaws = [] ∧ Profile.baseOf decl = .ok base ∧
        Profile.ofDecl decl = .ok ⟨decl.name, decl.keywords.foldl KeywordTable.insert base.keywords,
          (Profile.declaredSymbols decl).foldl SymbolTable.insert base.symbols⟩ := by
  have hfind : decl.keywords.find? (!isIdentShaped ·) =
      (decl.keywords.filter (!isIdentShaped ·)).head? := List.head?_filter.symm
  have hsymbols := checkSymbols_declared decl
  rcases baseOf_cases decl with ⟨b, hflaw, hbase⟩ | ⟨base, hflaw, hbase⟩
  · left
    refine ⟨_, _, by rw [ProfileDecl.flaws, hflaw]; rfl, ?_⟩
    simp only [Profile.ofDecl, hbase, bind, Except.bind]
  · cases hwords : decl.keywords.filter (!isIdentShaped ·) with
    | cons word words =>
      left
      rw [hwords] at hfind
      refine ⟨_, _, by rw [ProfileDecl.flaws, hflaw, hwords]; rfl, ?_⟩
      simp only [Profile.ofDecl, hbase, bind, Except.bind, hfind, List.head?_cons]
      rfl
    | nil =>
      rw [hwords] at hfind
      cases hall : decl.symbolFlaws with
      | nil =>
        right
        rw [hall] at hsymbols
        refine ⟨base, by rw [ProfileDecl.flaws, hflaw, hwords, hall]; rfl, hbase, ?_⟩
        simp only [Profile.ofDecl, hbase, bind, Except.bind, hfind, hsymbols, firstOf,
          List.head?_nil]
        rfl
      | cons e es =>
        left
        rw [hall] at hsymbols
        refine ⟨e, es, by rw [ProfileDecl.flaws, hflaw, hwords, hall]; rfl, ?_⟩
        simp only [Profile.ofDecl, hbase, bind, Except.bind, hfind, hsymbols, firstOf,
          List.head?_nil]

/-- A declaration that nothing is wrong with. -/
structure ProfileDecl.Sound (decl : ProfileDecl) : Prop where
  base : ∀ b, decl.base = some b → ∃ profile, Profile.builtin? b = some profile
  keywords : ∀ word ∈ decl.keywords, isIdentShaped word = true
  symbols : ∀ s ∈ decl.operators ++ decl.punctuators, s ≠ [] ∧ startsLikeSymbol s = true
  apart : ∀ s ∈ decl.operators, s ∉ decl.punctuators

/-- A symbol is without a flaw if it is not empty and starts as a symbol may. -/
theorem symbolFlaw?_eq_none : symbolFlaw? cls s = none ↔ s ≠ [] ∧ startsLikeSymbol s = true := by
  unfold symbolFlaw?
  by_cases hnil : s = []
  · simp [hnil]
  · simp [hnil]

/-- Symbols are without a flaw if each one is and no symbol is in both lists. -/
theorem symbolFlaws_eq_nil : decl.symbolFlaws = [] ↔
    (∀ s ∈ decl.operators ++ decl.punctuators, s ≠ [] ∧ startsLikeSymbol s = true) ∧
      ∀ s ∈ decl.operators, s ∉ decl.punctuators := by
  have hconflict : ∀ s, conflict? (s ∈ decl.operators) s = none ↔ s ∉ decl.operators := by
    intro s
    simp [conflict?]
  simp only [ProfileDecl.symbolFlaws, List.append_eq_nil_iff, List.filterMap_eq_nil_iff,
    Option.or_eq_none_iff, symbolFlaw?_eq_none, hconflict]
  constructor
  · rintro ⟨hoperators, hpunctuators⟩
    refine ⟨?_, fun s hs hs' => (hpunctuators s hs').2 hs⟩
    intro s hs
    rcases List.mem_append.1 hs with hs | hs
    · exact hoperators s hs
    · exact (hpunctuators s hs).1
  · rintro ⟨hsymbols, hapart⟩
    exact ⟨fun s hs => hsymbols s (List.mem_append_left _ hs), fun s hs =>
      ⟨hsymbols s (List.mem_append_right _ hs), fun hs' => hapart s hs' hs⟩⟩

/-- A base is without a flaw if there is a built-in profile of its name. -/
theorem baseFlaws_eq_nil : decl.baseFlaws = [] ↔
    ∀ b, decl.base = some b → ∃ profile, Profile.builtin? b = some profile := by
  simp only [ProfileDecl.baseFlaws, List.map_eq_nil_iff, List.filter_eq_nil_iff,
    Option.mem_toList, decide_eq_true_eq, ← ne_eq, Option.ne_none_iff_exists']

/-- Nothing is wrong with a sound declaration, and only with such a one. -/
theorem flaws_eq_nil_iff : decl.flaws = [] ↔ decl.Sound := by
  have hkeywords : (decl.keywords.filter (!isIdentShaped ·)).map ProfileError.invalidKeyword = [] ↔
      ∀ word ∈ decl.keywords, isIdentShaped word = true := by
    simp
  rw [ProfileDecl.flaws, List.append_eq_nil_iff, List.append_eq_nil_iff, baseFlaws_eq_nil,
    hkeywords, symbolFlaws_eq_nil]
  constructor
  · rintro ⟨⟨hbase, hwords⟩, hsymbols, hapart⟩
    exact ⟨hbase, hwords, hsymbols, hapart⟩
  · rintro ⟨hbase, hwords, hsymbols, hapart⟩
    exact ⟨⟨hbase, hwords⟩, hsymbols, hapart⟩

/-- What is declared is an operator of the one list or a punctuator of the other. -/
theorem mem_declaredSymbols : ⟨s, cls⟩ ∈ Profile.declaredSymbols decl ↔
    cls = .operator ∧ s ∈ decl.operators ∨ cls = .punctuator ∧ s ∈ decl.punctuators := by
  simp only [Profile.declaredSymbols, List.mem_append, List.mem_map, SymbolEntry.mk.injEq]
  constructor
  · rintro (⟨t, ht, rfl, rfl⟩ | ⟨t, ht, rfl, rfl⟩)
    · exact Or.inl ⟨rfl, ht⟩
    · exact Or.inr ⟨rfl, ht⟩
  · rintro (⟨rfl, hs⟩ | ⟨rfl, hs⟩)
    · exact Or.inl ⟨s, hs, rfl, rfl⟩
    · exact Or.inr ⟨s, hs, rfl, rfl⟩

/-- A symbol that is declared is declared with one class only. -/
theorem ProfileDecl.Sound.declared (h : decl.Sound)
    (hentry : entry ∈ Profile.declaredSymbols decl) :
    entry.text ≠ [] ∧ startsLikeSymbol entry.text = true ∧
      ∀ f ∈ Profile.declaredSymbols decl, f.text = entry.text → f = entry := by
  rcases entry with ⟨s, cls⟩
  have hsymbol : s ∈ decl.operators ++ decl.punctuators := by
    rcases mem_declaredSymbols.1 hentry with ⟨-, hs⟩ | ⟨-, hs⟩
    · exact List.mem_append_left _ hs
    · exact List.mem_append_right _ hs
  refine ⟨(h.symbols s hsymbol).1, (h.symbols s hsymbol).2, ?_⟩
  rintro ⟨t, c⟩ hf rfl
  rcases mem_declaredSymbols.1 hentry with ⟨rfl, hs⟩ | ⟨rfl, hs⟩
  · rcases mem_declaredSymbols.1 hf with ⟨rfl, -⟩ | ⟨-, hs'⟩
    · rfl
    · exact absurd hs' (h.apart t hs)
  · rcases mem_declaredSymbols.1 hf with ⟨-, hs'⟩ | ⟨rfl, -⟩
    · exact absurd hs (h.apart t hs')
    · rfl

end Strata
