import Strata.Proofs.Declared
import Strata.Proofs.Listed

/-!
# The verdict on a declaration

A declaration that nothing is wrong with describes a profile, and every other one is refused for the
first thing that is wrong with it. The profile has the words of its base and those declared, and of
the symbols those of the base that the declaration does not list, and those that it lists with the
class that it gives them.

* `classOf?_ofList`: the class of a symbol in a table, by the list of the table;
* `extends_of_sound`: what a declaration adds to its base;
* `verdict_ofDecl`: the verdict on any declaration;
* `verdict_ofToml`: the verdict on the declaration in a file.
-/

namespace Strata

variable {decl : ProfileDecl} {base : Profile} {entries : List SymbolEntry} {s word : Text}
  {words : List Text} {cls : SymbolClass} {table : KeywordTable}

/-! ## What a declared profile has -/

theorem KeywordTable.mem_insertInto_iff :
    s ∈ KeywordTable.insertInto word words ↔ s = word ∨ s ∈ words := by
  fun_induction KeywordTable.insertInto word words with
  | case1 => simp
  | case2 w ws _ => exact List.mem_cons
  | case3 ws _ =>
    rw [List.mem_cons]
    tauto
  | case4 w ws _ _ ih =>
    rw [List.mem_cons, List.mem_cons, ih]
    tauto

/-- A table has the words that it had and those put in. -/
theorem contains_foldl_insert : (words.foldl KeywordTable.insert table).contains s = true ↔
    table.contains s = true ∨ s ∈ words := by
  induction words generalizing table with
  | nil => simp
  | cons word words ih =>
    have hinsert : (table.insert word).contains s = true ↔ s = word ∨ table.contains s = true := by
      simp [KeywordTable.contains, KeywordTable.insert, KeywordTable.mem_insertInto_iff]
    rw [List.foldl_cons, ih, hinsert, List.mem_cons]
    tauto

namespace SymbolTable

/-- What is listed later counts. -/
theorem lastClass?_append (entries others : List SymbolEntry) (s : Text) :
    lastClass? (entries ++ others) s = (lastClass? others s).or (lastClass? entries s) := by
  unfold lastClass?
  rw [List.reverse_append, List.find?_append, Option.map_or]

/-- A symbol that is listed with one class only has that class. -/
theorem lastClass?_of_mem (h : ⟨s, cls⟩ ∈ entries) (hsame : ∀ c, ⟨s, c⟩ ∈ entries → c = cls) :
    lastClass? entries s = some cls := by
  rcases exists_lastClass? h with ⟨c, hc⟩
  rw [hc, hsame c (mem_of_lastClass? hc)]

/-- A table gives a symbol the class that its list gives it last. -/
theorem classOf?_ofList (entries : List SymbolEntry) (hs : s ≠ []) :
    (ofList entries).classOf? s = lastClass? entries s := by
  apply Option.ext
  intro cls
  rw [classOf?_eq_some_iff, lastClass?_ofList hs]
  simp [hs]

theorem classOf?_nil (table : SymbolTable) : table.classOf? [] = none := by
  apply Option.eq_none_iff_forall_ne_some.2
  intro cls h
  exact (classOf?_eq_some_iff.1 h).1 rfl

end SymbolTable

/-- A profile has what its base has and what is declared, and what is declared counts. -/
structure Profile.Extends (profile base : Profile) (decl : ProfileDecl) : Prop where
  name : profile.name = decl.name
  keywords : ∀ word, profile.keywords.contains word = true ↔
    base.keywords.contains word = true ∨ word ∈ decl.keywords
  operators : ∀ s ∈ decl.operators, profile.symbols.classOf? s = some .operator
  punctuators : ∀ s ∈ decl.punctuators, profile.symbols.classOf? s = some .punctuator
  others : ∀ s, s ∉ decl.operators → s ∉ decl.punctuators →
    profile.symbols.classOf? s = base.symbols.classOf? s

/-- What a sound declaration makes of its base extends it. -/
theorem extends_of_sound (h : decl.Sound) (hbase : base.IsBuilt) :
    Profile.Extends ⟨decl.name, decl.keywords.foldl KeywordTable.insert base.keywords,
      (Profile.declaredSymbols decl).foldl SymbolTable.insert base.symbols⟩ base decl := by
  rcases hbase with ⟨listed, hlisted⟩
  have hsymbols : (Profile.declaredSymbols decl).foldl SymbolTable.insert base.symbols =
      SymbolTable.ofList (listed ++ Profile.declaredSymbols decl) := by
    rw [hlisted, SymbolTable.ofList, SymbolTable.ofList, List.foldl_append]
  -- a symbol that is declared is declared with one class, and the base does not count
  have hdeclared : ∀ s cls, ⟨s, cls⟩ ∈ Profile.declaredSymbols decl →
      ((Profile.declaredSymbols decl).foldl SymbolTable.insert base.symbols).classOf? s =
        some cls := by
    intro s cls hmem
    rcases h.declared hmem with ⟨hs, -, hsame⟩
    have hlast := SymbolTable.lastClass?_of_mem hmem fun c hc =>
      congrArg SymbolEntry.cls (hsame _ hc rfl)
    rw [hsymbols, SymbolTable.classOf?_ofList _ hs, SymbolTable.lastClass?_append, hlast]
    rfl
  constructor
  case name => rfl
  case keywords => exact fun word => contains_foldl_insert
  case operators => exact fun s hs => hdeclared s _ (mem_declaredSymbols.2 (Or.inl ⟨rfl, hs⟩))
  case punctuators => exact fun s hs => hdeclared s _ (mem_declaredSymbols.2 (Or.inr ⟨rfl, hs⟩))
  case others =>
    intro s hoperators hpunctuators
    dsimp only
    by_cases hs : s = []
    · rw [hs, SymbolTable.classOf?_nil, SymbolTable.classOf?_nil]
    · have hnone : SymbolTable.lastClass? (Profile.declaredSymbols decl) s = none := by
        rw [SymbolTable.lastClass?_eq_none]
        rintro ⟨t, cls⟩ hmem rfl
        rcases mem_declaredSymbols.1 hmem with ⟨-, hs⟩ | ⟨-, hs⟩
        · exact hoperators hs
        · exact hpunctuators hs
      rw [hsymbols, hlisted, SymbolTable.classOf?_ofList _ hs, SymbolTable.classOf?_ofList _ hs,
        SymbolTable.lastClass?_append, hnone]
      rfl

/-! ## Verdicts -/

/-- The profile that a declaration starts from: the built-in one that it names, or one that has
nothing. -/
structure ProfileDecl.StartsFrom (decl : ProfileDecl) (base : Profile) : Prop where
  named : ∀ b, decl.base = some b → Profile.builtin? b = some base
  unnamed : decl.base = none → base.keywords.words = [] ∧ base.symbols.entries = []

/-- The base that is found is the one to start from. -/
theorem startsFrom_of_baseOf (h : Profile.baseOf decl = .ok base) : decl.StartsFrom base := by
  unfold Profile.baseOf at h
  constructor
  case named =>
    intro b hb
    rw [hb] at h
    cases hbuiltin : Profile.builtin? b with
    | none =>
      simp only [hbuiltin] at h
      cases h
    | some profile =>
      simp only [hbuiltin] at h
      cases h
      rfl
  case unnamed =>
    intro hnone
    rw [hnone] at h
    cases h
    exact ⟨rfl, rfl⟩

/-- The verdict on a declaration: what is sound describes a profile, and what is not is refused for
its first flaw. -/
structure Verdict (decl : ProfileDecl) (result : Except ProfileError Profile) : Prop where
  accepted : (∃ profile, result = .ok profile) ↔ decl.Sound
  profile : ∀ profile, result = .ok profile →
    ∃ base, decl.StartsFrom base ∧ profile.Extends base decl
  refused : ∀ e, result = .error e ↔ decl.flaws.head? = some e

/-- Whatever a declaration was read from, this is the verdict on it. -/
theorem verdict_ofDecl (decl : ProfileDecl) : Verdict decl (Profile.ofDecl decl) := by
  rcases ofDecl_cases decl with ⟨e, es, hflaws, hresult⟩ | ⟨base, hflaws, hbase, hresult⟩
  · have hunsound : ¬decl.Sound := by
      rw [← flaws_eq_nil_iff, hflaws]
      exact List.cons_ne_nil e es
    rw [hresult]
    refine ⟨⟨?_, fun hsound => absurd hsound hunsound⟩, ?_, ?_⟩
    · rintro ⟨profile, hprofile⟩
      cases hprofile
    · intro profile hprofile
      cases hprofile
    · intro e'
      rw [hflaws]
      simp
  · have hsound := flaws_eq_nil_iff.1 hflaws
    rw [hresult]
    refine ⟨⟨fun _ => hsound, fun _ => ⟨_, rfl⟩⟩, ?_, ?_⟩
    · intro profile hprofile
      cases hprofile
      exact ⟨base, startsFrom_of_baseOf hbase, extends_of_sound hsound (isBuilt_baseOf hbase)⟩
    · intro e'
      rw [hflaws]
      simp

/-- The verdict on the declaration in a file. -/
theorem verdict_ofToml {source : Text} (h : ProfileDecl.ofToml source = .ok decl) :
    Verdict decl (Profile.ofToml source) := by
  have hofDecl : Profile.ofToml source = Profile.ofDecl decl := by
    rw [Profile.ofToml, h]
  rw [hofDecl]
  exact verdict_ofDecl decl

/-- A `;` that is listed twice is an operator, against the base; a `:` in both lists is refused,
before the word behind it. -/
theorem verdict_ofToml_colons : ∃ decl decl' profile,
    ProfileDecl.ofToml
        "name = \"x\"\nextends = \"cpp\"\noperators = [\";\", \";\"]".toList = .ok decl ∧
      Profile.ofToml
        "name = \"x\"\nextends = \"cpp\"\noperators = [\";\", \";\"]".toList = .ok profile ∧
      profile.symbols.classOf? [';'] = some .operator ∧
      ProfileDecl.ofToml
        "name = \"x\"\noperators = [\":\"]\npunctuators = [\";\", \":\", \"a\"]".toList =
          .ok decl' ∧
      Profile.ofToml
        "name = \"x\"\noperators = [\":\"]\npunctuators = [\";\", \":\", \"a\"]".toList =
          .error (.conflictingSymbol [':']) := by
  let decl : ProfileDecl := ⟨"x", some "cpp", [], [[';'], [';']], []⟩
  let decl' : ProfileDecl := ⟨"x", none, [], [[':']], [[';'], [':'], ['a']]⟩
  have hdecl : ProfileDecl.ofToml
      "name = \"x\"\nextends = \"cpp\"\noperators = [\";\", \";\"]".toList = .ok decl := by
    decide +kernel
  have hdecl' : ProfileDecl.ofToml
      "name = \"x\"\noperators = [\":\"]\npunctuators = [\";\", \":\", \"a\"]".toList =
        .ok decl' := by
    decide +kernel
  have hsound : decl.Sound := by
    rw [← flaws_eq_nil_iff]
    decide
  rcases (verdict_ofToml hdecl).accepted.2 hsound with ⟨profile, hprofile⟩
  rcases (verdict_ofToml hdecl).profile profile hprofile with ⟨base, -, hextends⟩
  exact ⟨decl, decl', profile, hdecl, hprofile, hextends.operators [';'] (by simp [decl]), hdecl',
    ((verdict_ofToml hdecl').refused _).2 (by decide)⟩

end Strata
