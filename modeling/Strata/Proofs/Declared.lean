import Strata.Grammar.ProfileFile
import Strata.Proofs.Checks
import Strata.Proofs.SymbolTable
import Strata.Proofs.Unchanged

/-!
# Declared symbols as texts of their own

The check of a declaration looks at the first characters of a symbol only. It makes sure that the
scan for symbols does not step over the start of a symbol, so a symbol that comes through the first
two sweeps is found, with the class that it was declared with. But not every declared symbol does:
`//` is removed as a comment, and the layout inside a symbol is condensed.

* `startsLikeSymbol_eq_true`: how a symbol starts that comes through the check;
* `ofDecl_eq_ok`: what a declaration is that describes a profile;
* `tagSymbols_declared`: the sweep for symbols over a text that is a symbol;
* `exists_outcome_ofDecl_iff`: which declared symbols a run over their own text finds;
* `exists_outcome_declared_iff`: which symbols of a declaration in a file it finds.
-/

namespace Strata

variable {decl : ProfileDecl} {profile base : Profile} {entry : SymbolEntry}
  {table : SymbolTable} {text t : Text} {c : Char}

/-! ## What is checked -/

/-- How a symbol may start. -/
structure StartsSymbol (c : Char) (t : Text) : Prop where
  ident : isIdentChar c = false
  layout : isLayout c = false
  double : c ≠ '"'
  single : c ≠ '\''
  point : c = '.' → ∀ d ∈ t.head?, d.isDigit = false

theorem isLayout_of_isBlank (h : isBlank c = false) : isLayout c = false := by
  by_contra hlayout
  rcases eq_of_isLayout (Bool.not_eq_false _ ▸ hlayout) with rfl | rfl | rfl | rfl | rfl <;>
    revert h <;> decide

/-- What the check of a symbol says about its first characters. -/
theorem startsLikeSymbol_eq_true (h : startsLikeSymbol text = true) :
    ∃ c t, text = c :: t ∧ StartsSymbol c t := by
  unfold startsLikeSymbol at h
  split at h
  · cases h
  · rename_i d t
    refine ⟨'.', d :: t, rfl, by decide, by decide, by decide, by decide, fun _ x hx => ?_⟩
    obtain rfl : d = x := by simpa using hx
    simpa using h
  · rename_i c t hpoint
    simp only [Bool.not_eq_true', Bool.or_eq_false_iff, decide_eq_false_iff_not] at h
    rcases h with ⟨⟨⟨hident, hblank⟩, hdouble⟩, hsingle⟩
    refine ⟨c, t, rfl, hident, isLayout_of_isBlank hblank, hdouble, hsingle, ?_⟩
    rintro rfl d hd
    cases t with
    | nil => cases hd
    | cons x t => exact absurd rfl (hpoint x t rfl)

/-- A profile holds the symbols of its base and those declared. -/
theorem ofDecl_eq_ok (h : Profile.ofDecl decl = .ok profile) :
    decl.Sound ∧ ∃ base, Profile.baseOf decl = .ok base ∧
      profile.symbols = (Profile.declaredSymbols decl).foldl SymbolTable.insert base.symbols := by
  rcases ofDecl_cases decl with ⟨e, es, -, hresult⟩ | ⟨base, hflaws, hbase, hresult⟩
  · rw [hresult] at h
    cases h
  · rw [hresult] at h
    cases h
    exact ⟨flaws_eq_nil_iff.1 hflaws, base, hbase, rfl⟩

/-- The base of a declaration has a table that was built from a list. -/
theorem isBuilt_baseOf (h : Profile.baseOf decl = .ok base) : base.IsBuilt := by
  unfold Profile.baseOf at h
  split at h
  · cases h
    exact ⟨[], rfl⟩
  · split at h
    · rename_i hbuiltin
      cases h
      unfold Profile.builtin? at hbuiltin
      split at hbuiltin
      · cases hbuiltin
        exact ⟨_, rfl⟩
      · cases hbuiltin
    · cases h

/-- The table of a declared profile is built like every other. -/
theorem isBuilt_of_ofDecl (h : Profile.ofDecl decl = .ok profile) : profile.IsBuilt := by
  rcases ofDecl_eq_ok h with ⟨-, base, hbase, hsymbols⟩
  rcases isBuilt_baseOf hbase with ⟨symbols, hbuilt⟩
  refine ⟨symbols ++ Profile.declaredSymbols decl, ?_⟩
  rw [hsymbols, hbuilt, SymbolTable.ofList, SymbolTable.ofList, List.foldl_append]

/-- Each declared symbol is in the profile, with the class that it was declared with. -/
theorem mem_of_declared (h : Profile.ofDecl decl = .ok profile)
    (hentry : entry ∈ Profile.declaredSymbols decl) :
    entry ∈ profile.symbols.entries ∧ startsLikeSymbol entry.text = true := by
  rcases ofDecl_eq_ok h with ⟨hsound, base, -, hsymbols⟩
  rcases hsound.declared hentry with ⟨hne, hstarts, hsame⟩
  rw [hsymbols]
  exact ⟨SymbolTable.mem_foldl_insert hentry hne hsame base.symbols, hstarts⟩

/-! ## A text that is a symbol -/

/-- No number starts a text that starts like a symbol. -/
theorem numberLen?_start (hstarts : StartsSymbol c t) :
    numberLen? (Place.start (c :: t)) = none := by
  by_cases hpoint : c = '.'
  · subst hpoint
    exact numberLen?_dot rfl (hstarts.point rfl)
  · have hdigit : c.isDigit = false := by
      have hident := hstarts.ident
      simp only [isIdentChar, Char.isAlphanum, Bool.or_eq_false_iff] at hident
      exact hident.1.2
    exact numberLen?_eq_none (c := c) rfl hdigit hpoint

/-- At the start of a text that is one of its symbols, a table finds the symbol. -/
theorem symbolStep_declared (hsorted : table.IsSorted)
    (hne : ∀ e ∈ table.entries, e.text ≠ []) (hentry : entry ∈ table.entries)
    (hstarts : startsLikeSymbol entry.text = true) :
    symbolStep (Literals.ofText entry.text).all table (Place.start entry.text) =
      .report entry.cls.kind (byteLen entry.text) := by
  rcases startsLikeSymbol_eq_true hstarts with ⟨c, t, htext, hc⟩
  have hmatch : table.longestMatch entry.text = some entry := by
    refine (hsorted.longestMatch_eq_some_iff hne).2 ⟨hentry, List.prefix_refl _, ?_⟩
    -- no symbol that the text starts with is longer than the whole text
    rintro f - ⟨back, hback⟩
    rw [← hback, byteLen_append]
    omega
  have hskip : (Literals.ofText (c :: t)).all.spanAt? (Place.start (c :: t)).offset = none :=
    spanAt?_literals_zero hc.double hc.single
  have hrest : (Place.start (c :: t)).rest = c :: t := rfl
  rw [htext] at hmatch ⊢
  simp [symbolStep, hskip, hrest, numberLen?_start hc, hc.layout, hc.ident, hmatch, htext]

/-- Over a text that is one of its symbols, a table finds the symbol and nothing else. -/
theorem tagSymbols_declared (hbuilt : profile.IsBuilt) (hentry : entry ∈ profile.symbols.entries)
    (hstarts : startsLikeSymbol entry.text = true) :
    tagSymbols entry.text (Literals.ofText entry.text).all profile.symbols =
      .ok (Sweep.inPlace entry.text
        [⟨entry.cls.kind, entry.text, ⟨0, byteLen entry.text⟩⟩]) := by
  rcases hbuilt with ⟨symbols, hsymbols⟩
  rw [hsymbols] at hentry ⊢
  have hstep := symbolStep_declared (SymbolTable.isSorted_ofList symbols)
    (fun e he => (SymbolTable.mem_ofList he).2) hentry hstarts
  have hmove : MovesTo (symbolStep (Literals.ofText entry.text).all (.ofList symbols))
      (Place.start entry.text) ((Place.start entry.text).past entry.text []) :=
    movesTo_past (SymbolTable.mem_ofList hentry).2 (List.append_nil _).symm (by rw [hstep]; rfl)
  have hreports : Reports (symbolStep (Literals.ofText entry.text).all (.ofList symbols))
      (Place.start entry.text) ((Place.start entry.text).past entry.text [])
      ⟨entry.cls.kind, entry.text, ⟨0, byteLen entry.text⟩⟩ :=
    ⟨hmove, by rw [hstep]; rfl, (List.append_nil _).symm, by simp [Place.start, Place.past]⟩
  have htokens := tokensOf_scan_of_reports hreports
  -- behind the symbol there is nothing left to scan
  rw [scan_eq_nil (Place.past_rest _ _ _)] at htokens
  unfold tagSymbols
  rw [ofScan_eq_ok (advances_symbolStep symbols (endsIn_literals entry.text)), htokens]
  rfl

/-! ## A run over a symbol -/

/-- A text that is no longer than a token at its start is the token. -/
theorem eq_of_slice_start {s : Text} (h : slice t ⟨0, byteLen s⟩ = .ok s)
    (hlen : byteLen t ≤ byteLen s) : t = s := by
  rcases slice_eq_ok.1 h with ⟨front, back, ht, hfront, -⟩
  rw [byteLen_eq_zero.1 hfront, List.nil_append] at ht
  rw [ht, byteLen_append] at hlen
  rw [ht, byteLen_eq_zero.1 (by omega : byteLen back = 0), List.append_nil]

/-- A declared symbol is found in a run over its own text, as the only token and with its class,
exactly if it holds no comment and no layout but single spaces between other characters. -/
theorem exists_outcome_ofDecl_iff (hprofile : Profile.ofDecl decl = .ok profile)
    (hentry : entry ∈ Profile.declaredSymbols decl) :
    ∃ outcome symbols, Outcome.ofText entry.text profile = .ok outcome ∧
      outcome.passages.find? (·.layer = .symbols) = some symbols ∧
      (symbols.sweep.tokens = [⟨entry.cls.kind, entry.text, ⟨0, byteLen entry.text⟩⟩] ↔
        (∀ t ∈ (stripComments entry.text).tokens, t.kind ≠ .comment) ∧
          SingleSpaced entry.text) := by
  have hbuilt := isBuilt_of_ofDecl hprofile
  rcases mem_of_declared hprofile hentry with ⟨hmem, hstarts⟩
  rcases exists_outcome entry.text hbuilt with ⟨outcome, last, houtcome, -, hsteps⟩
  have hlayer : Layer.identifiers.next? = some .symbols := rfl
  rcases hsteps.exists_find hlayer (by decide) with ⟨symbols, hfind, -, hsweep⟩
  have hsweep' : tagSymbols (textAt entry.text .condensed)
      (Literals.ofText (textAt entry.text .condensed)).all profile.symbols =
        .ok symbols.sweep := hsweep
  refine ⟨outcome, symbols, houtcome, hfind, ?_⟩
  rw [← textAt_condensed_eq_iff]
  constructor
  · intro htokens
    -- the token is a slice of what the first sweeps left, which is no longer than the symbol
    rcases hbuilt with ⟨listed, hlisted⟩
    rw [hlisted] at hsweep'
    rcases segmented_ofScan (advances_symbolStep listed
      (endsIn_literals (textAt entry.text .condensed))) with ⟨sweep, hok, hsegmented⟩
    obtain rfl : symbols.sweep = sweep := Except.ok.inj (hsweep'.symm.trans hok)
    have hslice := (hsegmented.slices ⟨entry.cls.kind, entry.text, ⟨0, byteLen entry.text⟩⟩
      (by rw [htokens]; exact List.mem_singleton_self _)).2
    exact eq_of_slice_start hslice (byteLen_textAt_le entry.text .condensed)
  · intro hsame
    rw [hsame, tagSymbols_declared hbuilt hmem hstarts] at hsweep'
    rw [← Except.ok.inj hsweep']
    rfl

/-- Which symbols of a declaration in a file are found in a run over their own text. -/
theorem exists_outcome_declared_iff {source : Text} {decl : ProfileDecl} {profile : Profile}
    {entry : SymbolEntry} (hdecl : ProfileDecl.ofToml source = .ok decl)
    (hprofile : Profile.ofToml source = .ok profile)
    (hentry : entry ∈ Profile.declaredSymbols decl) :
    ∃ outcome symbols, Outcome.ofText entry.text profile = .ok outcome ∧
      outcome.passages.find? (·.layer = .symbols) = some symbols ∧
      (symbols.sweep.tokens = [⟨entry.cls.kind, entry.text, ⟨0, byteLen entry.text⟩⟩] ↔
        (∀ t ∈ (stripComments entry.text).tokens, t.kind ≠ .comment) ∧
          SingleSpaced entry.text) := by
  have hofDecl : Profile.ofDecl decl = .ok profile := by
    unfold Profile.ofToml at hprofile
    rwa [hdecl] at hprofile
  exact exists_outcome_ofDecl_iff hofDecl hentry

/-- A declared `+` is found. -/
theorem exists_outcome_declared_plus : ∃ decl profile outcome symbols,
    ProfileDecl.ofToml "name = \"x\"\noperators = [\"+\"]".toList = .ok decl ∧
    Profile.ofToml "name = \"x\"\noperators = [\"+\"]".toList = .ok profile ∧
    ⟨['+'], .operator⟩ ∈ Profile.declaredSymbols decl ∧
    Outcome.ofText ['+'] profile = .ok outcome ∧
    outcome.passages.find? (·.layer = .symbols) = some symbols ∧
    symbols.sweep.tokens = [⟨.operator, ['+'], ⟨0, 1⟩⟩] := by
  let decl : ProfileDecl := ⟨"x", none, [], [['+']], []⟩
  let profile : Profile := ⟨"x", ⟨[]⟩, .compile [⟨['+'], .operator⟩]⟩
  have hdecl : ProfileDecl.ofToml "name = \"x\"\noperators = [\"+\"]".toList = .ok decl := by
    decide +kernel
  have hprofile : Profile.ofToml "name = \"x\"\noperators = [\"+\"]".toList = .ok profile := by
    decide +kernel
  have hentry : ⟨['+'], .operator⟩ ∈ Profile.declaredSymbols decl := by decide +kernel
  rcases exists_outcome_declared_iff hdecl hprofile hentry with
    ⟨outcome, symbols, houtcome, hfind, hfound⟩
  refine ⟨decl, profile, outcome, symbols, hdecl, hprofile, hentry, houtcome, hfind, ?_⟩
  refine hfound.2 ⟨by decide +kernel, ?_⟩
  intro front c back htext hlayout
  rcases front with _ | ⟨d, front⟩
  · cases htext
    cases hlayout
  · simp at htext

/-- A declared `//` is not: the first sweep takes it as a comment. -/
theorem declared_slashes_not_found : ∃ decl profile outcome symbols,
    ProfileDecl.ofToml "name = \"x\"\noperators = [\"//\"]".toList = .ok decl ∧
    Profile.ofToml "name = \"x\"\noperators = [\"//\"]".toList = .ok profile ∧
    ⟨['/', '/'], .operator⟩ ∈ Profile.declaredSymbols decl ∧
    Outcome.ofText ['/', '/'] profile = .ok outcome ∧
    outcome.passages.find? (·.layer = .symbols) = some symbols ∧
    symbols.sweep.tokens = [] := by
  let decl : ProfileDecl := ⟨"x", none, [], [['/', '/']], []⟩
  let profile : Profile := ⟨"x", ⟨[]⟩, .compile [⟨['/', '/'], .operator⟩]⟩
  have hdecl : ProfileDecl.ofToml "name = \"x\"\noperators = [\"//\"]".toList = .ok decl := by
    decide +kernel
  have hprofile :
      Profile.ofToml "name = \"x\"\noperators = [\"//\"]".toList = .ok profile := by
    decide +kernel
  have hentry : ⟨['/', '/'], .operator⟩ ∈ Profile.declaredSymbols decl := by decide +kernel
  have hofDecl : Profile.ofDecl decl = .ok profile := by decide +kernel
  rcases exists_outcome ['/', '/'] (isBuilt_of_ofDecl hofDecl) with
    ⟨outcome, last, houtcome, -, hsteps⟩
  have hlayer : Layer.identifiers.next? = some .symbols := rfl
  rcases hsteps.exists_find hlayer (by decide) with ⟨symbols, hfind, -, hsweep⟩
  refine ⟨decl, profile, outcome, symbols, hdecl, hprofile, hentry, houtcome, hfind, ?_⟩
  have htext : textAt ['/', '/'] .condensed = [] := by decide +kernel
  have hsweep' : tagSymbols (textAt ['/', '/'] .condensed)
      (Literals.ofText (textAt ['/', '/'] .condensed)).all profile.symbols =
        .ok symbols.sweep := hsweep
  have hnone : (tagSymbols [] (Literals.ofText []).all profile.symbols).toOption.map (·.tokens) =
      some [] := by decide +kernel
  rw [htext] at hsweep'
  rw [hsweep'] at hnone
  exact Option.some.inj hnone

end Strata
