import Mathlib.Logic.Relation
import Strata.Proofs.Interleaved
import Strata.Sweep.Basic

/-!
# What every scan guarantees

A scan is a run of moves. Each move of `step` leads from one place to the next (`MovesTo`), the
places reached are those it `Visits`, and the pieces it cuts stand side by side (`Tiled`). What
the tokens of a sweep have in common follows from the tiling alone: they are well formed, and with
the gaps between them they are the text again.

* `wellFormed_tokensOf`, `reconstruct_tokensOf`: the tokens among tiled pieces;
* `ofScan_eq_ok`: a scan that can always move is not torn;
* `mem_tokensOf_scan`: the tokens of a scan, by the places where it reports them;
* `Visits.eq_of_covers`: no byte is passed twice;
* `exists_visits_covering`: no byte is passed over.
-/

namespace Strata

variable {step : Place → Move} {text : Text} {here there : Place}

/-! ## Moves -/

/-- The move of `step` at a place takes whole characters, at least one, and leads behind them. -/
def MovesTo (step : Place → Move) (here there : Place) : Prop :=
  ∃ front, front ≠ [] ∧ here.rest = front ++ there.rest ∧ byteLen front = (step here).len ∧
    there = here.past front there.rest

/-- From any place of a text with something ahead, `step` can move. -/
def Advances (step : Place → Move) (text : Text) : Prop :=
  ∀ here : Place, here.IsIn text → here.rest ≠ [] → ∃ there, MovesTo step here there

theorem movesTo_past {front back : Text} (hne : front ≠ []) (hrest : here.rest = front ++ back)
    (hlen : byteLen front = (step here).len) : MovesTo step here (here.past front back) :=
  ⟨front, hne, hrest, hlen, rfl⟩

theorem MovesTo.isIn (h : MovesTo step here there) (hin : here.IsIn text) : there.IsIn text := by
  rcases h with ⟨front, -, hrest, -, hthere⟩
  rw [hthere]
  exact hin.past hrest

theorem MovesTo.offset_eq (h : MovesTo step here there) :
    there.offset = here.offset + (step here).len := by
  rcases h with ⟨front, -, -, hlen, hthere⟩
  rw [hthere, Place.past_offset, hlen]

/-- A move gets on. -/
theorem MovesTo.offset_lt (h : MovesTo step here there) : here.offset < there.offset := by
  rcases h with ⟨front, hne, -, -, hthere⟩
  have := byteLen_pos hne
  rw [hthere, Place.past_offset]
  omega

theorem MovesTo.rest_length_lt (h : MovesTo step here there) :
    there.rest.length < here.rest.length := by
  rcases h with ⟨front, hne, hrest, -, -⟩
  have := List.length_pos_iff.2 hne
  rw [hrest, List.length_append]
  omega

theorem MovesTo.exists_head (h : MovesTo step here there) : ∃ c t, here.rest = c :: t := by
  rcases h with ⟨front, hne, hrest, -, -⟩
  rcases List.exists_cons_of_ne_nil hne with ⟨c, t, rfl⟩
  exact ⟨c, t ++ there.rest, hrest⟩

/-- Where a move leads depends only on how many bytes it takes. -/
theorem MovesTo.of_len_eq {step' : Place → Move} (h : MovesTo step here there)
    (hlen : (step' here).len = (step here).len) : MovesTo step' here there := by
  rcases h with ⟨front, hne, hrest, hfront, hthere⟩
  exact ⟨front, hne, hrest, hfront.trans hlen.symm, hthere⟩

/-- A place has at most one move. -/
theorem movesTo_unique {p q : Place} (hp : MovesTo step here p) (hq : MovesTo step here q) :
    p = q := by
  rcases hp with ⟨a, -, ha, hla, hpa⟩
  rcases hq with ⟨b, -, hb, hlb, hqb⟩
  rcases append_inj_of_byteLen (ha.symm.trans hb) (hla.trans hlb.symm) with ⟨hab, hrest⟩
  rw [hpa, hqb, hab, hrest]

/-- Induction along a scan: what holds at a place if it holds where the place's move leads. -/
theorem MovesTo.induction (step : Place → Move) {motive : Place → Prop}
    (next : ∀ here, (∀ there, MovesTo step here there → motive there) → motive here)
    (here : Place) : motive here := by
  induction hn : here.rest.length using Nat.strongRecOn generalizing here with
  | ind n ih =>
    apply next
    intro there hmove
    exact ih there.rest.length (hn ▸ hmove.rest_length_lt) there rfl

/-! ## The scan along a move -/

/-- The piece that a move of `step` cuts off. -/
def pieceAt (step : Place → Move) (here : Place) (front : Text) : Piece :=
  ⟨(step here).kind.elim .filler .token, here.offset, front⟩

/-- At the end of a text nothing is cut off. -/
theorem scan_eq_nil (h : here.rest = []) : scan step here = [] := by
  rw [scan, if_pos h]

/-- A scan cuts off the piece of its first move, and goes on behind it. -/
theorem scan_eq_cons {front back : Text} (hne : front ≠ []) (hrest : here.rest = front ++ back)
    (hlen : byteLen front = (step here).len) :
    scan step here = pieceAt step here front :: scan step (here.past front back) := by
  have hahead : here.rest ≠ [] := by simp [hrest, hne]
  have hsplit : splitAt? (step here).len here.rest = some (front, back) :=
    splitAt?_eq_some.2 ⟨hrest, hlen⟩
  rw [scan, if_neg hahead]
  dsimp only
  split
  · rename_i c front' back' hs
    rw [hsplit] at hs
    obtain ⟨rfl, rfl⟩ : front = c :: front' ∧ back = back' := by simpa using hs
    -- the front is not empty, so the character before the next place is its last one
    have hbefore : (c :: front').getLast?.or here.before = (c :: front').getLast? := by
      rw [List.getLast?_cons]
      rfl
    rw [Place.past, hlen, hbefore]
    rfl
  · rename_i hs
    rcases List.exists_cons_of_ne_nil hne with ⟨c, front', rfl⟩
    exact absurd hsplit (hs c front' back)

theorem scan_eq_cons_of_movesTo (h : MovesTo step here there) :
    ∃ front, front ≠ [] ∧ here.rest = front ++ there.rest ∧ byteLen front = (step here).len ∧
      scan step here = pieceAt step here front :: scan step there := by
  rcases h with ⟨front, hne, hrest, hlen, hthere⟩
  refine ⟨front, hne, hrest, hlen, ?_⟩
  rw [scan_eq_cons hne hrest hlen, ← hthere]

/-- A scan that cannot move is torn at once. -/
theorem scan_eq_torn (hahead : here.rest ≠ []) (h : ¬∃ there, MovesTo step here there) :
    scan step here = [⟨.torn (here.offset + (step here).len), here.offset, here.rest⟩] := by
  rw [scan, if_neg hahead]
  dsimp only
  split
  · rename_i c front back hs
    have hsplit := splitAt?_eq_some.1 hs
    exact absurd ⟨_, movesTo_past (List.cons_ne_nil c front) hsplit.1 hsplit.2⟩ h
  · rfl

/-! ## Tilings -/

/-- The pieces stand side by side from `offset` on, and none is empty. -/
def Tiled : Nat → List Piece → Prop
  | _, [] => True
  | offset, p :: ps => p.start = offset ∧ p.text ≠ [] ∧ Tiled (offset + byteLen p.text) ps

@[simp] theorem tiled_nil (offset : Nat) : Tiled offset [] := trivial

@[simp] theorem tiled_cons {offset : Nat} {p : Piece} {ps : List Piece} :
    Tiled offset (p :: ps) ↔
      p.start = offset ∧ p.text ≠ [] ∧ Tiled (offset + byteLen p.text) ps := Iff.rfl

theorem tiled_append {offset : Nat} {ps qs : List Piece} :
    Tiled offset (ps ++ qs) ↔
      Tiled offset ps ∧ Tiled (offset + byteLen (ps.flatMap Piece.text)) qs := by
  induction ps generalizing offset with
  | nil => simp
  | cons p ps ih =>
    simp only [List.cons_append, tiled_cons, ih, byteLen_flatMap_cons, Nat.add_assoc, and_assoc]

/-- A scan cuts its text into pieces that stand side by side. -/
theorem tiled_scan (step : Place → Move) (here : Place) :
    Tiled here.offset (scan step here) := by
  fun_induction scan step here with
  | case1 here h => exact tiled_nil _
  | case2 here h move c front back hs ih =>
    have hlen : byteLen (c :: front) = move.len := (splitAt?_eq_some.1 hs).2
    refine ⟨rfl, List.cons_ne_nil c front, ?_⟩
    rw [hlen]
    exact ih
  | case3 here h move hs => exact ⟨rfl, h, trivial⟩

/-- Putting filler together keeps the pieces side by side. -/
theorem tiled_gather {offset : Nat} {pieces : List Piece} (h : Tiled offset pieces) :
    Tiled offset (gather pieces) := by
  fun_induction gather pieces generalizing offset with
  | case1 => exact h
  | case2 p ps q qs hg hp hq ih =>
    rcases h with ⟨hstart, hne, hps⟩
    have hqs := ih hps
    rw [hg] at hqs
    rcases hqs with ⟨hqstart, hqne, hqs⟩
    refine ⟨hstart, by simp [hne], ?_⟩
    rw [byteLen_append, ← Nat.add_assoc]
    exact hqs
  | case3 p ps q qs hg hp hq ih =>
    rcases h with ⟨hstart, hne, hps⟩
    have hqs := ih hps
    rw [hg] at hqs
    exact ⟨hstart, hne, hqs⟩
  | case4 p ps hg ih =>
    rcases h with ⟨hstart, hne, hps⟩
    exact ⟨hstart, hne, ih hps⟩

/-! ## The tokens of a tiling -/

theorem Piece.token?_eq_some {p : Piece} {t : Token} (h : p.token? = some t) :
    p.mark = .token t.kind ∧ t.lexeme = p.text ∧ t.span = p.span := by
  unfold Piece.token? at h
  split at h
  · rename_i kind hmark
    cases h
    exact ⟨hmark, rfl, rfl⟩
  · cases h

/-- A piece covers its slice of the text. -/
theorem slice_span {front back : Text} {p : Piece} (hstart : p.start = byteLen front)
    (h : text = front ++ p.text ++ back) : slice text p.span = .ok p.text :=
  slice_eq_ok.2 ⟨front, back, h, hstart.symm, rfl⟩

theorem wellFormedFrom_tokensOf {pieces : List Piece} (passed : Text) {cursor : Nat}
    (htiled : Tiled (byteLen passed) pieces)
    (htext : text = passed ++ pieces.flatMap Piece.text) (hcursor : cursor ≤ byteLen passed) :
    wellFormedFrom text cursor (tokensOf pieces) = true := by
  -- `passed` ends where the next piece starts, the cursor where the last token ended
  induction pieces generalizing passed cursor with
  | nil => rfl
  | cons p ps ih =>
    rcases htiled with ⟨hstart, hne, hps⟩
    rw [List.flatMap_cons, ← List.append_assoc] at htext
    rw [← byteLen_append] at hps
    cases htoken : p.token? with
    | none =>
      have hle : cursor ≤ byteLen (passed ++ p.text) := by
        rw [byteLen_append]
        omega
      have hrest := ih _ hps htext hle
      simpa [tokensOf, htoken] using hrest
    | some t =>
      rcases Piece.token?_eq_some htoken with ⟨-, hlexeme, hspan⟩
      have hslice : slice text t.span = .ok t.lexeme := by
        rw [hspan, hlexeme]
        exact slice_span hstart htext
      have hstop : t.span.stop = byteLen (passed ++ p.text) := by
        rw [hspan, byteLen_append, ← hstart]
        rfl
      have hbegin : t.span.start = byteLen passed := by rw [hspan, ← hstart]; rfl
      have hfull : t.span.isEmpty = false := by
        have := byteLen_pos hne
        rw [byteLen_append] at hstop
        simp only [Span.isEmpty, decide_eq_false_iff_not]
        omega
      have hrest := ih _ hps htext (Nat.le_of_eq hstop)
      have htokens : tokensOf (p :: ps) = t :: tokensOf ps := by simp [tokensOf, htoken]
      rw [htokens, wellFormedFrom, hrest, hslice, hfull, hbegin]
      simp [hcursor]

/-- The tokens among tiled pieces of a text are in order and apart, and say what the text says. -/
theorem wellFormed_tokensOf {pieces : List Piece} (htiled : Tiled 0 pieces)
    (htext : pieces.flatMap Piece.text = text) : wellFormed text (tokensOf pieces) = true :=
  wellFormedFrom_tokensOf [] htiled htext.symm (Nat.le_refl 0)

/-- The tokens among tiled pieces of a text, with the gaps around them, are the text. -/
theorem reconstruct_tokensOf {pieces : List Piece} (htiled : Tiled 0 pieces)
    (htext : pieces.flatMap Piece.text = text) : reconstruct text (tokensOf pieces) = .ok text :=
  reconstruct_of_wellFormed (wellFormed_tokensOf htiled htext)

/-! ## Scans that are not torn -/

/-- A scan that can always move is never torn. -/
theorem tornAt?_scan_eq_none (hadv : Advances step text) (hin : here.IsIn text) :
    tornAt? (scan step here) = none := by
  induction here using MovesTo.induction step with
  | next here ih =>
    by_cases hahead : here.rest = []
    · rw [scan_eq_nil hahead]
      rfl
    · rcases hadv here hin hahead with ⟨there, hmove⟩
      have hlater : tornAt? (scan step there) = none := ih there hmove (hmove.isIn hin)
      rcases scan_eq_cons_of_movesTo hmove with ⟨front, -, -, -, hscan⟩
      have htarget : (pieceAt step here front).target? = none := by
        unfold pieceAt Piece.target?
        cases (step here).kind <;> rfl
      rw [hscan, tornAt?, List.findSome?_cons, htarget]
      exact hlater

/-- A scan that can always move gives the tokens among its pieces. -/
theorem ofScan_eq_ok (hadv : Advances step text) :
    Sweep.ofScan text step =
      .ok (Sweep.inPlace text (tokensOf (scan step (Place.start text)))) := by
  have htorn := tornAt?_scan_eq_none hadv (Place.isIn_start text)
  unfold Sweep.ofScan
  dsimp only
  rw [htorn]

/-- The tokens of a sweep are those among the pieces of its scan. -/
theorem tokens_of_ofScan {sweep : Sweep} (h : Sweep.ofScan text step = .ok sweep) :
    sweep.tokens = tokensOf (scan step (Place.start text)) := by
  unfold Sweep.ofScan at h
  dsimp only at h
  split at h
  · cases h
  · rw [← Except.ok.inj h]
    rfl

/-! ## The places that a scan visits -/

/-- The scan from `here` comes to `there`. -/
def Visits (step : Place → Move) : Place → Place → Prop := Relation.ReflTransGen (MovesTo step)

theorem Visits.refl : Visits step here here := Relation.ReflTransGen.refl

theorem Visits.tail {p : Place} (h : Visits step here there) (hm : MovesTo step there p) :
    Visits step here p := Relation.ReflTransGen.tail h hm

theorem Visits.head {p : Place} (hm : MovesTo step here there) (h : Visits step there p) :
    Visits step here p := Relation.ReflTransGen.head hm h

/-- A scan comes to places of its text only. -/
theorem Visits.isIn (h : Visits step here there) (hin : here.IsIn text) : there.IsIn text := by
  induction h with
  | refl => exact hin
  | tail _ hm ih => exact hm.isIn ih

theorem Visits.offset_le (h : Visits step here there) : here.offset ≤ there.offset := by
  induction h with
  | refl => exact Nat.le_refl _
  | tail _ hm ih => exact Nat.le_trans ih (Nat.le_of_lt hm.offset_lt)

/-- Of two places that a scan visits, it comes from one of them to the other. -/
theorem Visits.total {p q : Place} (hp : Visits step here p) (hq : Visits step here q) :
    Visits step p q ∨ Visits step q p :=
  Relation.ReflTransGen.total_of_right_unique (fun _ _ _ => movesTo_unique) hp hq

/-- A scan stays at a place or makes the move there. -/
theorem visits_iff_of_movesTo {p : Place} (h : MovesTo step here there) :
    Visits step here p ↔ p = here ∨ Visits step there p := by
  constructor
  · intro hvisits
    rcases Relation.ReflTransGen.cases_head hvisits with heq | ⟨q, hq, hlater⟩
    · exact Or.inl heq.symm
    · rw [movesTo_unique h hq]
      exact Or.inr hlater
  · rintro (rfl | hvisits)
    · exact Visits.refl
    · exact Visits.head h hvisits

/-- A scan that has left a place is not before the end of its move. -/
theorem Visits.offset_ge_of_lt {p : Place} (h : Visits step here there) (hm : MovesTo step here p)
    (hlt : here.offset < there.offset) : p.offset ≤ there.offset := by
  rcases (visits_iff_of_movesTo hm).1 h with rfl | hvisits
  · exact absurd hlt (Nat.lt_irrefl _)
  · exact hvisits.offset_le

/-- Two moves of a scan that pass the same byte are one move. -/
theorem Visits.eq_of_covers {p q p' q' : Place} {offset : Nat} (hin : here.IsIn text)
    (hp : Visits step here p) (hq : Visits step here q) (hpm : MovesTo step p p')
    (hqm : MovesTo step q q') (hpo : p.offset ≤ offset ∧ offset < p'.offset)
    (hqo : q.offset ≤ offset ∧ offset < q'.offset) : p = q := by
  apply (hp.isIn hin).eq_of_offset (hq.isIn hin)
  -- the scan leaves the earlier place by its move, so it is behind the byte at the later one
  rcases Nat.lt_trichotomy p.offset q.offset with hlt | heq | hgt
  · rcases hp.total hq with h | h
    · have := h.offset_ge_of_lt hpm hlt
      omega
    · have := h.offset_le
      omega
  · exact heq
  · rcases hp.total hq with h | h
    · have := h.offset_le
      omega
    · have := h.offset_ge_of_lt hqm hgt
      omega

/-- A scan that can always move passes every byte ahead. -/
theorem exists_visits_covering (hadv : Advances step text) (hin : here.IsIn text) {offset : Nat}
    (hle : here.offset ≤ offset) (hlt : offset < byteLen text) :
    ∃ p p', Visits step here p ∧ MovesTo step p p' ∧ p.offset ≤ offset ∧ offset < p'.offset := by
  induction here using MovesTo.induction step with
  | next here ih =>
    have hahead : here.rest ≠ [] := by
      intro hnil
      have := hin.offset_le
      rw [hnil, byteLen_nil] at this
      omega
    rcases hadv here hin hahead with ⟨there, hmove⟩
    by_cases hnext : offset < there.offset
    · exact ⟨here, there, Visits.refl, hmove, hle, hnext⟩
    · -- the byte is still ahead
      rcases ih there hmove (hmove.isIn hin) (Nat.le_of_not_lt hnext) with
        ⟨p, p', hvisits, hcovers⟩
      exact ⟨p, p', Visits.head hmove hvisits, hcovers⟩

/-- A move of a scan that can always move goes over each character of the text. -/
theorem exists_visits_over (hadv : Advances step text) (hin : here.IsIn text) {c : Char} {t : Text}
    (hhead : here.rest = c :: t) :
    ∃ p p' a b, Visits step (Place.start text) p ∧ MovesTo step p p' ∧
      (p.offset ≤ here.offset ∧ here.offset < p'.offset) ∧
      p.rest = (a ++ c :: b) ++ p'.rest ∧ byteLen (a ++ c :: b) = (step p).len ∧
      here = p.past a (c :: b ++ p'.rest) := by
  have hlt : here.offset < byteLen text := by
    have := hin.offset_le
    have := c.utf8Size_pos
    rw [hhead, byteLen_cons] at *
    omega
  rcases exists_visits_covering hadv (Place.isIn_start text) (Nat.zero_le here.offset) hlt with
    ⟨p, p', hp, hpm, hle, hlt'⟩
  have hcovers := And.intro hle hlt'
  have hpm' := hpm
  rcases hpm with ⟨front, hne, hrest, hlen, hp'⟩
  rw [hp', Place.past_offset] at hlt'
  rcases (hp.isIn (Place.isIn_start text)).exists_inside hin hrest hle hlt' with
    ⟨a, b, hb, rfl, hhere⟩
  rcases List.exists_cons_of_ne_nil hb with ⟨d, b, rfl⟩
  have hd : d = c := by
    rw [hhere] at hhead
    simpa using congrArg List.head? hhead
  subst hd
  exact ⟨p, p', a, b, hp, hpm', hcovers, hrest, hlen, hhere⟩

/-! ## The tokens of a scan -/

/-- The move of `step` from `here` to `there` reports the token `t`. -/
structure Reports (step : Place → Move) (here there : Place) (t : Token) : Prop where
  moves : MovesTo step here there
  kind_eq : (step here).kind = some t.kind
  rest_eq : here.rest = t.lexeme ++ there.rest
  span_eq : t.span = ⟨here.offset, there.offset⟩

/-- A token takes the bytes of the move that reports it. -/
theorem Reports.byteLen_lexeme {t : Token} (h : Reports step here there t) :
    byteLen t.lexeme = (step here).len := by
  rcases h.moves with ⟨front, -, hrest, hlen, -⟩
  rw [List.append_cancel_right (h.rest_eq.symm.trans hrest), hlen]

theorem Reports.lexeme_eq {t : Token} {front back : Text} (h : Reports step here there t)
    (hrest : here.rest = front ++ back) (hlen : byteLen front = (step here).len) :
    t.lexeme = front :=
  (append_inj_of_byteLen (h.rest_eq.symm.trans hrest) (h.byteLen_lexeme.trans hlen.symm)).1

theorem Reports.unique {p q : Place} {s t : Token} (hs : Reports step here p s)
    (ht : Reports step here q t) : s = t := by
  have hpq : p = q := movesTo_unique hs.moves ht.moves
  have hkind : s.kind = t.kind := by
    have := hs.kind_eq.symm.trans ht.kind_eq
    simpa using this
  have hlexeme : s.lexeme = t.lexeme := by
    have := hs.rest_eq.symm.trans ht.rest_eq
    rw [hpq] at this
    exact List.append_cancel_right this
  have hspan : s.span = t.span := by rw [hs.span_eq, ht.span_eq, hpq]
  cases s
  cases t
  simp_all

/-- A scan that cannot move finds no tokens. -/
theorem tokensOf_scan_of_stuck (h : ¬∃ there, MovesTo step here there) :
    tokensOf (scan step here) = [] := by
  by_cases hahead : here.rest = []
  · rw [scan_eq_nil hahead]
    rfl
  · rw [scan_eq_torn hahead h]
    rfl

/-- The tokens of a scan are what its first move reports, and the tokens behind it. -/
theorem tokensOf_scan_of_movesTo (h : MovesTo step here there) :
    ((step here).kind = none ∧ tokensOf (scan step here) = tokensOf (scan step there)) ∨
      ∃ t, Reports step here there t ∧
        tokensOf (scan step here) = t :: tokensOf (scan step there) := by
  rcases scan_eq_cons_of_movesTo h with ⟨front, hne, hrest, hlen, hscan⟩
  cases hkind : (step here).kind with
  | none =>
    left
    have htoken : (pieceAt step here front).token? = none := by
      simp [pieceAt, hkind, Piece.token?]
    exact ⟨rfl, by rw [hscan]; simp [tokensOf, htoken]⟩
  | some kind =>
    right
    have htoken : (pieceAt step here front).token? =
        some ⟨kind, front, Span.ofLen here.offset (byteLen front)⟩ := by
      simp [pieceAt, hkind, Piece.token?, Piece.span]
    refine ⟨⟨kind, front, Span.ofLen here.offset (byteLen front)⟩, ⟨h, hkind, hrest, ?_⟩, ?_⟩
    · rw [h.offset_eq, ← hlen]
      rfl
    · rw [hscan]
      simp [tokensOf, htoken]

/-- A move that reports a token puts it before those of the rest. -/
theorem tokensOf_scan_of_reports {t : Token} (h : Reports step here there t) :
    tokensOf (scan step here) = t :: tokensOf (scan step there) := by
  rcases tokensOf_scan_of_movesTo h.moves with ⟨hkind, -⟩ | ⟨s, hs, htokens⟩
  · have hsome := h.kind_eq
    rw [hkind] at hsome
    cases hsome
  · rw [htokens, hs.unique h]

/-- A move without a token leaves those of the rest. -/
theorem tokensOf_scan_of_silent (h : MovesTo step here there) (hkind : (step here).kind = none) :
    tokensOf (scan step here) = tokensOf (scan step there) := by
  rcases tokensOf_scan_of_movesTo h with ⟨-, htokens⟩ | ⟨t, ht, -⟩
  · exact htokens
  · have hsome := ht.kind_eq
    rw [hkind] at hsome
    cases hsome

/-- The tokens of a scan are those that its moves report. -/
theorem mem_tokensOf_scan {t : Token} :
    t ∈ tokensOf (scan step here) ↔ ∃ p p', Visits step here p ∧ Reports step p p' t := by
  induction here using MovesTo.induction step with
  | next here ih =>
    by_cases hmove : ∃ there, MovesTo step here there
    · rcases hmove with ⟨there, hmove⟩
      have hlater := ih there hmove
      rcases tokensOf_scan_of_movesTo hmove with ⟨hkind, htokens⟩ | ⟨s, hreports, htokens⟩
      · -- the first move reports nothing, so each token is reported behind it
        rw [htokens, hlater]
        constructor
        · rintro ⟨p, p', hvisits, hp⟩
          exact ⟨p, p', (visits_iff_of_movesTo hmove).2 (Or.inr hvisits), hp⟩
        · rintro ⟨p, p', hvisits, hp⟩
          rcases (visits_iff_of_movesTo hmove).1 hvisits with rfl | hvisits
          · have := hp.kind_eq
            rw [hkind] at this
            cases this
          · exact ⟨p, p', hvisits, hp⟩
      · rw [htokens, List.mem_cons, hlater]
        constructor
        · rintro (rfl | ⟨p, p', hvisits, hp⟩)
          · exact ⟨here, there, Visits.refl, hreports⟩
          · exact ⟨p, p', (visits_iff_of_movesTo hmove).2 (Or.inr hvisits), hp⟩
        · rintro ⟨p, p', hvisits, hp⟩
          rcases (visits_iff_of_movesTo hmove).1 hvisits with rfl | hvisits
          · exact Or.inl (hp.unique hreports)
          · exact Or.inr ⟨p, p', hvisits, hp⟩
    · rw [tokensOf_scan_of_stuck hmove]
      constructor
      · intro hmem
        cases hmem
      · -- the scan visits no place but this one, where it cannot move
        rintro ⟨p, p', hvisits, hp⟩
        rcases Relation.ReflTransGen.cases_head hvisits with rfl | ⟨q, hq, -⟩
        · exact absurd ⟨p', hp.moves⟩ hmove
        · exact absurd ⟨q, hq⟩ hmove

end Strata
