import Strata.Proofs.Literals
import Strata.Proofs.Stripped

/-!
# Comments and literals

The comments of a text are what the scan for comments reports; cutting the layout at the end leaves
them as they are. That scan takes a closed literal in one move, as the scan for literals does, so
that nothing inside a literal starts a comment. The two part where a comment comes first, and at an
empty pair of single quotes: the scan for literals takes both quotes, the scan for comments one of
them, and then tries the other one as the start of a literal.

* `commentStep_cases`: the moves of the scan for comments;
* `CommentEnd`, `Reports.commentEnd`: how a comment ends;
* `comments_stripComments`: the comments of a text, by the places of that scan;
* `visits_commentStep`: up to which place it comes to the places of the scan for literals;
* `no_comment_in_literal`: where no comment starts inside a literal.
-/

namespace Strata

variable {text : Text} {here there : Place} {len : Nat} {c : Char} {t front back : Text}

/-! ## Where a comment starts -/

/-- Comments start with a slash. -/
theorem commentLen?_eq_none (h : c ≠ '/') : commentLen? (c :: t) = none := by
  unfold commentLen?
  split <;> simp_all

/-- A slash opens no comment unless a slash or a star is next. -/
theorem commentLen?_slash :
    commentLen? ('/' :: t) = none ↔ t.head? ≠ some '/' ∧ t.head? ≠ some '*' := by
  unfold commentLen?
  split
  · simp_all
  · simp_all
  · rename_i hslash hstar
    cases t with
    | nil => simp
    | cons d t =>
      have hd : d ≠ '/' := fun hd => hslash t (by rw [hd])
      have hd' : d ≠ '*' := fun hd => hstar t (by rw [hd])
      simp [hd, hd']

/-- A front of a text starts no comment if the text starts none. -/
theorem commentLen?_eq_none_of_append (h : commentLen? (front ++ back) = none) :
    commentLen? front = none := by
  rcases front with _ | ⟨c, _ | ⟨d, front⟩⟩
  · rfl
  · by_cases hc : c = '/'
    · rw [hc, commentLen?_slash]
      simp
    · exact commentLen?_eq_none hc
  · by_cases hc : c = '/'
    · rw [hc, List.cons_append, commentLen?_slash] at h
      rw [hc, commentLen?_slash]
      exact h
    · exact commentLen?_eq_none hc

/-- No quote stands in the mark of a comment. -/
theorem commentLen?_before_quote : commentLen? (c :: '\'' :: t) = none := by
  by_cases hc : c = '/'
  · rw [hc, commentLen?_slash]
    simp
  · exact commentLen?_eq_none hc

/-! ## The moves of the scan for comments -/

/-- The moves of a scan for comments, told apart by what is ahead. -/
inductive CommentMove (here : Place) : Prop
  | comment {len : Nat} (hcomment : commentLen? here.rest = some len)
      (hmove : commentStep here = .report .comment len)
  | literal {len : Nat} (hcomment : commentLen? here.rest = none)
      (hquoted : quotedLen? here.rest = some len) (hmove : commentStep here = .pass len)
  | other {c : Char} {t : Text} (hrest : here.rest = c :: t)
      (hcomment : commentLen? here.rest = none) (hquoted : quotedLen? here.rest = none)
      (hmove : commentStep here = .pass c.utf8Size)

/-- What the scan for comments does at a character. -/
theorem commentStep_cases (h : here.rest = c :: t) : CommentMove here := by
  have hpeek : here.peek? = some c := Place.peek?_eq_some h
  cases hcomment : commentLen? here.rest with
  | some len => exact .comment hcomment (by simp [commentStep, hcomment])
  | none =>
    cases hquoted : quotedLen? here.rest with
    | some len => exact .literal hcomment hquoted (by simp [commentStep, hcomment, hquoted])
    | none => exact .other h hcomment hquoted (by simp [commentStep, hcomment, hquoted, hpeek])

/-- No comment starts where a closed literal does. -/
theorem commentLen?_of_quotedLen? (h : quotedLen? here.rest = some len) :
    commentLen? here.rest = none := by
  cases hrest : here.rest with
  | nil => rfl
  | cons c t =>
    apply commentLen?_eq_none
    rintro rfl
    rcases quote_of_quotedLen? hrest h with hc | hc <;> cases hc

/-- A literal is passed as a whole, with any comment mark in it. -/
theorem commentStep_literal (h : quotedLen? here.rest = some len) :
    commentStep here = .pass len := by
  simp [commentStep, commentLen?_of_quotedLen? h, h]

/-- Whatever the scan takes is a comment, of the length of a comment. -/
theorem len_of_kind_commentStep {kind : Kind} (h : (commentStep here).kind = some kind) :
    kind = .comment ∧ commentLen? here.rest = some (commentStep here).len := by
  cases hcomment : commentLen? here.rest with
  | some len =>
    have hmove : commentStep here = .report .comment len := by simp [commentStep, hcomment]
    rw [hmove] at h
    exact ⟨(Option.some.inj h).symm, by rw [hmove]; rfl⟩
  | none =>
    have hmove : (commentStep here).kind = none := by simp [commentStep, hcomment, Move.pass]
    rw [hmove] at h
    cases h

/-! ## How a comment ends -/

theorem blockLen_cons (h : c = '*' → t.head? ≠ some '/') :
    blockLen (c :: t) = c.utf8Size + blockLen t := by
  rw [blockLen]
  rintro t' rfl rfl
  exact h rfl rfl

/-- A block that is never closed goes on to the end. -/
theorem blockLen_of_unclosed {body : Text} (h : ¬['*', '/'] <:+: body) :
    blockLen body = byteLen body := by
  induction body with
  | nil => rfl
  | cons c body ih =>
    rw [blockLen_cons, ih, byteLen_cons]
    · exact fun hbody => h (hbody.trans (List.suffix_cons c body).isInfix)
    · rintro rfl hhead
      rcases List.head?_eq_some_iff.1 hhead with ⟨back, rfl⟩
      exact h ⟨[], back, rfl⟩

/-- A block that is closed ends with its first `*/`. -/
theorem exists_of_closed {body : Text} (h : ['*', '/'] <:+: body) :
    ∃ front back, body = front ++ ['*', '/'] ++ back ∧ ¬['*', '/'] <:+: front ++ ['*'] ∧
      blockLen body = byteLen (front ++ ['*', '/']) := by
  induction body with
  | nil => cases List.infix_nil.1 h
  | cons c body ih =>
    by_cases hend : c = '*' ∧ body.head? = some '/'
    · rcases List.head?_eq_some_iff.1 hend.2 with ⟨back, hbody⟩
      rw [hend.1, hbody]
      refine ⟨[], back, rfl, ?_, rfl⟩
      intro hfirst
      exact absurd hfirst.length_le (by decide)
    · have hlater : ['*', '/'] <:+: body := by
        rcases List.infix_cons_iff.1 h with ⟨back, hback⟩ | hlater
        · obtain ⟨hc, hbody⟩ := List.cons.inj hback
          exact absurd ⟨hc.symm, by rw [← hbody]; rfl⟩ hend
        · exact hlater
      rcases ih hlater with ⟨front, back, hbody, hfirst, hlen⟩
      refine ⟨c :: front, back, by rw [hbody]; rfl, ?_, ?_⟩
      · rw [List.cons_append, List.infix_cons_iff]
        rintro (⟨later, hstart⟩ | hinside)
        · obtain ⟨hc, hslash⟩ := List.cons.inj hstart
          -- the slash behind the star is the first character of the body
          cases front with
          | nil => cases hslash
          | cons d front =>
            obtain ⟨rfl, -⟩ := List.cons.inj hslash
            exact hend ⟨hc.symm, by rw [hbody]; rfl⟩
        · exact hfirst hinside
      · rw [blockLen_cons fun hc hhead => hend ⟨hc, hhead⟩, hlen]
        rfl

/-- A comment goes on to the end of the line, or to the end of its block. -/
theorem exists_of_commentLen? (h : commentLen? t = some len) :
    (∃ u, t = '/' :: '/' :: u ∧ len = 2 + byteLen (u.takeWhile (· ≠ '\n'))) ∨
      ∃ u, t = '/' :: '*' :: u ∧ len = 2 + blockLen u := by
  unfold commentLen? at h
  split at h
  · exact .inl ⟨_, rfl, (Option.some.inj h).symm⟩
  · exact .inr ⟨_, rfl, (Option.some.inj h).symm⟩
  · cases h

/-- The comment that a text starts with, told apart by how it ends: before a line break or with the
text, with the first `*/` behind its mark, or never. -/
inductive CommentEnd (rest lexeme : Text) : Prop
  | line {body back : Text} (hrest : rest = '/' :: '/' :: body ++ back)
      (hlexeme : lexeme = '/' :: '/' :: body) (hbody : '\n' ∉ body)
      (hback : ∀ c ∈ back.head?, c = '\n')
  | closed {body back : Text} (hrest : rest = '/' :: '*' :: (body ++ ['*', '/']) ++ back)
      (hlexeme : lexeme = '/' :: '*' :: (body ++ ['*', '/']))
      (hfirst : ¬['*', '/'] <:+: body ++ ['*'])
  | never {body : Text} (hrest : rest = '/' :: '*' :: body) (hnever : ¬['*', '/'] <:+: body)
      (hlexeme : lexeme = rest)

theorem Reports.commentEnd {k : Token} (h : Reports commentStep here there k) :
    CommentEnd here.rest k.lexeme := by
  have hslash : ('/' : Char).utf8Size = 1 := rfl
  have hstar : ('*' : Char).utf8Size = 1 := rfl
  rcases exists_of_commentLen? (len_of_kind_commentStep h.kind_eq).2 with
    ⟨u, hrest, hlen⟩ | ⟨body, hrest, hlen⟩
  · have hsplit : here.rest = '/' :: '/' :: u.takeWhile (· ≠ '\n') ++ u.dropWhile (· ≠ '\n') := by
      rw [hrest, List.cons_append, List.cons_append, List.takeWhile_append_dropWhile]
    refine .line hsplit (h.lexeme_eq hsplit ?_) ?_ ?_
    · rw [hlen, byteLen_cons, byteLen_cons, hslash]
      omega
    · intro hbreak
      simpa using List.mem_takeWhile_imp hbreak
    · intro c hc
      simpa using eq_false_of_mem_head?_dropWhile hc
  · by_cases hclosed : ['*', '/'] <:+: body
    · rcases exists_of_closed hclosed with ⟨front, back, hbody, hfirst, hblock⟩
      have hsplit : here.rest = '/' :: '*' :: (front ++ ['*', '/']) ++ back := by
        rw [hrest, hbody]
        rfl
      refine .closed hsplit (h.lexeme_eq hsplit ?_) hfirst
      rw [hlen, hblock, byteLen_cons, byteLen_cons, hslash, hstar]
      omega
    · refine .never hrest hclosed (h.lexeme_eq (List.append_nil _).symm ?_)
      rw [hlen, blockLen_of_unclosed hclosed, hrest, byteLen_cons, byteLen_cons, hslash, hstar]
      omega

/-! ## The comments of a text -/

/-- The tokens of one kind among pieces are the pieces of that kind. -/
theorem filter_kind_tokensOf (kind : Kind) (pieces : List Piece) :
    (tokensOf pieces).filter (·.kind = kind) =
      tokensOf (pieces.filter (·.mark = .token kind)) := by
  induction pieces with
  | nil => rfl
  | cons p ps ih =>
    unfold tokensOf at ih ⊢
    cases htoken : p.token? with
    | none =>
      have hmark : p.mark ≠ .token kind := by
        intro hmark
        rw [Piece.token?, hmark] at htoken
        cases htoken
      rw [List.filterMap_cons_none htoken, List.filter_cons_of_neg (by simpa using hmark), ih]
    | some t =>
      rcases Piece.token?_eq_some htoken with ⟨hmark, -, -⟩
      rw [List.filterMap_cons_some htoken]
      by_cases hkind : t.kind = kind
      · rw [List.filter_cons_of_pos (by simpa using hkind),
          List.filter_cons_of_pos (by simpa [hkind] using hmark), List.filterMap_cons_some htoken,
          ih]
      · have hother : p.mark ≠ .token kind := by
          rw [hmark]
          simpa using hkind
        rw [List.filter_cons_of_neg (by simpa using hkind),
          List.filter_cons_of_neg (by simpa using hother), ih]

/-- Cutting the layout at the end leaves the comments as they are. -/
theorem filter_comment_cutTrailingLayout (ps : List Piece) :
    (cutTrailingLayout ps).filter (·.mark = .token .comment) =
      ps.filter (·.mark = .token .comment) := by
  have hcut : ∀ p : Piece, p.mark = .filler →
      p.cutLayout.reverse.filter (·.mark = .token .comment) = [] := by
    intro p hmark
    rcases exists_append_of_cutLayout hmark with ⟨kept, cut, hp, hkept, hcut, -⟩
    rw [List.filter_eq_nil_iff]
    intro q hq
    rw [List.mem_reverse, hp, List.mem_append] at hq
    rcases hq with hq | hq
    · simp [hkept q hq]
    · simp [hcut q hq]
  fun_induction cutTrailingLayout ps with
  | case1 => rfl
  | case2 p older hmark _ ih =>
    rw [List.filter_append, hcut p hmark, ih, List.filter_cons_of_neg (by simp [hmark])]
    rfl
  | case3 p older hmark _ =>
    rw [List.filter_append, hcut p hmark, List.filter_cons_of_neg (by simp [hmark])]
    rfl
  | case4 p older _ ih => rw [List.filter_cons, ih, List.filter_cons]

/-- The scan for comments reports nothing but comments. -/
theorem kind_of_mem_comments {k : Token} (h : k ∈ tokensOf (scan commentStep here)) :
    k.kind = .comment := by
  rcases mem_tokensOf_scan.1 h with ⟨p, p', -, hreports⟩
  exact (len_of_kind_commentStep hreports.kind_eq).1

/-- The comments of a text are what the scan for comments reports. -/
theorem comments_stripComments (text : Text) :
    (stripComments text).tokens.filter (·.kind = .comment) =
      tokensOf (scan commentStep (Place.start text)) := by
  have htokens : (stripComments text).tokens = tokensOf (strippedPieces text) := rfl
  rw [htokens, filter_kind_tokensOf, strippedPieces, List.filter_reverse,
    filter_comment_cutTrailingLayout, ← List.filter_reverse, List.reverse_reverse,
    ← filter_kind_tokensOf, tokensOf_gather]
  exact List.filter_eq_self.2 fun k hk => by simpa using kind_of_mem_comments hk

/-- The comments that are removed are those that the scan reports. -/
theorem mem_comments {k : Token} :
    (k ∈ (stripComments text).tokens ∧ k.kind = .comment) ↔
      ∃ p p', Visits commentStep (Place.start text) p ∧ Reports commentStep p p' k := by
  rw [← mem_tokensOf_scan, ← comments_stripComments, List.mem_filter]
  simp

/-! ## The two scans side by side -/

/-- Whether a text starts with an empty pair of single quotes whose second one opens a char
literal. -/
def opensInPair : Text → Bool
  | '\'' :: '\'' :: t => (quotedLen? ('\'' :: t)).isSome
  | _ => false

/-- A place at which the two scans part: both come to it, the scan for literals takes an empty pair
there, and the scan for comments one quote of it and then a char literal. -/
structure SplitsPair (text : Text) (p : Place) : Prop where
  comments : Visits commentStep (Place.start text) p
  literals : Visits literalStep (Place.start text) p
  opens : opensInPair p.rest = true

/-- Where a comment starts, it is reported. -/
theorem exists_comment_of_visits (h : Visits commentStep (Place.start text) here)
    (hcomment : commentLen? here.rest = some len) :
    ∃ k ∈ (stripComments text).tokens, k.kind = .comment ∧ k.span.start = here.offset := by
  have hstep : commentStep here = .report .comment len := by simp [commentStep, hcomment]
  have hcan : here.CanPass (commentStep here).len := by
    rw [hstep]
    exact canPass_of_commentLen? hcomment
  rcases hcan.exists_movesTo with ⟨there, hmove⟩
  rcases tokensOf_scan_of_movesTo hmove with ⟨hnone, -⟩ | ⟨k, hreports, -⟩
  · rw [hstep] at hnone
    cases hnone
  · rcases mem_comments.2 ⟨here, there, h, hreports⟩ with ⟨hk, hkind⟩
    exact ⟨k, hk, hkind, by rw [hreports.span_eq]⟩

/-- Behind the first quote of an empty pair whose second quote opens nothing, the scan for comments
goes by the second quote, too. -/
theorem visits_past_pair (h : Visits commentStep (Place.start text) here)
    (hrest : here.rest = '\'' :: '\'' :: t) (hquoted : quotedLen? ('\'' :: t) = none) :
    Visits commentStep (Place.start text) (here.past ['\'', '\''] t) := by
  have hcomment : ∀ u : Text, commentLen? ('\'' :: u) = none :=
    fun _ => commentLen?_eq_none (by decide)
  have hfirst : commentStep here = .pass 1 := by
    simp [commentStep, hrest, hcomment, quotedLen?_pair, Place.peek?]
    rfl
  have hsecond : commentStep (here.past ['\''] ('\'' :: t)) = .pass 1 := by
    simp [commentStep, hcomment, hquoted, Place.peek?]
    rfl
  have hmove : MovesTo commentStep here (here.past ['\''] ('\'' :: t)) :=
    movesTo_past (by simp) hrest (by rw [hfirst]; rfl)
  have hlater : MovesTo commentStep (here.past ['\''] ('\'' :: t))
      ((here.past ['\''] ('\'' :: t)).past ['\''] t) :=
    movesTo_past (by simp) rfl (by rw [hsecond]; rfl)
  rw [Place.past_past] at hlater
  exact (h.tail hmove).tail hlater

/-- The scan for comments comes to a place of the scan for literals, unless a comment starts before
it or the scans have parted at an empty pair. -/
theorem visits_commentStep (h : Visits literalStep (Place.start text) here) :
    Visits commentStep (Place.start text) here ∨
      (∃ k ∈ (stripComments text).tokens, k.kind = .comment ∧ k.span.start < here.offset) ∨
      ∃ p, SplitsPair text p ∧ p.offset + 2 ≤ here.offset := by
  induction h with
  | refl => exact Or.inl Visits.refl
  | @tail p q hp hmove ih =>
    have hlt := hmove.offset_lt
    rcases ih with hvisits | ⟨k, hk, hkind, hbefore⟩ | ⟨r, hr, hbefore⟩
    · rcases hmove.exists_head with ⟨c, t, hhead⟩
      have hcases : CommentMove p := commentStep_cases hhead
      cases hcases with
      | comment hcomment _ =>
        rcases exists_comment_of_visits hvisits hcomment with ⟨k, hk, hkind, hstart⟩
        exact Or.inr (Or.inl ⟨k, hk, hkind, by omega⟩)
      | literal _ hquoted hstep =>
        left
        exact hvisits.tail (hmove.of_len_eq (by rw [hstep, (literalStep_literal hquoted).1]; rfl))
      | @other d u hrest hcomment hquoted hstep =>
        by_cases hpair : d = '\'' ∧ u.head? = some '\''
        · -- an empty pair, of which the scan for literals takes both quotes
          rcases List.head?_eq_some_iff.1 hpair.2 with ⟨u, rfl⟩
          rw [hpair.1] at hrest
          have hq : q = p.past ['\'', '\''] u := movesTo_unique hmove
            (movesTo_past (by simp) hrest (by rw [literalStep_emptyPair hrest]; rfl))
          have hoffset : q.offset = p.offset + 2 := by rw [hq]; rfl
          cases hsecond : quotedLen? ('\'' :: u) with
          | some len =>
            right; right
            exact ⟨p, ⟨hvisits, hp, by rw [hrest, opensInPair, hsecond]; rfl⟩, by omega⟩
          | none =>
            left
            rw [hq]
            exact visits_past_pair hvisits hrest hsecond
        · left
          have hother : literalStep p = .pass d.utf8Size :=
            literalStep_other hrest hquoted fun hd hu => hpair ⟨hd, hu⟩
          exact hvisits.tail (hmove.of_len_eq (by rw [hstep, hother]))
    · exact Or.inr (Or.inl ⟨k, hk, hkind, by omega⟩)
    · exact Or.inr (Or.inr ⟨r, hr, by omega⟩)

/-- No comment starts inside a literal that no comment precedes, as long as the scans have not
parted at an empty pair before it. -/
theorem no_comment_in_literal {l : Span} (hl : l ∈ literalSpans text)
    (hfirst : ∀ k ∈ (stripComments text).tokens, k.kind = .comment → l.start ≤ k.span.start)
    (hpairs : ∀ p, SplitsPair text p → l.start < p.offset + 2) :
    ∀ k ∈ (stripComments text).tokens, k.kind = .comment → l.contains k.span.start = false := by
  intro k hk hkind
  rcases List.mem_map.1 hl with ⟨token, htoken, rfl⟩
  rcases mem_tokensOf_scan.1 htoken with ⟨p, p', hp, hreports⟩
  rcases kind_literalStep (by rw [hreports.kind_eq]; rfl) with ⟨len, hquoted⟩
  rw [hreports.span_eq] at hfirst hpairs ⊢
  rcases visits_commentStep hp with hvisits | ⟨j, hj, hjkind, hbefore⟩ | ⟨q, hq, hbefore⟩
  · -- the scan for comments takes the literal in one move
    rw [← Bool.not_eq_true, Span.contains_eq_true]
    intro hcovers
    have hmove : MovesTo commentStep p p' := hreports.moves.of_len_eq
      (by rw [commentStep_literal hquoted, (literalStep_literal hquoted).1]; rfl)
    rcases mem_comments.1 ⟨hk, hkind⟩ with ⟨q, q', hq, hkreports⟩
    rw [hkreports.span_eq] at hcovers
    have heq : p = q := Visits.eq_of_covers (Place.isIn_start text) hvisits hq hmove
      hkreports.moves hcovers ⟨Nat.le_refl _, hkreports.moves.offset_lt⟩
    have hnone := hkreports.kind_eq
    rw [← heq, commentStep_literal hquoted] at hnone
    cases hnone
  · exact absurd (hfirst j hj hjkind) (Nat.not_le_of_lt hbefore)
  · exact absurd (hpairs q hq) (Nat.not_lt_of_le hbefore)

/-- An empty pair whose second quote opens nothing, a string with the marks of a comment, and a
comment behind it. -/
theorem no_comment_in_literal_behind_pair :
    (⟨3, 9⟩ : Span) ∈ literalSpans "'';\"a//b\"//c".toList ∧
      ∀ k ∈ (stripComments "'';\"a//b\"//c".toList).tokens, k.kind = .comment →
        (⟨3, 9⟩ : Span).contains k.span.start = false := by
  have hl : (⟨3, 9⟩ : Span) ∈ literalSpans "'';\"a//b\"//c".toList := by decide +kernel
  have hpairs : ∀ p ∈ places "'';\"a//b\"//c".toList, opensInPair p.rest = false := by
    decide +kernel
  refine ⟨hl, no_comment_in_literal hl (by decide +kernel) ?_⟩
  intro p hsplits
  have hahead : p.rest ≠ [] := by
    intro hnil
    have hopens := hsplits.opens
    rw [hnil] at hopens
    cases hopens
  have hplace : p ∈ places "'';\"a//b\"//c".toList :=
    mem_places.2 ⟨hsplits.comments.isIn (Place.isIn_start _), hahead⟩
  have hopens := hsplits.opens
  rw [hpairs p hplace] at hopens
  cases hopens

/-- Behind an empty pair whose second quote opens a char literal, a comment starts inside a string
that no comment precedes. -/
theorem comment_in_literal_behind_split_pair :
    ∃ l ∈ literalSpans "''\"'//\"".toList,
      (∀ k ∈ (stripComments "''\"'//\"".toList).tokens, k.kind = .comment →
        l.start ≤ k.span.start) ∧
      ∃ k ∈ (stripComments "''\"'//\"".toList).tokens, k.kind = .comment ∧
        l.contains k.span.start = true := by
  decide +kernel

end Strata
