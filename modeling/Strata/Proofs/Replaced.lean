import Strata.Proofs.Kept
import Strata.Proofs.Outcome
import Strata.Proofs.Quoted

/-!
# What a comment says

What stands in a comment shows nowhere but in the token of the comment. A quote before the comment
that opens no literal could still be closed from inside it or behind it, but no char literal is long
enough to reach over the mark of a comment, and a string that is not closed with one body of the
comment is not closed with another one that holds no double quote: at the mark, and again at the end
of the comment, the search for the closing quote starts afresh.

* `CommentStyle.Admits`: what can stand in a comment instead of its body;
* `closingLen?_append_plain`: where the search for a closing quote starts afresh;
* `keptText_eq_of_visits`: what is kept before a comment does not depend on its body;
* `sweeps_of_other_body`: another body changes no later text and no later token.
-/

namespace Strata

variable {text before after front back body body' : Text} {here there p : Place} {c d : Char}
  {len : Nat}

/-! ## The search for a closing quote -/

theorem closingFrom?_eq_none {passed : Nat} {t : Text} :
    closingFrom? passed t = none ↔ closingLen? t = none := by
  rw [closingFrom?_eq_map_closingLen?, Option.map_eq_none_iff]

/-- A character that is neither a quote nor a backslash is passed. -/
theorem closingLen?_plain {t : Text} (hquote : c ≠ '"') (hescape : c ≠ '\\') :
    closingLen? (c :: t) = none ↔ closingLen? t = none := by
  rw [closingLen?, closingFrom?, closingFrom?_eq_none]
  · exact hquote
  · simp [hescape]
  · simp [hescape]

/-- Behind a character that is neither a quote nor a backslash, the search for a closing quote
starts afresh, whether the character was escaped or not. -/
theorem closingLen?_append_plain (hquote : c ≠ '"') (hescape : c ≠ '\\') :
    closingLen? (front ++ c :: back) = none ↔
      closingLen? (front ++ [c]) = none ∧ closingLen? back = none := by
  suffices h : ∀ n, closingFrom? n (front ++ c :: back) = none ↔
      closingFrom? n (front ++ [c]) = none ∧ closingLen? back = none from h 0
  intro n
  fun_induction closingFrom? n front with
  | case1 n =>
    rw [List.nil_append, List.nil_append, closingFrom?_eq_none, closingFrom?_eq_none,
      closingLen?_plain hquote hescape, closingLen?_plain hquote hescape]
    exact ⟨fun h => ⟨rfl, h⟩, And.right⟩
  | case2 n t => simp [closingFrom?]
  | case3 n =>
    -- the backslash escapes the character
    change closingFrom? (n + (1 + c.utf8Size)) back = none ↔
      closingFrom? (n + (1 + c.utf8Size)) [] = none ∧ closingLen? back = none
    rw [closingFrom?_eq_none]
    exact ⟨fun h => ⟨rfl, h⟩, And.right⟩
  | case4 n e t ih => exact ih
  | case5 n e t hquote' hlone hescape' ih =>
    have hplain : e ≠ '\\' := by
      rintro rfl
      cases t with
      | nil => exact hlone rfl rfl
      | cons f t => exact hescape' f t rfl rfl
    rw [List.cons_append, List.cons_append, closingFrom?_eq_none, closingFrom?_eq_none,
      closingLen?_plain hquote' hplain, closingLen?_plain hquote' hplain]
    rwa [closingFrom?_eq_none, closingFrom?_eq_none] at ih

/-- Without a double quote, nothing is closed. -/
theorem closingLen?_eq_none_of_not_mem {t : Text} (h : '"' ∉ t) : closingLen? t = none := by
  cases hclosing : closingLen? t with
  | none => rfl
  | some len =>
    rcases exists_of_closingFrom? hclosing with ⟨front, back, rfl, -, hlast, -⟩
    exact absurd (List.mem_append_left back (List.mem_of_getLast? hlast)) h

/-! ## Before the mark of a comment -/

/-- What stands behind the first character of a comment is never quoted. -/
theorem quotedLen?_single_before_mark {x : Char} (hx : x = '/' ∨ x = '*') (r r' : Text)
    (h : quotedLen? ('\'' :: (front ++ '/' :: x :: r)) = none) :
    quotedLen? ('\'' :: (front ++ '/' :: x :: r')) = none := by
  have hquote : x ≠ '\'' := by rcases hx with rfl | rfl <;> decide
  rcases front with _ | ⟨c, front⟩
  · rw [List.nil_append, quotedLen?_plain (by decide), if_neg (by simp [hquote])]
  by_cases hescape : c = '\\'
  · subst hescape
    rcases front with _ | ⟨d, _ | ⟨e, front⟩⟩
    · rw [List.cons_append, List.nil_append, quotedLen?_escape, if_neg (by simp [hquote])]
    · rw [List.cons_append, List.cons_append, List.nil_append, quotedLen?_escape,
        if_neg (by simp)]
    · rw [List.cons_append, List.cons_append, quotedLen?_escape] at h ⊢
      exact h
  · rcases front with _ | ⟨d, front⟩
    · rw [List.cons_append, List.nil_append, quotedLen?_plain hescape, if_neg (by simp)]
    · rw [List.cons_append, quotedLen?_plain hescape] at h ⊢
      exact h

/-- A quote before the mark of a comment that opens no literal opens none if the text behind the
mark is replaced by one that closes no string that was not closed. -/
theorem quotedLen?_before_mark {x : Char} {r r' : Text} (hx : x = '/' ∨ x = '*')
    (hclosing : closingLen? r = none → closingLen? r' = none)
    (h : quotedLen? (c :: (front ++ '/' :: x :: r)) = none) :
    quotedLen? (c :: (front ++ '/' :: x :: r')) = none := by
  by_cases hdouble : c = '"'
  · subst hdouble
    have hquote : x ≠ '"' := by rcases hx with rfl | rfl <;> decide
    have hescape : x ≠ '\\' := by rcases hx with rfl | rfl <;> decide
    have hopen : ∀ t, quotedLen? ('"' :: (front ++ '/' :: x :: t)) = none ↔
        closingLen? (front ++ ['/'] ++ [x]) = none ∧ closingLen? t = none := by
      intro t
      have hmark : front ++ '/' :: x :: t = front ++ ['/'] ++ x :: t := by simp
      rw [quotedLen?, closingFrom?_eq_none, hmark, closingLen?_append_plain hquote hescape]
    rw [hopen] at h ⊢
    exact ⟨h.1, hclosing h.2⟩
  by_cases hsingle : c = '\''
  · subst hsingle
    exact quotedLen?_single_before_mark hx r r' h
  · exact quotedLen?_eq_none hdouble hsingle

theorem blockLen_pos {t : Text} (h : t ≠ []) : 0 < blockLen t := by
  rcases List.exists_cons_of_ne_nil h with ⟨c, t, rfl⟩
  have hpos := c.utf8Size_pos
  by_cases hend : c = '*' ∧ t.head? = some '/'
  · rcases List.head?_eq_some_iff.1 hend.2 with ⟨t, rfl⟩
    rw [hend.1]
    exact Nat.two_pos
  · rw [blockLen_cons fun hc ht => hend ⟨hc, ht⟩]
    omega

/-- A block that ends before the text does ends there whatever comes behind it. -/
theorem blockLen_append (hne : back ≠ []) (h : blockLen (front ++ back) = byteLen front)
    (back' : Text) : blockLen (front ++ back') = byteLen front := by
  induction front with
  | nil =>
    have hpos := blockLen_pos hne
    rw [List.nil_append, byteLen_nil] at h
    omega
  | cons c front ih =>
    by_cases hend : c = '*' ∧ (front ++ back).head? = some '/'
    · rcases List.head?_eq_some_iff.1 hend.2 with ⟨t, ht⟩
      have hstar : ('*' : Char).utf8Size = 1 := rfl
      have hlen : 2 = byteLen ('*' :: front) := by
        rw [hend.1, List.cons_append, ht] at h
        exact h
      rcases front with _ | ⟨d, front⟩
      · rw [byteLen_cons, byteLen_nil, hstar] at hlen
        omega
      · obtain rfl : d = '/' := (List.cons.inj ht).1
        have hslash : ('/' : Char).utf8Size = 1 := rfl
        have hnil : front = [] := by
          rw [byteLen_cons, byteLen_cons, hstar, hslash] at hlen
          exact byteLen_eq_zero.1 (by omega)
        rw [hend.1, hnil]
        rfl
    · rw [List.cons_append, blockLen_cons fun hc ht => hend ⟨hc, ht⟩, byteLen_cons] at h
      have hfront : blockLen (front ++ back) = byteLen front := by omega
      rw [List.cons_append, blockLen_cons, ih hfront, byteLen_cons]
      intro hc ht
      cases front with
      | nil =>
        have hpos := blockLen_pos hne
        rw [List.nil_append, byteLen_nil] at hfront
        omega
      | cons d front => exact hend ⟨hc, ht⟩

/-- A comment before other text ends where it ends as long as that text starts alike. -/
theorem commentLen?_of_head?_eq (hne : back ≠ []) {back' : Text} (hhead : back.head? = back'.head?)
    (h : commentLen? (front ++ back) = some (byteLen front)) :
    commentLen? (front ++ back') = some (byteLen front) := by
  have hslash : ('/' : Char).utf8Size = 1 := rfl
  have hstar : ('*' : Char).utf8Size = 1 := rfl
  -- the mark of the comment is in the front
  have hmark : ∀ {x u}, x.utf8Size = 1 → front ++ back = '/' :: x :: u → 2 ≤ byteLen front →
      ∃ f, front = '/' :: x :: f ∧ u = f ++ back ∧ byteLen front = 2 + byteLen f := by
    intro x u hx hfront hlong
    rcases front with _ | ⟨c, _ | ⟨d, front⟩⟩
    · rw [byteLen_nil] at hlong
      omega
    · obtain rfl : c = '/' := (List.cons.inj hfront).1
      rw [byteLen_cons, byteLen_nil, hslash] at hlong
      omega
    · obtain ⟨rfl, rfl, rfl⟩ : c = '/' ∧ d = x ∧ front ++ back = u := by simpa using hfront
      refine ⟨front, rfl, rfl, ?_⟩
      rw [byteLen_cons, byteLen_cons, hslash, hx]
      omega
  rcases exists_of_commentLen? h with ⟨u, hu, hlen⟩ | ⟨u, hu, hlen⟩
  · rcases hmark hslash hu (by omega) with ⟨f, rfl, rfl, hfront⟩
    have hline : byteLen ((f ++ back).takeWhile (· ≠ '\n')) = byteLen f := by omega
    rw [byteLen_takeWhile_eq, hhead, ← byteLen_takeWhile_eq] at hline
    rw [hfront, List.cons_append, List.cons_append, commentLen?, hline]
  · rcases hmark hstar hu (by omega) with ⟨f, rfl, rfl, hfront⟩
    rw [hfront, List.cons_append, List.cons_append, commentLen?,
      blockLen_append hne (by omega) back']

/-- Where a character starts no comment, it starts none as long as the next character is the
same. -/
theorem commentLen?_cons_of_head?_eq {t t' : Text} (hhead : t.head? = t'.head?)
    (h : commentLen? (c :: t) = none) : commentLen? (c :: t') = none := by
  by_cases hslash : c = '/'
  · rw [hslash, commentLen?_slash] at h ⊢
    rwa [← hhead]
  · exact commentLen?_eq_none hslash

/-! ## What is kept of a text -/

/-- The characters of a text outside its comments. -/
def keptText (t : Text) : Text := (keptFrom (Place.start t)).map (·.2)

/-- What is kept depends on the text ahead alone. -/
theorem map_keptFrom (here : Place) : (keptFrom here).map (·.2) = keptText here.rest := by
  suffices h : ∀ here there : Place, here.rest = there.rest →
      (keptFrom here).map (·.2) = (keptFrom there).map (·.2) from h here _ rfl
  intro here
  induction here using MovesTo.induction commentStep with
  | next here ih =>
    intro there heq
    cases hhead : here.rest with
    | nil => rw [keptFrom_nil hhead, keptFrom_nil (heq.symm.trans hhead)]
    | cons c t =>
      have hstep : commentStep here = commentStep there := by
        rw [commentStep, commentStep, Place.peek?, Place.peek?, heq]
      rcases canPass_commentStep hhead with ⟨front, back, hne, hrest, hlen⟩
      have hrest' : there.rest = front ++ back := heq.symm.trans hrest
      have hlen' : byteLen front = (commentStep there).len := by rw [← hstep, hlen]
      have hlater := ih _ (movesTo_past hne hrest hlen) (there.past front back) rfl
      cases hcomment : commentLen? here.rest with
      | some len =>
        rw [keptFrom_comment (movesTo_past hne hrest hlen) hcomment,
          keptFrom_comment (movesTo_past hne hrest' hlen') (heq ▸ hcomment), hlater]
      | none =>
        rw [keptFrom_other hcomment hne hrest hlen,
          keptFrom_other (heq ▸ hcomment) hne hrest' hlen', List.map_append, List.map_append,
          map_snd_located, map_snd_located, hlater]

/-- Of a comment, nothing is kept. -/
theorem keptText_comment (h : commentLen? (front ++ back) = some (byteLen front)) :
    keptText (front ++ back) = keptText back := by
  have hstep : (commentStep (Place.start (front ++ back))).len = byteLen front := by
    rw [commentStep, show commentLen? (Place.start (front ++ back)).rest = _ from h]
    rfl
  have hne : front ≠ [] := by
    rintro rfl
    have hlen : commentLen? (Place.start back).rest = some 0 := h
    rcases canPass_of_commentLen? hlen with ⟨a, b, hne, -, hlen⟩
    exact hne (byteLen_eq_zero.1 hlen)
  have hmove : MovesTo commentStep (Place.start (front ++ back))
      ((Place.start (front ++ back)).past front back) := movesTo_past hne rfl hstep.symm
  rw [keptText, keptFrom_comment hmove h, map_keptFrom]
  rfl

/-- Of what is no comment, all is kept. -/
theorem keptText_other (hcomment : commentLen? (front ++ back) = none) (hne : front ≠ [])
    (hlen : (commentStep (Place.start (front ++ back))).len = byteLen front) :
    keptText (front ++ back) = front ++ keptText back := by
  have hrest : (Place.start (front ++ back)).rest = front ++ back := rfl
  rw [keptText, keptFrom_other hcomment hne hrest hlen.symm, List.map_append, map_snd_located,
    map_keptFrom]
  rfl

/-- A literal is kept as a whole. -/
theorem keptText_literal (h : quotedLen? (front ++ back) = some (byteLen front)) :
    keptText (front ++ back) = front ++ keptText back := by
  have hquoted : quotedLen? (Place.start (front ++ back)).rest = some (byteLen front) := h
  refine keptText_other (commentLen?_of_quotedLen? hquoted) ?_ ?_
  · rintro rfl
    rcases canPass_of_quotedLen? hquoted with ⟨a, b, hne, -, hlen⟩
    exact hne (byteLen_eq_zero.1 hlen)
  · rw [commentStep_literal hquoted]
    rfl

/-- A character that starts neither a comment nor a literal is kept. -/
theorem keptText_cons {t : Text} (hcomment : commentLen? (c :: t) = none)
    (hquoted : quotedLen? (c :: t) = none) : keptText (c :: t) = c :: keptText t := by
  have hlen : (commentStep (Place.start ([c] ++ t))).len = byteLen [c] := by
    simp [commentStep, Place.start, Place.peek?, hcomment, hquoted, Move.pass]
  exact keptText_other hcomment (List.cons_ne_nil c []) hlen

/-- Up to the mark of a comment, what is kept depends on the comment only through what is kept from
there on, if the comment is replaced by one that closes no string that was not closed. -/
theorem keptText_eq_of_visits {x : Char} {r r' : Text} (hx : x = '/' ∨ x = '*')
    (hclosing : closingLen? r = none → closingLen? r' = none)
    (hkept : keptText ('/' :: x :: r) = keptText ('/' :: x :: r'))
    (hvisits : Visits commentStep p here) (hhere : here.rest = '/' :: x :: r) :
    ∃ front, p.rest = front ++ '/' :: x :: r ∧
      keptText p.rest = keptText (front ++ '/' :: x :: r') := by
  induction hvisits using Relation.ReflTransGen.head_induction_on with
  | refl => exact ⟨[], hhere, by rw [hhere, hkept]; rfl⟩
  | @head p q hmove _ ih =>
    rcases ih with ⟨front, hq, hlater⟩
    rcases hmove.exists_head with ⟨c, t, hhead⟩
    rcases hmove with ⟨moved, hne, hrest, hlen, -⟩
    have hcases : CommentMove p := commentStep_cases hhead
    cases hcases with
    | @comment len hcomment hstep =>
      have hmoved : commentLen? (moved ++ q.rest) = some (byteLen moved) := by
        rw [← hrest, hcomment, hlen, hstep]
        rfl
      have hmoved' : commentLen? (moved ++ (front ++ '/' :: x :: r')) = some (byteLen moved) := by
        refine commentLen?_of_head?_eq ?_ ?_ hmoved
        · simp [hq]
        · rw [hq]
          cases front <;> rfl
      refine ⟨moved ++ front, by rw [hrest, hq, List.append_assoc], ?_⟩
      rw [hrest, keptText_comment hmoved, hlater, List.append_assoc, keptText_comment hmoved']
    | @literal len hcomment hquoted hstep =>
      rcases exists_of_quotedLen? hquoted with ⟨literal, rest, hliteral, hbytes, -, hany⟩
      have hmoved : moved = literal := by
        refine (append_inj_of_byteLen (hrest.symm.trans hliteral) ?_).1
        rw [hlen, hstep, hbytes]
        rfl
      rw [← hbytes, ← hmoved] at hany
      refine ⟨moved ++ front, by rw [hrest, hq, List.append_assoc], ?_⟩
      rw [hrest, keptText_literal (hany _), hlater, List.append_assoc, keptText_literal (hany _)]
    | @other d u hrest' hcomment hquoted hstep =>
      have hmoved : [d] = moved ∧ u = q.rest := by
        refine append_inj_of_byteLen (hrest'.symm.trans hrest) ?_
        rw [hlen, hstep]
        simp [Move.pass]
      obtain ⟨rfl, rfl⟩ := hmoved
      rw [hrest', hq] at hcomment hquoted
      have hcomment' : commentLen? (d :: (front ++ '/' :: x :: r')) = none := by
        refine commentLen?_cons_of_head?_eq ?_ hcomment
        cases front <;> rfl
      have hquoted' := quotedLen?_before_mark hx hclosing hquoted
      refine ⟨d :: front, by rw [hrest', hq]; rfl, ?_⟩
      rw [hrest', hq, keptText_cons hcomment hquoted, ← hq, hlater, List.cons_append,
        keptText_cons hcomment' hquoted']

/-! ## Bodies of comments -/

/-- How a comment is written. -/
inductive CommentStyle where
  | line
  /-- Between marks on both sides. -/
  | block
deriving DecidableEq, Repr

namespace CommentStyle

/-- The character behind the slash that a comment starts with. -/
def mark : CommentStyle → Char
  | line => '/'
  | block => '*'

/-- What a comment ends with. -/
def closing : CommentStyle → Text
  | line => []
  | block => ['*', '/']

/-- What ends a comment, and so stands in none. A line break ends one and is no part of it. -/
def terminator : CommentStyle → Text
  | line => ['\n']
  | block => ['*', '/']

/-- The comment with a given body. -/
def comment (style : CommentStyle) (body : Text) : Text :=
  '/' :: style.mark :: (body ++ style.closing)

/-- Whether a comment can have a body, and no double quote is in it. -/
structure Admits (style : CommentStyle) (body : Text) : Prop where
  no_quote : '"' ∉ body
  no_end : ¬style.terminator <:+: body

/-- Behind a line comment there is a line break or nothing. -/
def EndsBefore (style : CommentStyle) (after : Text) : Prop :=
  style = line → ∀ c ∈ after.head?, c = '\n'

end CommentStyle

variable {style : CommentStyle}

theorem blockLen_closed (h : ¬['*', '/'] <:+: body) :
    blockLen (body ++ '*' :: '/' :: after) = byteLen body + 2 := by
  induction body with
  | nil => rfl
  | cons c body ih =>
    rw [List.cons_append, blockLen_cons, ih, byteLen_cons, Nat.add_assoc]
    · exact fun hbody => h (hbody.trans (List.suffix_cons c body).isInfix)
    · rintro rfl hhead
      cases body with
      | nil => cases hhead
      | cons d body =>
        obtain rfl : d = '/' := by simpa using hhead
        exact h ⟨[], body, rfl⟩

theorem byteLen_comment (style : CommentStyle) (body : Text) :
    byteLen (style.comment body) = 2 + (byteLen body + byteLen style.closing) := by
  have hslash : ('/' : Char).utf8Size = 1 := rfl
  have hmark : style.mark.utf8Size = 1 := by cases style <;> rfl
  rw [CommentStyle.comment, byteLen_cons, byteLen_cons, byteLen_append, hslash, hmark]
  omega

theorem comment_append (style : CommentStyle) (body after : Text) :
    style.comment body ++ after = '/' :: style.mark :: (body ++ style.closing ++ after) := rfl

/-- A comment is read to its end. -/
theorem commentLen?_comment (hbody : ¬style.terminator <:+: body)
    (hafter : style.EndsBefore after) :
    commentLen? (style.comment body ++ after) = some (byteLen (style.comment body)) := by
  rw [byteLen_comment, comment_append]
  cases style with
  | line =>
    have hline : byteLen ((body ++ after).takeWhile (· ≠ '\n')) = byteLen body := by
      rw [byteLen_takeWhile_eq]
      constructor
      · intro c hc
        rw [decide_eq_true_eq]
        rintro rfl
        rcases List.append_of_mem hc with ⟨s, t, rfl⟩
        exact hbody ⟨s, t, by simp [CommentStyle.terminator]⟩
      · intro c hc
        rw [hafter rfl c hc]
        rfl
    rw [CommentStyle.mark, commentLen?, CommentStyle.closing, List.append_nil, hline]
    rfl
  | block =>
    have hclosed : body ++ CommentStyle.block.closing ++ after = body ++ '*' :: '/' :: after := by
      simp [CommentStyle.closing]
    rw [hclosed, CommentStyle.mark, commentLen?, blockLen_closed hbody]
    rfl

/-- Where a line comment ends, there is a line break or nothing. -/
theorem endsBefore_of_commentLen?
    (h : commentLen? (style.comment body ++ after) = some (byteLen (style.comment body))) :
    style.EndsBefore after := by
  rintro rfl
  rw [byteLen_comment, comment_append, CommentStyle.mark, commentLen?, CommentStyle.closing,
    List.append_nil, byteLen_nil, Nat.add_zero] at h
  have hline : byteLen ((body ++ after).takeWhile (· ≠ '\n')) = byteLen body := by
    have := Option.some.inj h
    omega
  rw [byteLen_takeWhile_eq] at hline
  intro c hc
  simpa using hline.2 c hc

/-- A body without a double quote closes no string that another body leaves open. -/
theorem closingLen?_body (hquote : '"' ∉ body') (hafter : style.EndsBefore after)
    (h : closingLen? (body ++ style.closing ++ after) = none) :
    closingLen? (body' ++ style.closing ++ after) = none := by
  cases style with
  | line =>
    rw [CommentStyle.closing, List.append_nil] at h ⊢
    rcases after with _ | ⟨c, after⟩
    · rw [List.append_nil]
      exact closingLen?_eq_none_of_not_mem hquote
    · obtain rfl : c = '\n' := hafter rfl c rfl
      rw [closingLen?_append_plain (by decide) (by decide)] at h ⊢
      exact ⟨closingLen?_eq_none_of_not_mem (by simpa using hquote), h.2⟩
  | block =>
    have hclosing : ∀ t : Text, t ++ CommentStyle.block.closing ++ after =
        (t ++ ['*']) ++ '/' :: after := by
      intro t
      simp [CommentStyle.closing]
    rw [hclosing, closingLen?_append_plain (by decide) (by decide)] at h ⊢
    exact ⟨closingLen?_eq_none_of_not_mem (by simpa using hquote), h.2⟩

/-! ## Another body -/

/-- A comment of a text is read where it stands. -/
theorem exists_visits_of_comment
    (hk : ⟨.comment, style.comment body,
        Span.ofLen (byteLen before) (byteLen (style.comment body))⟩ ∈
      (stripComments (before ++ style.comment body ++ after)).tokens) :
    ∃ here, Visits commentStep (Place.start (before ++ style.comment body ++ after)) here ∧
      here.rest = style.comment body ++ after ∧
      commentLen? here.rest = some (byteLen (style.comment body)) := by
  rcases mem_comments.1 ⟨hk, rfl⟩ with ⟨here, there, hvisits, hreports⟩
  rcases hvisits.isIn (Place.isIn_start _) with ⟨read, hread, hoffset, -⟩
  have hstart : byteLen before = byteLen read := by
    rw [← hoffset]
    exact congrArg Span.start hreports.span_eq
  rw [List.append_assoc] at hread
  refine ⟨here, hvisits, (append_inj_of_byteLen hread hstart).2.symm, ?_⟩
  rw [(len_of_kind_commentStep hreports.kind_eq).2, ← hreports.byteLen_lexeme]

/-- With another body of a comment, the first sweep leaves the same text. -/
theorem text_stripComments_of_other_body
    (hk : ⟨.comment, style.comment body,
        Span.ofLen (byteLen before) (byteLen (style.comment body))⟩ ∈
      (stripComments (before ++ style.comment body ++ after)).tokens)
    (hbody : style.Admits body') :
    (stripComments (before ++ style.comment body' ++ after)).text =
      (stripComments (before ++ style.comment body ++ after)).text := by
  rcases exists_visits_of_comment hk with ⟨here, hvisits, hhere, hlen⟩
  rw [hhere] at hlen
  have hafter := endsBefore_of_commentLen? hlen
  have hkept :
      keptText (style.comment body ++ after) = keptText (style.comment body' ++ after) := by
    rw [keptText_comment hlen, keptText_comment (commentLen?_comment hbody.no_end hafter)]
  have hmark : style.mark = '/' ∨ style.mark = '*' := by
    cases style
    · exact .inl rfl
    · exact .inr rfl
  rcases keptText_eq_of_visits hmark (closingLen?_body hbody.no_quote hafter) hkept hvisits hhere
    with ⟨front, hfront, hsame⟩
  have hbefore : before = front := by
    have hrest :
        before ++ (style.comment body ++ after) = front ++ (style.comment body ++ after) := by
      rw [← List.append_assoc]
      exact hfront
    exact List.append_cancel_right hrest
  rw [← hbefore, ← comment_append, ← List.append_assoc] at hsame
  rw [text_stripComments_eq_rdropWhile, text_stripComments_eq_rdropWhile]
  exact congrArg _ hsame.symm

/-- What a step starts from, where it leads, and what it finds on the way. -/
def Passage.work (r : Passage) : Layer × Text × Sweep := (r.layer, r.input, r.sweep)

/-- All later texts depend on what the first sweep leaves only. -/
theorem textAt_eq_of_uncommented {source source' : Text} {layer : Layer}
    (htext : (stripComments source').text = (stripComments source).text) (hlayer : layer ≠ .raw) :
    textAt source' layer = textAt source layer := by
  cases layer with
  | raw => exact absurd rfl hlayer
  | uncommented => exact htext
  | _ => exact congrArg (fun t => (condenseLayout t).text) htext

/-- Behind the first sweep, all steps go by the text that it has left. -/
theorem StepsThrough.work_eq {source source' : Text} {profile : Profile} {layer : Layer}
    {passages passages' : List Passage}
    (htext : (stripComments source').text = (stripComments source).text)
    (h : StepsThrough source profile layer passages)
    (h' : StepsThrough source' profile layer passages') (hlayer : layer ≠ .raw) :
    passages'.map Passage.work = passages.map Passage.work := by
  induction h generalizing passages' with
  | done =>
    cases h' with
    | done => rfl
    | step hnext => cases hnext
  | @step layer next sweep origin passages hnext hsweep _ ih =>
    cases h' with
    | done => cases hnext
    | @step _ next' sweep' origin' passages' hnext' hsweep' hlater' =>
      obtain rfl : next' = next := Option.some.inj (hnext'.symm.trans hnext)
      have hinput := textAt_eq_of_uncommented htext hlayer
      rw [hinput] at hsweep'
      obtain rfl : sweep' = sweep := Except.ok.inj (hsweep'.symm.trans hsweep)
      have hnext_ne : next' ≠ .raw := by
        rintro rfl
        cases layer <;> cases hnext
      rw [List.map_cons, List.map_cons, ih hlater' hnext_ne, Passage.work, Passage.work, hinput]

/-- Another body of a comment leaves the text without comments as it is, and so every later text and
all that is found in it. -/
theorem sweeps_of_other_body (name : String) (keywords : KeywordTable) (symbols : List SymbolEntry)
    (style : CommentStyle) (before body body' after : Text)
    (hk : ⟨.comment, style.comment body,
        Span.ofLen (byteLen before) (byteLen (style.comment body))⟩ ∈
      (stripComments (before ++ style.comment body ++ after)).tokens)
    (hbody : style.Admits body') :
    (stripComments (before ++ style.comment body' ++ after)).text =
        (stripComments (before ++ style.comment body ++ after)).text ∧
      ∃ outcome outcome',
        Outcome.ofText (before ++ style.comment body ++ after) ⟨name, keywords, .ofList symbols⟩ =
          .ok outcome ∧
        Outcome.ofText (before ++ style.comment body' ++ after) ⟨name, keywords, .ofList symbols⟩ =
          .ok outcome' ∧
        outcome.passages.tail.map (·.layer) = Layer.all.drop 2 ∧
        outcome'.passages.tail.map Passage.work = outcome.passages.tail.map Passage.work := by
  have htext := text_stripComments_of_other_body hk hbody
  have hprofile : (⟨name, keywords, .ofList symbols⟩ : Profile).IsBuilt := ⟨symbols, rfl⟩
  rcases exists_outcome (before ++ style.comment body ++ after) hprofile with
    ⟨outcome, -, houtcome, -, hsteps⟩
  rcases exists_outcome (before ++ style.comment body' ++ after) hprofile with
    ⟨outcome', -, houtcome', -, hsteps'⟩
  refine ⟨htext, outcome, outcome', houtcome, houtcome', ?_, ?_⟩
  · rw [List.map_tail, hsteps.layers_eq]
    rfl
  · -- the first step leads to the text without comments
    generalize outcome.passages = passages at hsteps
    generalize outcome'.passages = passages' at hsteps'
    cases hsteps with
    | step hnext _ hlater =>
      cases hnext
      cases hsteps' with
      | step hnext' _ hlater' =>
        cases hnext'
        exact hlater.work_eq htext hlater' (by decide)

/-- Before the comment a string is opened that is never closed; the other body holds single quotes,
a backslash and the mark of a line comment. -/
theorem sweeps_of_other_body_open_string :
    CommentStyle.block.Admits "\\'x'//".toList ∧
      (stripComments ("s = \"a' ".toList ++ CommentStyle.block.comment "\\'x'//".toList ++
          " 'c'".toList)).text =
        (stripComments ("s = \"a' ".toList ++ CommentStyle.block.comment " b ".toList ++
          " 'c'".toList)).text := by
  have hbody : CommentStyle.block.Admits "\\'x'//".toList := ⟨by decide, by decide⟩
  exact ⟨hbody, (sweeps_of_other_body "" ⟨[]⟩ [] .block _ _ _ _ (by decide +kernel) hbody).1⟩

end Strata
