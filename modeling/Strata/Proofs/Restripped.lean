import Strata.Proofs.Embedding
import Strata.Proofs.Kept
import Strata.Proofs.Quoted

/-!
# Removing comments twice

A comment is removed without a trace, so that what stood on both sides of it stands side by side.
No comment arises from that alone: a slash before a comment would have started one itself. But a
single quote before a comment can open a char literal with what comes behind the comment, and from
there on the quotes pair up in another way. Only behind such a literal can a second sweep find
comments in what the first one has left.

* `noMarks_keptFrom`: nothing marks a comment behind a string that is never closed;
* `Meets`: a place of the source and a place of what is left, with the same text ahead;
* `JoinedChar`: a char literal out of which a comment was removed;
* `Meets.step`, `visits_restripped`: how far the scan over what is left keeps to the first one;
* `comments_of_restripped`: where the second sweep finds comments, and that it changes nothing if
  it finds none.
-/

namespace Strata

variable {source : Text} {here there p q : Place} {len : Nat} {c : Char} {t front back : Text}

/-! ## Marks of comments -/

/-- Nothing in a text looks like the start of a comment. -/
def NoMarks : Text → Prop
  | [] => True
  | c :: t => commentLen? (c :: t) = none ∧ NoMarks t

/-- Where no comment is opened, there is no comment. -/
theorem NoMarks.head (h : NoMarks t) : commentLen? t = none := by
  cases t with
  | nil => rfl
  | cons c t => exact h.1

theorem NoMarks.append_left (h : NoMarks (front ++ back)) : NoMarks front := by
  induction front with
  | nil => trivial
  | cons c front ih => exact ⟨commentLen?_eq_none_of_append h.1, ih h.2⟩

theorem NoMarks.append_right (h : NoMarks (front ++ back)) : NoMarks back := by
  induction front with
  | nil => exact h
  | cons c front ih => exact ih h.2

/-- What is kept starts with what is ahead, unless that is a comment. -/
theorem exists_keptFrom_cons (hhead : here.rest = c :: t)
    (hcomment : commentLen? here.rest = none) :
    ∃ kept, keptFrom here = (here.offset, c) :: kept := by
  rcases canPass_commentStep hhead with ⟨front, back, hne, hrest, hlen⟩
  rcases List.exists_cons_of_ne_nil hne with ⟨d, front, rfl⟩
  obtain rfl : c = d := Place.head_unique hhead hrest
  exact ⟨_, keptFrom_other hcomment hne hrest hlen⟩

/-- Where no comment starts, what is kept starts with none: a slash before a comment would have
started one itself. -/
theorem commentLen?_keptFrom (h : commentLen? here.rest = none) :
    commentLen? ((keptFrom here).map (·.2)) = none := by
  cases hhead : here.rest with
  | nil =>
    rw [keptFrom_nil hhead]
    rfl
  | cons c t =>
    by_cases hslash : c = '/'
    · subst hslash
      have hlen : (commentStep here).len = 1 := by
        have hquoted : quotedLen? here.rest = none := by
          rw [hhead]
          exact quotedLen?_eq_none (by decide) (by decide)
        have hpeek : here.peek? = some '/' := Place.peek?_eq_some hhead
        rw [commentStep, h, hquoted, hpeek]
        rfl
      rw [keptFrom_other h (List.cons_ne_nil '/' []) hhead (by rw [hlen]; rfl), List.map_append,
        map_snd_located, List.singleton_append, commentLen?_slash]
      rw [hhead, commentLen?_slash] at h
      rcases t with _ | ⟨d, t⟩
      · rw [keptFrom_nil rfl]
        simp
      · have hd : d ≠ '/' := fun hd => h.1 (congrArg some hd)
        have hhead' : (here.past ['/'] (d :: t)).rest = d :: t := rfl
        rcases exists_keptFrom_cons hhead' (commentLen?_eq_none hd) with ⟨kept, hkept⟩
        rw [hkept]
        exact h
    · rcases exists_keptFrom_cons hhead h with ⟨kept, hkept⟩
      rw [hkept]
      exact commentLen?_eq_none hslash

/-- If no string is closed from here on, nothing that is kept looks like the start of a comment. -/
theorem noMarks_keptFrom
    (h : ∀ front back, here.rest = front ++ '"' :: back → closingLen? back = none) :
    NoMarks ((keptFrom here).map (·.2)) := by
  induction here using MovesTo.induction commentStep with
  | next here ih =>
    cases hhead : here.rest with
    | nil =>
      rw [keptFrom_nil hhead]
      trivial
    | cons c t =>
      have hlater : ∀ front back, front ≠ [] → here.rest = front ++ back →
          byteLen front = (commentStep here).len →
          NoMarks ((keptFrom (here.past front back)).map (·.2)) := by
        intro front back hne hrest hlen
        apply ih _ (movesTo_past hne hrest hlen)
        intro front' back' hback
        rw [Place.past_rest] at hback
        exact h (front ++ front') back' (by rw [hrest, hback, List.append_assoc])
      have hcases : CommentMove here := commentStep_cases hhead
      cases hcases with
      | comment hcomment _ =>
        rcases canPass_commentStep hhead with ⟨front, back, hne, hrest, hlen⟩
        rw [keptFrom_comment (movesTo_past hne hrest hlen) hcomment]
        exact hlater front back hne hrest hlen
      | @literal len hcomment hquoted hstep =>
        rcases quote_of_quotedLen? hhead hquoted with rfl | rfl
        · -- no string is closed here
          have hclosing : closingFrom? 1 t = some len := by
            rw [hhead] at hquoted
            exact hquoted
          rw [closingFrom?_eq_map_closingLen?, h [] t hhead] at hclosing
          cases hclosing
        · -- a char literal is too short to hold the mark of a comment
          have hsingle : ('\'' : Char).utf8Size = 1 := rfl
          have hescape : ('\\' : Char).utf8Size = 1 := rfl
          rw [hhead] at hquoted
          rcases exists_of_quotedLen?_single hquoted with ⟨d, back, rfl, -, -, rfl⟩ |
            ⟨d, back, rfl, rfl⟩
          · have hlen : byteLen ['\'', d, '\''] = (commentStep here).len := by
              simp only [hstep, Move.pass, byteLen_cons, byteLen_nil, hsingle]
              omega
            rw [keptFrom_other hcomment (List.cons_ne_nil _ _) hhead hlen, List.map_append,
              map_snd_located]
            exact ⟨commentLen?_eq_none (by decide), commentLen?_before_quote,
              commentLen?_eq_none (by decide), hlater _ _ (List.cons_ne_nil _ _) hhead hlen⟩
          · have hlen : byteLen ['\'', '\\', d, '\''] = (commentStep here).len := by
              simp only [hstep, Move.pass, byteLen_cons, byteLen_nil, hsingle, hescape]
              omega
            rw [keptFrom_other hcomment (List.cons_ne_nil _ _) hhead hlen, List.map_append,
              map_snd_located]
            exact ⟨commentLen?_eq_none (by decide), commentLen?_eq_none (by decide),
              commentLen?_before_quote, commentLen?_eq_none (by decide),
              hlater _ _ (List.cons_ne_nil _ _) hhead hlen⟩
      | @other d u hrest hcomment hquoted hstep =>
        have hlen : byteLen [d] = (commentStep here).len := by
          rw [hstep]
          simp [Move.pass]
        have hnone := commentLen?_keptFrom hcomment
        rw [keptFrom_other hcomment (List.cons_ne_nil d []) hrest hlen, List.map_append,
          map_snd_located] at hnone ⊢
        exact ⟨hnone, hlater _ _ (List.cons_ne_nil d []) hrest hlen⟩

/-! ## The two scans -/

/-- A place of the scan over the source, and a place of what is left of it: what is ahead of the
second one is what is kept from the first one on, without the layout that is cut at the end. -/
structure Meets (source : Text) (here p : Place) : Prop where
  visits : Visits commentStep (Place.start source) here
  ahead : ∃ passed kept cut, strippedTrail source = passed ++ kept ∧ keptFrom here = kept ++ cut ∧
    (∀ x ∈ cut, isLayout x.2 = true) ∧
    p = (Place.start (stripComments source).text).past (passed.map (·.2)) (kept.map (·.2))

/-- A scan over a text and one over what is left of it meet at the start. -/
theorem meets_start (source : Text) :
    Meets source (Place.start source) (Place.start (stripComments source).text) where
  visits := Visits.refl
  ahead := by
    refine ⟨[], strippedTrail source,
      (keptFrom (Place.start source)).rtakeWhile fun x => isLayout x.2, rfl, ?_, ?_, ?_⟩
    · rw [strippedTrail_eq_rdropWhile, List.rdropWhile_append_rtakeWhile]
    · intro x hx
      have hlayout := List.mem_rtakeWhile_imp hx
      exact hlayout
    · rw [← text_stripComments]
      exact (Place.past_nil _).symm

/-- Where a comment starts, the scan over what is left stays. -/
theorem Meets.skip (h : Meets source here p) (hmove : MovesTo commentStep here there)
    (hcomment : commentLen? here.rest = some len) : Meets source there p where
  visits := h.visits.tail hmove
  ahead := by
    rw [← keptFrom_comment hmove hcomment]
    exact h.ahead

/-- Behind the comments, the two scans meet at what is no comment. -/
theorem Meets.exists_other (h : Meets source here p) :
    ∃ there, Meets source there p ∧ commentLen? there.rest = none := by
  induction here using MovesTo.induction commentStep with
  | next here ih =>
    cases hcomment : commentLen? here.rest with
    | none => exact ⟨here, h, hcomment⟩
    | some len =>
      have hlen : (commentStep here).len = len := by
        rw [commentStep, hcomment]
        rfl
      rcases (canPass_of_commentLen? hcomment) with ⟨front, back, hne, hrest, hfront⟩
      have hmove := movesTo_past hne hrest (hfront.trans hlen.symm)
      exact ih _ hmove (h.skip hmove hcomment)

/-- Where the scans meet, what is left starts no comment. -/
theorem Meets.starts_no_comment (h : Meets source here p) : commentLen? p.rest = none := by
  rcases h.exists_other with ⟨there, ⟨-, -, kept, cut, -, hkept, -, rfl⟩, hcomment⟩
  have hnone := commentLen?_keptFrom hcomment
  rw [hkept, List.map_append] at hnone
  exact commentLen?_eq_none_of_append hnone

/-- Where the scans meet, what is left goes on with what is ahead in the source, as far as it is not
cut. -/
theorem Meets.past (h : Meets source here p) (hcomment : commentLen? here.rest = none)
    (hne : front ≠ []) (hrest : here.rest = front ++ back)
    (hlen : byteLen front = (commentStep here).len) (hlong : front.length ≤ p.rest.length) :
    ∃ behind, p.rest = front ++ behind ∧
      Meets source (here.past front back) (p.past front behind) := by
  rcases h.ahead with ⟨passed, kept, cut, htrail, hkept, hcut, rfl⟩
  rw [keptFrom_other hcomment hne hrest hlen] at hkept
  rw [Place.past_rest, List.length_map] at hlong
  have hprefix : located id here.offset front <+: kept := by
    apply List.prefix_of_prefix_length_le ⟨_, hkept⟩ (List.prefix_append kept cut)
    rw [length_located]
    exact hlong
  rcases hprefix with ⟨m, rfl⟩
  rw [List.append_assoc, List.append_cancel_left_eq] at hkept
  refine ⟨m.map (·.2), by rw [Place.past_rest, List.map_append, map_snd_located], ?_, ?_⟩
  · exact h.visits.tail (movesTo_past hne hrest hlen)
  · refine ⟨passed ++ located id here.offset front, m, cut, ?_, hkept, hcut, ?_⟩
    · rw [htrail, List.append_assoc]
    · rw [Place.past_past, List.map_append, map_snd_located]

/-- A closed literal is not cut. -/
theorem Meets.length_le (h : Meets source here p) (hcomment : Strata.commentLen? here.rest = none)
    (hquoted : quotedLen? here.rest = some len) (hrest : here.rest = front ++ back)
    (hlen : byteLen front = len) (hlast : front.getLast? = some c) (hc : isLayout c = false) :
    front.length ≤ p.rest.length := by
  have hne : front ≠ [] := by
    rintro rfl
    cases hlast
  rcases h.ahead with ⟨passed, kept, cut, -, hkept, hcut, rfl⟩
  have hstep : (commentStep here).len = len := by
    rw [commentStep_literal hquoted]
    rfl
  rw [keptFrom_other hcomment hne hrest (hlen.trans hstep.symm)] at hkept
  rw [Place.past_rest, List.length_map]
  by_contra hlt
  -- otherwise the last quote would be among the layout that is cut
  have hprefix : kept <+: located id here.offset front := by
    apply List.prefix_of_prefix_length_le (List.prefix_append kept cut) ⟨_, hkept⟩
    rw [length_located]
    omega
  rcases hprefix with ⟨m, hm⟩
  rw [← hm, List.append_assoc, List.append_cancel_left_eq] at hkept
  have hfront : front = kept.map (·.2) ++ m.map (·.2) := by
    rw [← List.map_append, hm, map_snd_located]
  have hm' : m.map (·.2) ≠ [] := by
    intro hnil
    rw [hfront, hnil, List.append_nil, List.length_map] at hlt
    exact hlt (Nat.le_refl _)
  rw [hfront, List.getLast?_append_of_ne_nil _ hm'] at hlast
  rcases List.mem_map.1 (List.mem_of_getLast? hlast) with ⟨x, hx, hxc⟩
  have hlayout := hcut x (by rw [← hkept]; exact List.mem_append_left _ hx)
  rw [hxc, hc] at hlayout
  cases hlayout

/-- Where the scans meet, the map of the first sweep leads from one place to the other. -/
theorem Meets.toSource (h : Meets source here p) (hcomment : Strata.commentLen? here.rest = none)
    (hahead : p.rest ≠ []) : (stripComments source).origin.toSource p.offset = here.offset := by
  rcases h.ahead with ⟨passed, kept, cut, htrail, hkept, -, rfl⟩
  rcases kept with _ | ⟨x, kept⟩
  · exact absurd rfl hahead
  have hx : x.1 = here.offset := by
    cases hhead : here.rest with
    | nil =>
      rw [keptFrom_nil hhead] at hkept
      cases hkept
    | cons c t =>
      rcases exists_keptFrom_cons hhead hcomment with ⟨kept', hkept'⟩
      rw [hkept'] at hkept
      exact (congrArg Prod.fst (List.cons.inj hkept).1).symm
  have hz : (byteLen (passed.map (·.2)), x) ∈ located (fun x => x.2) 0 (strippedTrail source) := by
    rw [htrail, located_append, Nat.zero_add]
    exact List.mem_append_right _ List.mem_cons_self
  have hsource := toSource_of_mem_strippedTrail hz x.2.utf8Size_pos
  rw [Nat.add_zero, Nat.add_zero] at hsource
  rw [Place.past_offset, ← hx, ← hsource]
  congr 1
  exact Nat.zero_add _

/-- Where the scans meet, the same character is ahead of both. -/
theorem Meets.exists_head (h : Meets source here p) (hcomment : Strata.commentLen? here.rest = none)
    (hhead : p.rest = c :: t) : ∃ u, here.rest = c :: u := by
  rcases h.ahead with ⟨passed, kept, cut, -, hkept, -, rfl⟩
  rcases kept with _ | ⟨x, kept⟩
  · cases hhead
  obtain rfl : x.2 = c := (List.cons.inj hhead).1
  cases hrest : here.rest with
  | nil =>
    rw [keptFrom_nil hrest] at hkept
    cases hkept
  | cons d u =>
    rcases exists_keptFrom_cons hrest hcomment with ⟨kept', hkept'⟩
    rw [hkept'] at hkept
    have hd : d = x.2 := congrArg Prod.snd (List.cons.inj hkept).1
    exact ⟨u, by rw [hd]⟩

/-- A char literal of what is left, out of which the first sweep removed a comment. -/
structure JoinedChar (source : Text) (p : Place) (literal : Text) : Prop where
  visits : Visits commentStep (Place.start (stripComments source).text) p
  single : p.peek? = some '\''
  ahead : ∃ back, p.rest = literal ++ back
  closed : quotedLen? p.rest = some (byteLen literal)
  removed : ∃ k ∈ (stripComments source).tokens, k.kind = .comment ∧
    ((stripComments source).origin.spanToSource
      (Span.ofLen p.offset (byteLen literal))).covers k.span = true

/-- Between two characters that are left, the source says something else only if it holds a
comment. -/
theorem exists_comment_of_raw {a b : Nat × Char} {raw : Text} (ha : a ∈ strippedTrail source)
    (hb : b ∈ strippedTrail source) (hslice : slice source ⟨a.1, b.1 + b.2.utf8Size⟩ = .ok raw)
    (hraw : withoutComments source a.1 raw ≠ raw) :
    ∃ k ∈ (stripComments source).tokens, k.kind = .comment ∧
      (⟨a.1, b.1 + b.2.utf8Size⟩ : Span).covers k.span = true := by
  by_contra hnone
  apply hraw
  rw [withoutComments, List.filter_eq_self.2, map_snd_located]
  intro x hx
  rw [isOutsideComments_eq_true]
  intro k hk hkind
  by_contra hcontains
  rw [Bool.not_eq_false, Span.contains_eq_true] at hcontains
  -- neither end is in the comment, so the comment stands between them
  have hsize := b.2.utf8Size_pos
  have hfirst := isOutsideComments_eq_true.1
    (isOutsideComments_of_mem_strippedTrail ha a.2.utf8Size_pos) k hk hkind
  have hlast := isOutsideComments_eq_true.1
    (isOutsideComments_of_mem_strippedTrail (j := b.2.utf8Size - 1) hb (by omega)) k hk hkind
  rw [← Bool.not_eq_true, Span.contains_eq_true] at hfirst hlast
  rcases slice_eq_ok.1 hslice with ⟨-, -, -, -, hstop⟩
  have hbounds := bounds_of_mem_located hx
  rw [List.map_id] at hbounds
  have hxsize := x.2.utf8Size_pos
  simp only [id_eq] at hbounds hstop
  refine hnone ⟨k, hk, hkind, ?_⟩
  simp only [Span.covers, Bool.and_eq_true, decide_eq_true_eq]
  omega

/-- A char literal of what is left that is none in the source was put together. -/
theorem Meets.joinedChar (h : Meets source here p) (hcomment : Strata.commentLen? here.rest = none)
    (hvisits : Visits commentStep (Place.start (stripComments source).text) p)
    (hsingle : p.rest = '\'' :: t) (hnone : quotedLen? here.rest = none)
    (hquoted : quotedLen? p.rest = some len) :
    ∃ literal, byteLen literal = len ∧ JoinedChar source p literal := by
  rcases exists_of_quotedLen? hquoted with ⟨literal, back, hrest, rfl, hlast, hany⟩
  refine ⟨literal, rfl, hvisits, Place.peek?_eq_some hsingle, ⟨back, hrest⟩, hquoted, ?_⟩
  rcases hvisits.isIn (Place.isIn_start _) with ⟨read, hread, hwhere, -⟩
  have hslice : slice (textAt source .uncommented) (Span.ofLen p.offset (byteLen literal)) =
      .ok literal :=
    slice_eq_ok.2 ⟨read, back, by rw [List.append_assoc, ← hrest]; exact hread, hwhere.symm, rfl⟩
  have hpos : 0 < byteLen literal := by
    apply byteLen_pos
    rintro rfl
    rcases hlast with hlast | hlast <;> cases hlast
  rcases exists_trail_of_slice (copies_stripComments source).traces hslice
    (Nat.lt_add_of_pos_right hpos) with ⟨front, a, part, behind, b, htrail, hpart, hb, hspan, -⟩
  rw [hspan]
  rcases exists_raw_of_strippedTrail htrail hb with ⟨raw, hraw, hwithout⟩
  have hmem : ∀ x ∈ a :: part, x ∈ strippedTrail source := by
    intro x hx
    have hx' : x ∈ trailAt source .uncommented := by
      rw [htrail]
      exact List.mem_append_left _ (List.mem_append_right _ hx)
    exact hx'
  apply exists_comment_of_raw (hmem a List.mem_cons_self) (hmem b (List.mem_of_getLast? hb)) hraw
  intro hsame
  -- otherwise the literal would stand at the place of the source
  have hliteral : raw = literal := hsame.symm.trans (hwithout.trans hpart)
  have hstart : a.1 = here.offset := by
    rw [← h.toSource hcomment (by rw [hsingle]; exact List.cons_ne_nil _ _)]
    exact (congrArg Span.start hspan).symm
  rcases slice_eq_ok.1 hraw with ⟨before, after, hsource, hbefore, -⟩
  rcases h.visits.isIn (Place.isIn_start source) with ⟨read', hread', hwhere', -⟩
  rw [hread', List.append_assoc] at hsource
  have hhere : here.rest = raw ++ after :=
    (append_inj_of_byteLen hsource (hwhere'.symm.trans (hstart.symm.trans hbefore.symm))).2
  rw [hhere, hliteral, hany] at hnone
  cases hnone

/-- Behind a string that the source never closes, nothing in what is left looks like the start of a
comment. -/
theorem Meets.noMarks (h : Meets source here p) (hrest : here.rest = '"' :: t)
    (hnone : quotedLen? here.rest = none) : NoMarks p.rest := by
  have hopen : ∀ front back, here.rest = front ++ '"' :: back → closingLen? back = none := by
    intro front back hback
    rw [hrest] at hnone hback
    have hclosing : closingFrom? 1 t = none := hnone
    rcases front with _ | ⟨c, front⟩
    · obtain ⟨-, rfl⟩ := List.cons.inj hback
      rw [closingFrom?_eq_map_closingLen?] at hclosing
      exact Option.map_eq_none_iff.1 hclosing
    · exact closingLen?_eq_none_of_append hclosing front (List.cons.inj hback).2
  rcases h.ahead with ⟨passed, kept, cut, -, hkept, -, rfl⟩
  have hmarks := noMarks_keptFrom hopen
  rw [hkept, List.map_append] at hmarks
  exact hmarks.append_left

/-- Where the scans meet, they go on to meet, unless there are no more comments or a char literal
was put together. -/
theorem Meets.step (h : Meets source here p) (hcomment : Strata.commentLen? here.rest = none)
    (hvisits : Visits commentStep (Place.start (stripComments source).text) p)
    (hmove : MovesTo commentStep p q) :
    (∃ there, Meets source there q) ∨ NoMarks p.rest ∨
      ∃ literal, JoinedChar source p literal ∧ p.offset + byteLen literal = q.offset := by
  rcases hmove.exists_head with ⟨c, t, hhead⟩
  rcases h.exists_head hcomment hhead with ⟨u, hrest⟩
  have hleft := h.starts_no_comment
  have hcases : CommentMove here := commentStep_cases hrest
  cases hcases with
  | comment hsome _ =>
    rw [hcomment] at hsome
    cases hsome
  | @literal len _ hquoted hstep =>
    left
    rcases exists_of_quotedLen? hquoted with ⟨front, back, hfront, hlen, hlast, hany⟩
    have hlen' : byteLen front = (commentStep here).len := by
      rw [hlen, hstep]
      rfl
    have hne : front ≠ [] := by
      rintro rfl
      rcases hlast with hlast | hlast <;> cases hlast
    have hlong : front.length ≤ p.rest.length := by
      rcases hlast with hlast | hlast
      · exact h.length_le hcomment hquoted hfront hlen hlast (by decide)
      · exact h.length_le hcomment hquoted hfront hlen hlast (by decide)
    rcases h.past hcomment hne hfront hlen' hlong with ⟨behind, hbehind, hmeets⟩
    have hq : q = p.past front behind := movesTo_unique hmove (movesTo_past hne hbehind
      (by rw [commentStep_literal (by rw [hbehind]; exact hany behind), hlen]; rfl))
    rw [hq]
    exact ⟨_, hmeets⟩
  | @other d u' hrest' _ hnone hstep =>
    obtain rfl : c = d := Place.head_unique hrest hrest'
    cases hquoted : quotedLen? p.rest with
    | none =>
      left
      have hlen : byteLen [c] = (commentStep here).len := by
        rw [hstep]
        simp [Move.pass]
      rcases h.past hcomment (List.cons_ne_nil c []) hrest hlen (by rw [hhead]; simp) with
        ⟨behind, hbehind, hmeets⟩
      have hpeek : p.peek? = some c := Place.peek?_eq_some hhead
      have hq : q = p.past [c] behind :=
        movesTo_unique hmove (movesTo_past (List.cons_ne_nil c []) hbehind
          (by simp [commentStep, hleft, hquoted, hpeek, Move.pass]))
      rw [hq]
      exact ⟨_, hmeets⟩
    | some len =>
      right
      rcases quote_of_quotedLen? hhead hquoted with rfl | rfl
      · exact Or.inl (h.noMarks hrest hnone)
      · right
        rcases h.joinedChar hcomment hvisits hhead hnone hquoted with ⟨literal, hlen, hjoined⟩
        refine ⟨literal, hjoined, ?_⟩
        rw [hmove.offset_eq, commentStep_literal hquoted, hlen]
        rfl

/-- Up to which place the scan over what is left keeps to the scan over the source. -/
theorem visits_restripped
    (h : Visits commentStep (Place.start (stripComments source).text) q) :
    (∃ here, Meets source here q) ∨ NoMarks q.rest ∨
      ∃ p literal, JoinedChar source p literal ∧ p.offset + byteLen literal ≤ q.offset := by
  induction h with
  | refl => exact Or.inl ⟨_, meets_start source⟩
  | @tail p q hp hmove ih =>
    have hbehind : NoMarks p.rest → NoMarks q.rest := by
      intro hmarks
      rcases hmove with ⟨front, -, hrest, -, -⟩
      rw [hrest] at hmarks
      exact hmarks.append_right
    rcases ih with ⟨here, hmeets⟩ | hmarks | ⟨r, literal, hjoined, hle⟩
    · rcases hmeets.exists_other with ⟨there, hmeets, hcomment⟩
      rcases hmeets.step hcomment hp hmove with hlater | hmarks | ⟨literal, hjoined, hoffset⟩
      · exact Or.inl hlater
      · exact Or.inr (Or.inl (hbehind hmarks))
      · exact Or.inr (Or.inr ⟨p, literal, hjoined, Nat.le_of_eq hoffset⟩)
    · exact Or.inr (Or.inl (hbehind hmarks))
    · exact Or.inr (Or.inr ⟨r, literal, hjoined, Nat.le_trans hle (Nat.le_of_lt hmove.offset_lt)⟩)

/-- A second sweep finds comments only behind a char literal that was put together when the first
one removed a comment. If it finds none, it finds nothing at all and changes nothing. -/
theorem comments_of_restripped (source : Text) :
    (∀ k ∈ (stripComments (stripComments source).text).tokens, k.kind = .comment →
      ∃ p literal, JoinedChar source p literal ∧ p.offset + byteLen literal ≤ k.span.start) ∧
    ((∀ k ∈ (stripComments (stripComments source).text).tokens, k.kind ≠ .comment) →
      (stripComments (stripComments source).text).tokens = [] ∧
        (stripComments (stripComments source).text).text = (stripComments source).text) := by
  refine ⟨?_, stripComments_of_no_comment⟩
  intro k hk hkind
  rcases mem_comments.1 ⟨hk, hkind⟩ with ⟨q, q', hq, hreports⟩
  rcases len_of_kind_commentStep hreports.kind_eq with ⟨-, hcomment⟩
  rcases visits_restripped hq with ⟨here, hmeets⟩ | hmarks | hjoined
  · rw [hmeets.starts_no_comment] at hcomment
    cases hcomment
  · rw [hmarks.head] at hcomment
    cases hcomment
  · rw [hreports.span_eq]
    exact hjoined

/-- Two texts with a comment between quotes: the first one has nothing left for a second sweep, in
the second one a char literal is put together. -/
theorem comments_of_restripped_quotes :
    (stripComments (stripComments "'a'/*b*/'c' //d".toList).text).tokens = [] ∧
      ∃ p literal, JoinedChar "'/*x*/\"'//c\"".toList p literal ∧ p.offset + byteLen literal ≤ 3 :=
  ⟨((comments_of_restripped _).2 (by decide +kernel)).1,
    (comments_of_restripped _).1 ⟨.comment, "//c\"".toList, ⟨3, 7⟩⟩ (by decide +kernel) rfl⟩

/-- Without its comment, the text reads as a char literal and a comment behind it. -/
theorem restripped_comment_behind_joined_char :
    (∃ k ∈ (stripComments (stripComments "'/*x*/\"'//c\"".toList).text).tokens,
      k.kind = .comment) ∧
    (stripComments (stripComments "'/*x*/\"'//c\"".toList).text).text ≠
      (stripComments "'/*x*/\"'//c\"".toList).text := by
  decide +kernel

end Strata
