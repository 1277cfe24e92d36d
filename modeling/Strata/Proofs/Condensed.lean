import Mathlib.Data.List.Basic
import Strata.Proofs.Stripped

/-!
# What the second sweep leaves

The second sweep keeps the first character of every run of layout, written as a space, and drops the
runs at the ends of its text. So what it leaves is a part of the text with its runs collapsed.

* `collapse`: a text with each run of layout as one space;
* `condensedTrail`: the characters kept, with their offsets;
* `text_condenseLayout`, `copies_condenseLayout`: the text and the map of the sweep, by the trail;
* `exists_squeeze_eq_condensedTrail`: the trail, by the runs of layout.
-/

namespace Strata

variable {α : Type} {text t : Text} {here : Place} {pieces : List Piece} {p : Piece} {offset : Nat}

/-! ## Collapsing runs of layout -/

/-- A text behind layout or behind other text, with each run of layout as one space. -/
def collapseAfter (layout : Bool) : Text → Text
  | [] => []
  | c :: t =>
    if isLayout c then
      if layout then collapseAfter true t else ' ' :: collapseAfter true t
    else
      c :: collapseAfter false t

/-- A text with each run of layout as one space. -/
def collapse (t : Text) : Text := collapseAfter false t

/-- The character that stands for a character left. -/
def spaced (c : Char) : Char := if isLayout c then ' ' else c

theorem utf8Size_spaced (c : Char) : (spaced c).utf8Size = c.utf8Size := by
  unfold spaced
  split
  · rename_i h
    rw [utf8Size_of_isLayout h]
    rfl
  · rfl

/-- The first element of each run of layout, and all elements outside, behind layout or behind other
text. -/
def squeezeAfter (char : α → Char) (layout : Bool) (as : List α) : List α :=
  sift (fun layout a => !(layout && isLayout (char a))) (fun _ a => isLayout (char a)) layout as

/-- The first element of each run of layout, and all elements outside. -/
def squeeze (char : α → Char) (as : List α) : List α := squeezeAfter char false as

theorem squeezeAfter_cons {char : α → Char} {layout : Bool} {a : α} {as : List α} :
    squeezeAfter char layout (a :: as) =
      if layout && isLayout (char a) then squeezeAfter char (isLayout (char a)) as
      else a :: squeezeAfter char (isLayout (char a)) as := by
  unfold squeezeAfter
  rw [sift_cons]
  cases layout && isLayout (char a) <;> rfl

/-- Collapsing the runs of a text is squeezing it, and writing the layout left as spaces. -/
theorem collapseAfter_map (char : α → Char) (layout : Bool) (as : List α) :
    collapseAfter layout (as.map char) =
      (squeezeAfter char layout as).map fun a => spaced (char a) := by
  induction as generalizing layout with
  | nil => rfl
  | cons a as ih =>
    rw [List.map_cons, collapseAfter, squeezeAfter_cons]
    cases hlayout : isLayout (char a) with
    | true => cases layout <;> simp [ih, spaced, hlayout]
    | false => simp [ih, spaced, hlayout]

theorem squeezeAfter_map {β : Type} (char : α → Char) (f : β → α) (layout : Bool) (bs : List β) :
    squeezeAfter char layout (bs.map f) =
      (squeezeAfter (fun b => char (f b)) layout bs).map f := by
  exact sift_map

/-- A part of a squeezed list comes from a part of the list with the same ends. -/
theorem exists_part_of_squeeze {char : α → Char} {as front part back : List α} {a : α}
    (h : squeeze char as = front ++ a :: part ++ back) :
    ∃ l x l', as = l ++ a :: x ++ l' ∧ squeeze char (a :: x) = a :: part ∧
      (a :: x).getLast? = (a :: part).getLast? := by
  rcases exists_part_of_sift h with ⟨l, x, l', layout, has, -, hx, hlast⟩
  refine ⟨l, x, l', has, ?_, hlast⟩
  rw [squeeze, squeezeAfter_cons, if_neg (by simp)]
  exact congrArg (a :: ·) hx

/-- Only the first element of a run of layout is kept. -/
theorem squeezeAfter_run {char : α → Char} {as : List α}
    (h : ∀ a ∈ as, isLayout (char a) = true) :
    squeezeAfter char true as = [] ∧ squeezeAfter char false as = as.take 1 := by
  have hnone : ∀ bs : List α, (∀ b ∈ bs, isLayout (char b) = true) →
      squeezeAfter char true bs = [] := by
    intro bs hbs
    induction bs with
    | nil => rfl
    | cons b bs ih =>
      rw [squeezeAfter_cons, hbs b List.mem_cons_self, if_pos (by rfl)]
      exact ih fun c hc => hbs c (List.mem_cons_of_mem b hc)
  refine ⟨hnone as h, ?_⟩
  cases as with
  | nil => rfl
  | cons a as =>
    rw [squeezeAfter_cons, h a List.mem_cons_self, if_neg (by simp),
      hnone as fun b hb => h b (List.mem_cons_of_mem a hb)]
    rfl

/-- All elements outside runs of layout are kept. -/
theorem squeezeAfter_other {char : α → Char} {as : List α}
    (h : ∀ a ∈ as, isLayout (char a) = false) (layout : Bool) :
    squeezeAfter char layout as = as := by
  induction as generalizing layout with
  | nil => rfl
  | cons a as ih =>
    rw [squeezeAfter_cons, h a List.mem_cons_self, if_neg (by simp),
      ih (fun b hb => h b (List.mem_cons_of_mem a hb))]

/-- What is kept behind a part depends only on the last character of the part. -/
theorem squeezeAfter_append {char : α → Char} {as bs : List α} {layout : Bool} {b : Bool}
    (hne : as ≠ []) (h : ∀ a ∈ as, isLayout (char a) = b) :
    squeezeAfter char layout (as ++ bs) =
      squeezeAfter char layout as ++ squeezeAfter char b bs := by
  unfold squeezeAfter
  rw [sift_append]
  congr 2
  rcases List.eq_nil_or_concat as with hnil | ⟨front, a, rfl⟩
  · exact absurd hnil hne
  · rw [List.concat_eq_append, List.foldl_append]
    exact h a (by simp)

/-! ## The scan for layout -/

/-- At layout, the scan takes the whole run of it. -/
theorem layoutStep_layout {c : Char} (hrest : here.rest = c :: t) (hc : isLayout c = true) :
    layoutStep here = .report .whitespace (byteLen (here.rest.takeWhile isLayout)) := by
  unfold layoutStep
  rw [if_pos (by simp [Place.peek?, hrest, hc])]

/-- At any other character, the scan passes all that is up to the next layout. -/
theorem layoutStep_other {c : Char} (hrest : here.rest = c :: t) (hc : isLayout c = false) :
    layoutStep here = .pass (byteLen (here.rest.takeWhile (!isLayout ·))) := by
  unfold layoutStep
  rw [if_neg (by simp [Place.peek?, hrest, hc])]

/-- The piece is a run of layout, or a run of other characters. -/
inductive Piece.IsRun (p : Piece) : Prop
  | layout (hmark : p.mark = .token .whitespace) (hne : p.text ≠ [])
      (hall : ∀ c ∈ p.text, isLayout c = true)
  | other (hmark : p.mark = .filler) (hne : p.text ≠ [])
      (hall : ∀ c ∈ p.text, isLayout c = false)

/-- The scan for layout cuts off a run, and goes on at no character of the same class. -/
theorem exists_run_of_scan (hahead : here.rest ≠ []) :
    ∃ p there, p.IsRun ∧ p.start = here.offset ∧ here.rest = p.text ++ there.rest ∧
      MovesTo layoutStep here there ∧ scan layoutStep here = p :: scan layoutStep there ∧
      (p.mark = .token .whitespace → there.rest.head?.any isLayout = false) ∧
      (p.mark = .token .whitespace → here.rest.head?.any isLayout = true) := by
  rcases List.exists_cons_of_ne_nil hahead with ⟨c, t, hrest⟩
  cases hc : isLayout c with
  | true =>
    have hstep := layoutStep_layout hrest hc
    have hne : here.rest.takeWhile isLayout ≠ [] := by simp [hrest, hc]
    have hlen : byteLen (here.rest.takeWhile isLayout) = (layoutStep here).len := by
      rw [hstep]
      rfl
    have hsplit : here.rest = here.rest.takeWhile isLayout ++ here.rest.dropWhile isLayout :=
      List.takeWhile_append_dropWhile.symm
    refine ⟨⟨.token .whitespace, here.offset, here.rest.takeWhile isLayout⟩, _,
      .layout rfl hne fun d hd => List.all_eq_true.1 List.all_takeWhile d hd, rfl, hsplit,
      movesTo_past hne hsplit hlen, ?_, ?_, ?_⟩
    · rw [scan_eq_cons hne hsplit hlen, pieceAt, hstep]
      rfl
    · intro _
      have hnext := List.head?_dropWhile_not isLayout here.rest
      rw [Place.past_rest]
      cases hhead : (here.rest.dropWhile isLayout).head? with
      | none => rfl
      | some d =>
        rw [hhead] at hnext
        simpa using hnext
    · intro _
      simp [hrest, hc]
  | false =>
    have hstep := layoutStep_other hrest hc
    have hne : here.rest.takeWhile (!isLayout ·) ≠ [] := by simp [hrest, hc]
    have hlen : byteLen (here.rest.takeWhile (!isLayout ·)) = (layoutStep here).len := by
      rw [hstep]
      rfl
    have hsplit : here.rest = here.rest.takeWhile (!isLayout ·) ++
        here.rest.dropWhile (!isLayout ·) := List.takeWhile_append_dropWhile.symm
    have hall : ∀ d ∈ here.rest.takeWhile (!isLayout ·), isLayout d = false := by
      intro d hd
      have hd := List.all_eq_true.1 List.all_takeWhile d hd
      simpa using hd
    -- filler makes no promise about layout
    refine ⟨⟨.filler, here.offset, here.rest.takeWhile (!isLayout ·)⟩, _, .other rfl hne hall, rfl,
      hsplit, movesTo_past hne hsplit hlen, ?_, by simp, by simp⟩
    rw [scan_eq_cons hne hsplit hlen, pieceAt, hstep]
    rfl

/-- The first character of a run of layout, or all of another run, with their offsets. -/
def Piece.squeezed (p : Piece) : List (Nat × Char) :=
  match p.token? with
  | none => located id p.start p.text
  | some _ => (located id p.start p.text).take 1

theorem Piece.IsRun.ne_nil (h : p.IsRun) : p.text ≠ [] := by
  cases h with
  | layout _ hne _ => exact hne
  | other _ hne _ => exact hne

theorem mem_text_of_located {x : Nat × Char} (hx : x ∈ located id p.start p.text) :
    x.2 ∈ p.text := by
  have := List.mem_map_of_mem (f := (·.2)) hx
  rwa [map_snd_located] at this

theorem Piece.IsRun.squeezeAfter (h : p.IsRun) {layout : Bool}
    (hlayout : layout = true → p.mark = .filler) :
    squeezeAfter (fun x => x.2) layout (located id p.start p.text) = p.squeezed := by
  have hchars : ∀ x ∈ located id p.start p.text, x.2 ∈ p.text := fun x => mem_text_of_located
  cases h with
  | layout hmark hne hall =>
    have hfalse : layout = false := by
      cases layout with
      | false => rfl
      | true =>
        rw [hlayout rfl] at hmark
        cases hmark
    rw [hfalse, (squeezeAfter_run fun x hx => hall _ (hchars x hx)).2]
    simp [Piece.squeezed, Piece.token?, hmark]
  | other hmark _ hall =>
    rw [squeezeAfter_other fun x hx => hall _ (hchars x hx)]
    simp [Piece.squeezed, Piece.token?, hmark]

/-- The runs of a text, each with its first character or all of it, are the squeezed text. -/
theorem squeeze_scan_layoutStep (here : Place) (layout : Bool)
    (hlayout : layout = true → here.rest.head?.any isLayout = false) :
    squeezeAfter (fun x => x.2) layout (located id here.offset here.rest) =
      (scan layoutStep here).flatMap Piece.squeezed := by
  induction here using MovesTo.induction layoutStep generalizing layout with
  | next here ih =>
    by_cases hahead : here.rest = []
    · rw [scan_eq_nil hahead, hahead]
      rfl
    · rcases exists_run_of_scan hahead with
        ⟨p, there, hrun, hstart, hrest, hmove, hscan, hnext, hhead⟩
      have hoffset : there.offset = here.offset + byteLen p.text := by
        rcases hmove with ⟨front, -, hfront, -, hthere⟩
        rw [hthere, Place.past_offset, List.append_cancel_right (hfront.symm.trans hrest)]
      -- behind layout the run is no layout, so its first character is not dropped
      have hfiller : layout = true → p.mark = .filler := by
        intro hl
        cases hrun with
        | layout hmark _ _ =>
          have := hlayout hl
          rw [hhead hmark] at this
          cases this
        | other hmark _ _ => exact hmark
      have hfirst := hrun.squeezeAfter hfiller
      have hchars : ∀ x ∈ located id p.start p.text, x.2 ∈ p.text := fun x => mem_text_of_located
      have hne : located id p.start p.text ≠ [] := by
        intro hnil
        have hlen := congrArg List.length hnil
        rw [length_located, List.length_nil, List.length_eq_zero_iff] at hlen
        exact hrun.ne_nil hlen
      rw [hscan, List.flatMap_cons, hrest, located_append, List.map_id, ← hoffset, ← hstart]
      -- the class of the run decides whether what is behind it follows layout
      cases hrun with
      | layout hmark _ hall =>
        rw [squeezeAfter_append hne fun x hx => hall _ (hchars x hx), hfirst,
          ih there hmove true fun _ => hnext hmark]
      | other hmark _ hall =>
        rw [squeezeAfter_append hne fun x hx => hall _ (hchars x hx), hfirst,
          ih there hmove false (by simp)]

/-- The scan for layout cuts a text into runs. -/
theorem isRun_of_mem_scan (h : p ∈ scan layoutStep here) : p.IsRun := by
  induction here using MovesTo.induction layoutStep with
  | next here ih =>
    by_cases hahead : here.rest = []
    · rw [scan_eq_nil hahead] at h
      cases h
    · rcases exists_run_of_scan hahead with ⟨q, there, hrun, -, -, hmove, hscan, -, -⟩
      rw [hscan] at h
      rcases List.mem_cons.1 h with rfl | h
      · exact hrun
      · exact ih there hmove h

/-! ## The trail of what is left -/

/-- The characters that are left of a piece of a text of `inLen` bytes, with their offsets. -/
def Piece.condensedTrail (inLen : Nat) (p : Piece) : List (Nat × Char) :=
  match p.token? with
  | none => located id p.start p.text
  | some t =>
    if 0 < t.span.start ∧ t.span.stop < inLen then (located id p.start p.text).take 1 else []

/-- The characters that the second sweep leaves, with their offsets. -/
def condensedTrail (text : Text) : List (Nat × Char) :=
  (scan layoutStep (Place.start text)).flatMap (Piece.condensedTrail (byteLen text))

/-- What is left of a run, by its trail. -/
theorem Piece.IsRun.condensed_eq (h : p.IsRun) (inLen : Nat) :
    p.condensed inLen = (p.condensedTrail inLen).map (fun x => spaced x.2) ∧
      List.range' p.start (byteLen (p.condensed inLen)) = trailBytes (p.condensedTrail inLen) := by
  cases h with
  | layout hmark hne hall =>
    rcases List.exists_cons_of_ne_nil hne with ⟨c, t, hc⟩
    have hlayout : isLayout c = true := hall c (by simp [hc])
    have hsize : (' ' : Char).utf8Size = 1 := rfl
    by_cases hinner : 0 < p.span.start ∧ p.span.stop < inLen
    · simp [Piece.condensed, Piece.condensedTrail, Piece.token?, hmark, hinner, hc, spaced, hlayout,
        trailBytes, utf8Size_of_isLayout hlayout, hsize]
    · simp [Piece.condensed, Piece.condensedTrail, Piece.token?, hmark, hinner, trailBytes]
  | other hmark _ hall =>
    have hspaced : p.text.map spaced = p.text := by
      have hid : ∀ c ∈ p.text, spaced c = id c := by
        intro c hc
        simp [spaced, hall c hc]
      rw [List.map_congr_left hid, List.map_id]
    have hmap : (located id p.start p.text).map (fun x => spaced x.2) = p.text := by
      have hchars : (located id p.start p.text).map (·.2) = p.text := map_snd_located
      have := congrArg (List.map spaced) hchars
      rw [List.map_map, hspaced] at this
      exact this
    have htoken : p.token? = none := by simp [Piece.token?, hmark]
    simp only [Piece.condensed, Piece.condensedTrail, htoken]
    exact ⟨hmap.symm, (trailBytes_located p.start p.text).symm⟩

/-- The text that is left is made from the characters of a trail. -/
theorem text_condenseLayout (text : Text) :
    (condenseLayout text).text = (condensedTrail text).map fun x => spaced x.2 := by
  change (scan layoutStep (Place.start text)).flatMap (Piece.condensed (byteLen text)) = _
  rw [condensedTrail, List.map_flatMap]
  apply List.flatMap_congr
  intro p hp
  exact ((isRun_of_mem_scan hp).condensed_eq (byteLen text)).1

/-- The map of the second sweep leads along the trail of what it leaves. -/
theorem copies_condenseLayout (text : Text) :
    (condenseLayout text).origin.Copies (trailBytes (condensedTrail text)) (byteLen text) := by
  have hbuilt := (OffsetMap.Builder.copies_builder (byteLen text)).foldl_copy Piece.start
    (fun p => byteLen (p.condensed (byteLen text))) (scan layoutStep (Place.start text))
  have hbytes : (scan layoutStep (Place.start text)).flatMap
      (fun p => List.range' p.start (byteLen (p.condensed (byteLen text)))) =
        trailBytes (condensedTrail text) := by
    rw [condensedTrail, trailBytes, List.flatMap_assoc]
    apply List.flatMap_congr
    intro p hp
    exact ((isRun_of_mem_scan hp).condensed_eq (byteLen text)).2
  rw [List.nil_append, hbytes] at hbuilt
  apply hbuilt.finish
  have hsize : ∀ c : Char, (spaced c).utf8Size = c.utf8Size := utf8Size_spaced
  rw [length_trailBytes]
  change byteLen (condenseLayout text).text = _
  rw [text_condenseLayout]
  induction condensedTrail text with
  | nil => rfl
  | cons x trail ih => simp [hsize, ih]

/-- Pieces that are kept, but for the first and the last, are a part of all pieces. -/
theorem exists_append_of_inner {f g : Piece → List α} {inLen : Nat}
    (hfg : ∀ p ∈ pieces, f p = g p ∨ f p = [] ∧ ¬(0 < p.span.start ∧ p.span.stop < inLen))
    (htiled : Tiled offset pieces)
    (hlen : offset + byteLen (pieces.flatMap Piece.text) = inLen) :
    ∃ front back, pieces.flatMap g = front ++ pieces.flatMap f ++ back ∧
      (0 < offset → front = []) := by
  induction pieces generalizing offset with
  | nil => exact ⟨[], [], rfl, fun _ => rfl⟩
  | cons p ps ih =>
    rcases htiled with ⟨hstart, hne, hps⟩
    have hpos := byteLen_pos hne
    rw [byteLen_flatMap_cons] at hlen
    rcases ih (fun q hq => hfg q (List.mem_cons_of_mem p hq)) hps (by omega) with
      ⟨front, back, hgs, hfront⟩
    rw [hfront (by omega), List.nil_append] at hgs
    rw [List.flatMap_cons, List.flatMap_cons, hgs]
    rcases hfg p List.mem_cons_self with heq | ⟨hnil, houter⟩
    · exact ⟨[], back, by rw [heq]; simp, fun _ => rfl⟩
    · by_cases hfirst : offset = 0
      · -- the piece starts the text, so nothing comes before it
        exact ⟨g p, back, by rw [hnil]; simp, fun h => by omega⟩
      · -- the piece ends the text, so nothing comes behind it
        have hspan : p.span.start = offset ∧ p.span.stop = offset + byteLen p.text := by
          rw [← hstart]
          exact ⟨rfl, rfl⟩
        have hnone : ps = [] := by
          cases ps with
          | nil => rfl
          | cons q qs =>
            have := byteLen_pos hps.2.1
            rw [byteLen_flatMap_cons] at hlen
            omega
        subst hnone
        exact ⟨[], g p ++ back, by rw [hnil]; simp, fun _ => rfl⟩

/-- What the second sweep leaves is a part of the squeezed text. -/
theorem exists_squeeze_eq_condensedTrail (text : Text) :
    ∃ front back, squeeze (fun x => x.2) (located id 0 text) =
      front ++ condensedTrail text ++ back := by
  have hsqueeze := squeeze_scan_layoutStep (Place.start text) false (by simp)
  have hpieces : ∀ p ∈ scan layoutStep (Place.start text),
      p.condensedTrail (byteLen text) = p.squeezed ∨
        p.condensedTrail (byteLen text) = [] ∧
          ¬(0 < p.span.start ∧ p.span.stop < byteLen text) := by
    intro p hp
    cases isRun_of_mem_scan hp with
    | layout hmark _ _ =>
      by_cases hinner : 0 < p.span.start ∧ p.span.stop < byteLen text
      · left
        simp [Piece.condensedTrail, Piece.squeezed, Piece.token?, hmark, hinner]
      · right
        exact ⟨by simp [Piece.condensedTrail, Piece.token?, hmark, hinner], hinner⟩
    | other hmark _ _ =>
      left
      simp [Piece.condensedTrail, Piece.squeezed, Piece.token?, hmark]
  have htext : (scan layoutStep (Place.start text)).flatMap Piece.text = text :=
    flatMap_text_scan layoutStep (Place.start text)
  rcases exists_append_of_inner hpieces (tiled_scan layoutStep (Place.start text))
    (by rw [htext]; exact Nat.zero_add _) with ⟨front, back, heq, -⟩
  exact ⟨front, back, hsqueeze.trans heq⟩

/-- What the second sweep leaves are characters of its text, in order. -/
theorem sublist_condensedTrail (text : Text) :
    (condensedTrail text).Sublist (located id 0 text) := by
  rcases exists_squeeze_eq_condensedTrail text with ⟨front, back, h⟩
  have hsqueeze : (squeeze (fun x => x.2) (located id 0 text)).Sublist (located id 0 text) :=
    sift_sublist
  rw [h] at hsqueeze
  exact ((List.sublist_append_right front _).trans (List.sublist_append_left _ back)).trans hsqueeze

end Strata
