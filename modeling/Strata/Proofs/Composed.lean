import Mathlib.Data.List.Chain
import Strata.Proofs.OffsetMap

/-!
# Chains of offset maps

A map that was formed, as an identity or by copying parts of its source, leads each byte of the
derived text to a byte of the source. Two maps of which the second starts where the first ends lead
on to such a map again, so a chain of them may be composed in any order: wherever the brackets
stand, an offset is looked up in one map after another.

* `OffsetMap.IsFormed`: the maps that can be built;
* `Leads.partAt_eq_some`: which part of a map an offset is looked up in;
* `Leads.andThen`: what leading on through a map gives;
* `Composition.leads`: what a chain of maps gives, with brackets put in any way;
* `andThen_follows`: two maps, and two ways to compose a chain of maps.
-/

namespace Strata

namespace OffsetMap

variable {m outer inner : OffsetMap} {offset : Nat}

/-! ## The maps that can be built -/

/-- The map of a text of `outLen` bytes that copies parts of a source of `inLen` bytes one after
another, each with its start and its length. -/
def ofParts (inLen outLen : Nat) (parts : List (Nat × Nat)) : OffsetMap :=
  (parts.foldl (fun b part => b.copy part.1 part.2) (builder inLen)).finish outLen

/-- An identity, or a map that was built by copying parts from inside the source that add up to the
derived text. -/
inductive IsFormed : OffsetMap → Prop
  | identity (len : Nat) : IsFormed (identity len)
  | copies (inLen outLen : Nat) (parts : List (Nat × Nat))
      (hin : ∀ part ∈ parts, part.1 + part.2 ≤ inLen)
      (hout : parts.foldr (fun part total => part.2 + total) 0 = outLen) :
      IsFormed (ofParts inLen outLen parts)

/-- The map leads each byte of the derived text to a byte of the source. -/
inductive Leads (m : OffsetMap) : Prop
  | identity (hm : m = identity m.outLen)
  | copies (bytes : List Nat) (inLen : Nat) (hcopies : m.Copies bytes inLen)
      (hin : ∀ s ∈ bytes, s < inLen)

theorem length_flatMap_range' (parts : List (Nat × Nat)) :
    (parts.flatMap fun part => List.range' part.1 part.2).length =
      parts.foldr (fun part total => part.2 + total) 0 := by
  induction parts with
  | nil => rfl
  | cons part parts ih =>
    rw [List.flatMap_cons, List.length_append, List.length_range', ih, List.foldr_cons]

/-- A map that is formed as it should leads each of its offsets somewhere. -/
theorem IsFormed.leads (h : m.IsFormed) : m.Leads := by
  cases h with
  | identity len => exact .identity rfl
  | copies inLen outLen parts hin hout =>
    have hbuilt := (Builder.copies_builder inLen).foldl_copy Prod.fst Prod.snd parts
    rw [List.nil_append] at hbuilt
    have hcopies := hbuilt.finish (hout.symm.trans (length_flatMap_range' parts).symm)
    refine .copies _ _ hcopies ?_
    intro s hs
    rcases List.mem_flatMap.1 hs with ⟨part, hpart, hs⟩
    have := hin part hpart
    rw [List.mem_range'_1] at hs
    omega

/-- An offset of the derived text comes from inside the source. -/
theorem Leads.toSource_lt (h : m.Leads) (hlt : offset < m.outLen) :
    m.toSource offset < m.inLen := by
  cases h with
  | identity hm =>
    have hin : m.inLen = m.outLen := by
      rw [hm]
      rfl
    rw [hm, toSource_identity (Nat.le_of_lt hlt)]
    change offset < m.outLen
    exact hlt
  | copies bytes inLen hcopies hin =>
    rw [hcopies.outLen_eq] at hlt
    rw [hcopies.inLen_eq]
    exact hin _ (List.mem_of_getElem? (hcopies.toSource hlt))

/-- The part of an offset is the last one that starts at or before it, in whatever way it is
searched for. -/
theorem Leads.partAt_eq_some (h : m.Leads) {p : Copied} (hp : p ∈ m.parts)
    (hle : p.outStart ≤ offset)
    (hlast : ∀ q ∈ m.parts, q.outStart ≤ offset → q.outStart ≤ p.outStart) :
    partAt offset m.parts = some p := by
  cases h with
  | identity hm =>
    rw [hm] at hp
    cases hp
  | copies bytes inLen hcopies _ => exact hcopies.laid.partAt_eq_some hp hle hlast

/-! ## Leading on -/

/-- What leading on through a map gives: a map from the first text to the last that looks an offset
up in both. -/
theorem Leads.andThen (houter : outer.Leads) (hinner : inner.Leads)
    (hlen : outer.inLen = inner.outLen) :
    (outer.andThen inner).Leads ∧ (outer.andThen inner).outLen = outer.outLen ∧
      (outer.andThen inner).inLen = inner.inLen ∧
      ∀ offset, offset < outer.outLen →
        (outer.andThen inner).toSource offset = inner.toSource (outer.toSource offset) := by
  cases houter with
  | identity houter =>
    -- the derived text is the middle one
    have hmid : outer.outLen = inner.outLen := by
      rw [← hlen, houter]
      rfl
    have hthen : outer.andThen inner = inner := by
      rw [OffsetMap.andThen, if_pos (by rw [houter]; rfl), hmid]
    rw [hthen]
    refine ⟨hinner, hmid.symm, rfl, ?_⟩
    intro offset hlt
    rw [houter, toSource_identity (Nat.le_of_lt hlt)]
  | copies bytes midLen hcopies hin =>
    cases hinner with
    | identity hinner =>
      -- the source is the middle text
      have hmid : inner.inLen = outer.inLen := by
        rw [hlen, hinner]
        rfl
      have hthen : outer.andThen inner = outer := by
        rw [OffsetMap.andThen, if_neg (by simp [hcopies.isIdentity_eq]),
          if_pos (by rw [hinner]; rfl), hmid]
      rw [hthen]
      refine ⟨.copies bytes midLen hcopies hin, rfl, hmid.symm, ?_⟩
      intro offset hlt
      have hsource := (Leads.copies bytes midLen hcopies hin).toSource_lt hlt
      rw [hinner, toSource_identity (by omega)]
    | copies mid inLen hmid hmidin =>
      have hthen := hcopies.andThen hmid.isIdentity_eq
      refine ⟨.copies _ _ hthen ?_, ?_, hthen.inLen_eq, ?_⟩
      · intro source hsource
        rcases List.mem_map.1 hsource with ⟨s, hs, rfl⟩
        apply (Leads.copies mid inLen hmid hmidin).toSource_lt
        rw [← hlen, hcopies.inLen_eq]
        exact hin s hs
      · rw [hthen.outLen_eq, List.length_map, hcopies.outLen_eq]
      · intro offset hlt
        rw [hcopies.outLen_eq] at hlt
        have hread := hthen.toSource (by rwa [List.length_map])
        rw [List.getElem?_map, hcopies.toSource hlt] at hread
        exact (Option.some.inj hread).symm

/-! ## Chains -/

/-- A way to compose a chain of maps: the brackets around them. -/
inductive Composition where
  | single (m : OffsetMap)
  | join (outer inner : Composition)

namespace Composition

def map : Composition → OffsetMap
  | single m => m
  | join outer inner => outer.map.andThen inner.map

/-- The chain of maps without the brackets. -/
def maps : Composition → List OffsetMap
  | single m => [m]
  | join outer inner => outer.maps ++ inner.maps

end Composition

/-- Each map of a chain starts at the text where the one before it ends. -/
def IsChain (maps : List OffsetMap) : Prop :=
  maps.IsChain fun outer inner => outer.inLen = inner.outLen

/-- An offset looked up in one map after another. -/
def follow (maps : List OffsetMap) (offset : Nat) : Nat :=
  maps.foldl (fun offset m => m.toSource offset) offset

/-- What a chain of maps gives, whatever the brackets: a map from the first text to the last that
looks an offset up in all of them. -/
theorem Composition.leads (c : Composition) (hformed : ∀ m ∈ c.maps, m.IsFormed)
    (hchain : IsChain c.maps) :
    c.map.Leads ∧ c.maps.head?.map outLen = some c.map.outLen ∧
      c.maps.getLast?.map inLen = some c.map.inLen ∧
      ∀ offset, offset < c.map.outLen → c.map.toSource offset = follow c.maps offset := by
  induction c with
  | single m => exact ⟨(hformed m List.mem_cons_self).leads, rfl, rfl, fun _ _ => rfl⟩
  | join outer inner houter hinner =>
    have hparts := List.isChain_append.1 hchain
    rcases houter (fun m hm => hformed m (List.mem_append_left _ hm)) hparts.1 with
      ⟨houter, houtLen, hmid, hfollow⟩
    rcases hinner (fun m hm => hformed m (List.mem_append_right _ hm)) hparts.2.1 with
      ⟨hinner, hmid', hinLen, hfollow'⟩
    rcases Option.map_eq_some_iff.1 houtLen with ⟨first, hfirst, hfirstLen⟩
    rcases Option.map_eq_some_iff.1 hmid with ⟨before, hbefore, hbeforeLen⟩
    rcases Option.map_eq_some_iff.1 hmid' with ⟨behind, hbehind, hbehindLen⟩
    rcases Option.map_eq_some_iff.1 hinLen with ⟨last, hlast, hlastLen⟩
    -- the two parts meet at the text between them
    have hmeet : outer.map.inLen = inner.map.outLen := by
      rw [← hbeforeLen, ← hbehindLen]
      exact hparts.2.2 before hbefore behind hbehind
    rcases houter.andThen hinner hmeet with ⟨hleads, hout, hin, hsource⟩
    refine ⟨hleads, ?_, ?_, ?_⟩
    · rw [maps, List.head?_append, hfirst, Option.some_or, Option.map_some, hfirstLen]
      exact congrArg some hout.symm
    · rw [maps, List.getLast?_append, hlast, Option.some_or, Option.map_some, hlastLen]
      exact congrArg some hin.symm
    · intro offset hlt
      have hlt : offset < outer.map.outLen := by rwa [← hout]
      have hmid := houter.toSource_lt hlt
      rw [hmeet] at hmid
      calc (join outer inner).map.toSource offset
        _ = inner.map.toSource (outer.map.toSource offset) := hsource offset hlt
        _ = follow inner.maps (outer.map.toSource offset) := hfollow' _ hmid
        _ = follow inner.maps (follow outer.maps offset) := by rw [hfollow offset hlt]
        _ = follow (join outer inner).maps offset := (List.foldl_append ..).symm

/-- Leading on from one map through another looks an offset up in both, and all ways to compose a
chain of maps agree on the offsets of the derived text. -/
theorem andThen_follows :
    (∀ outer inner : OffsetMap, outer.IsFormed → inner.IsFormed → outer.inLen = inner.outLen →
      (outer.andThen inner).outLen = outer.outLen ∧ (outer.andThen inner).inLen = inner.inLen ∧
        ∀ offset, offset < outer.outLen →
          (outer.andThen inner).toSource offset = inner.toSource (outer.toSource offset)) ∧
    ∀ c d : Composition, c.maps = d.maps → (∀ m ∈ c.maps, m.IsFormed) → IsChain c.maps →
      c.map.outLen = d.map.outLen ∧ c.map.inLen = d.map.inLen ∧
        ∀ offset, offset < c.map.outLen → c.map.toSource offset = d.map.toSource offset := by
  constructor
  · intro outer inner houter hinner hlen
    exact (houter.leads.andThen hinner.leads hlen).2
  · intro c d hmaps hformed hchain
    rcases c.leads hformed hchain with ⟨-, hout, hin, hfollow⟩
    rw [hmaps] at hformed hchain hout hin hfollow
    rcases d.leads hformed hchain with ⟨-, hout', hin', hfollow'⟩
    have houtLen : c.map.outLen = d.map.outLen := Option.some.inj (hout.symm.trans hout')
    refine ⟨houtLen, Option.some.inj (hin.symm.trans hin'), ?_⟩
    intro offset hlt
    rw [hfollow offset hlt, hfollow' offset (houtLen ▸ hlt)]

/-- Three maps: parts that were swapped, parts that overlap, and a part in two pieces that were
joined. -/
theorem andThen_follows_swapped :
    ((ofParts 6 5 [(4, 2), (0, 3)]).andThen (ofParts 3 6 [(1, 2), (0, 3), (2, 1)])).toSource 1 =
      (ofParts 3 6 [(1, 2), (0, 3), (2, 1)]).toSource 5 ∧
    ∀ offset, offset < 5 →
      (((ofParts 6 5 [(4, 2), (0, 3)]).andThen (ofParts 3 6 [(1, 2), (0, 3), (2, 1)])).andThen
          (ofParts 9 3 [(7, 1), (8, 1), (0, 1)])).toSource offset =
        ((ofParts 6 5 [(4, 2), (0, 3)]).andThen ((ofParts 3 6 [(1, 2), (0, 3), (2, 1)]).andThen
          (ofParts 9 3 [(7, 1), (8, 1), (0, 1)]))).toSource offset := by
  have hswapped : IsFormed (ofParts 6 5 [(4, 2), (0, 3)]) := .copies 6 5 _ (by decide) rfl
  have hoverlap : IsFormed (ofParts 3 6 [(1, 2), (0, 3), (2, 1)]) := .copies 3 6 _ (by decide) rfl
  have hjoined : IsFormed (ofParts 9 3 [(7, 1), (8, 1), (0, 1)]) := .copies 9 3 _ (by decide) rfl
  constructor
  · exact (andThen_follows.1 _ _ hswapped hoverlap rfl).2.2 1 (by decide)
  · have h := andThen_follows.2
      (.join (.join (.single (ofParts 6 5 [(4, 2), (0, 3)]))
        (.single (ofParts 3 6 [(1, 2), (0, 3), (2, 1)])))
        (.single (ofParts 9 3 [(7, 1), (8, 1), (0, 1)])))
      (.join (.single (ofParts 6 5 [(4, 2), (0, 3)]))
        (.join (.single (ofParts 3 6 [(1, 2), (0, 3), (2, 1)]))
          (.single (ofParts 9 3 [(7, 1), (8, 1), (0, 1)]))))
      rfl (by simp [Composition.maps, hswapped, hoverlap, hjoined])
      (by simp [Composition.maps, IsChain]; decide)
    exact h.2.2

end OffsetMap

end Strata
