import Mathlib.Data.List.Induction
import Strata.Log.Journal
import Strata.Proofs.Since

/-!
# The events of notices

A report is a notice about a file. The journal that is at work on the file logs it as an event that
keeps level, code and span, cuts the message where it gets too long, and has the facts of the notice
and two of the journal's own, which replace those of the same name.

* `isLongestWithin_clipText`: where a message is cut;
* `Facts.get?_insertAll`: the facts that are added, by name;
* `Report.logs_event`: the event that a report is logged as.
-/

namespace Strata

/-- A notice about the file that is worked on, with the number of the file. -/
structure Report where
  file : String
  number : Nat
  notice : Notice
deriving DecidableEq, Repr

/-- The event of a report: what a journal that is at work on the file makes of the notice. -/
def Report.event (r : Report) : Event :=
  { Journal.empty with current := some (r.file, r.number) }.eventOf r.notice

variable {limit : Nat} {front s t : Text} {facts : Facts} {more : List (String × String)}
  {key name value : String}

/-! ## Messages -/

/-- The longest beginning of a text that has no more than some number of bytes. -/
structure IsLongestWithin (limit : Nat) (front t : Text) : Prop where
  isPrefix : front <+: t
  within : byteLen front ≤ limit
  longest : ∀ s, s <+: t → byteLen s ≤ limit → s <+: front

theorem isLongestWithin_self (h : byteLen t ≤ limit) : IsLongestWithin limit t t :=
  ⟨List.prefix_rfl, h, fun _ hs _ => hs⟩

/-- A clipped text is the longest start of the text within the limit. -/
theorem isLongestWithin_clipText (limit : Nat) (t : Text) :
    IsLongestWithin limit (clipText limit t) t := by
  induction t generalizing limit with
  | nil => exact isLongestWithin_self (Nat.zero_le limit)
  | cons c t ih =>
    have hcut := ih (limit - c.utf8Size)
    rw [clipText]
    by_cases hfits : c.utf8Size ≤ limit
    · rw [if_pos hfits]
      refine ⟨List.cons_prefix_cons.2 ⟨rfl, hcut.isPrefix⟩, ?_, ?_⟩
      · have hwithin := hcut.within
        rw [byteLen_cons]
        omega
      · intro s hs hwithin
        rcases List.prefix_cons_iff.1 hs with rfl | ⟨rest, rfl, hrest⟩
        · exact List.nil_prefix
        · rw [byteLen_cons] at hwithin
          exact List.cons_prefix_cons.2 ⟨rfl, hcut.longest rest hrest (by omega)⟩
    · rw [if_neg hfits]
      refine ⟨List.nil_prefix, Nat.zero_le limit, ?_⟩
      intro s hs hwithin
      -- a beginning that is not empty has the first character, which is too much
      rcases List.prefix_cons_iff.1 hs with rfl | ⟨rest, rfl, -⟩
      · exact List.nil_prefix
      · rw [byteLen_cons] at hwithin
        omega

theorem utf8ByteSize_ofList (t : Text) : (String.ofList t).utf8ByteSize = byteLen t := by
  induction t with
  | nil => rfl
  | cons c t ih =>
    rw [String.ofList_cons, String.utf8ByteSize_append, String.utf8ByteSize_singleton, ih,
      byteLen_cons]

/-- A message is logged up to the limit. -/
theorem isLongestWithin_clipMessage (message : String) :
    IsLongestWithin Limits.messageBytes (clipMessage message).toList message.toList := by
  rw [clipMessage]
  by_cases hfits : message.utf8ByteSize ≤ Limits.messageBytes
  · rw [if_pos hfits]
    refine isLongestWithin_self ?_
    rwa [← String.ofList_toList (s := message), utf8ByteSize_ofList] at hfits
  · rw [if_neg hfits, String.toList_ofList]
    exact isLongestWithin_clipText _ _

/-! ## Facts -/

/-- The value of a fact that has a name. -/
def valueIf (name : String) (fact : String × String) : Option String :=
  if fact.1 = name then some fact.2 else none

namespace Facts

/-- A fact at the head of a list hides those of its name behind it. -/
theorem get?_cons : get? ((key, value) :: facts) name =
    (valueIf name (key, value)).or (facts.get? name) := by
  rw [get?, List.lookup_cons, valueIf]
  by_cases h : key = name
  · rw [if_pos h, h, beq_self_eq_true]
    rfl
  · rw [if_neg h, beq_false_of_ne (Ne.symm h)]
    rfl

/-- A fact that is put in hides an earlier one of its name, and no other. -/
theorem get?_insert : (Facts.insert key value facts).get? name =
    (valueIf name (key, value)).or (facts.get? name) := by
  induction facts with
  | nil => exact get?_cons
  | cons fact facts ih =>
    rcases fact with ⟨k, v⟩
    rw [Facts.insert]
    by_cases hbefore : key < k
    · rw [if_pos hbefore]
      exact get?_cons
    · rw [if_neg hbefore]
      by_cases hsame : key = k
      · rw [if_pos hsame, get?_cons, get?_cons, hsame]
        -- the value replaced is not read
        unfold valueIf
        by_cases h : k = name <;> simp [h]
      · rw [if_neg hsame, get?_cons, get?_cons, ih]
        unfold valueIf
        by_cases h : k = name
        · simp [h, h ▸ hsame]
        · simp [h]

/-- Of the facts that are added the last one of a name counts, and then the one that was there. -/
theorem get?_insertAll : (facts.insertAll more).get? name =
    (lastTold (valueIf name) more).or (facts.get? name) := by
  induction more using List.reverseRecOn with
  | nil => rfl
  | append_singleton more fact ih =>
    rw [insertAll, List.foldl_concat, get?_insert, lastTold_concat, Option.or_assoc, ← ih]
    rfl

end Facts

/-! ## Events -/

/-- An event has from a report what it is to have. -/
structure Event.Logs (e : Event) (r : Report) : Prop where
  level : e.level = r.notice.level
  code : e.code = r.notice.code
  span : e.span = r.notice.span
  message : IsLongestWithin Limits.messageBytes e.message.toList r.notice.message.toList
  file : e.facts.get? "file" = some r.file
  number : e.facts.get? "file_id" = some (toString r.number)
  /-- Any other fact is the last one of its name that the notice gives. -/
  others : ∀ name, name ≠ "file" → name ≠ "file_id" →
    e.facts.get? name = lastTold (valueIf name) r.notice.facts

/-- The event of a report says what the report does. -/
theorem Report.logs_event (r : Report) : r.event.Logs r where
  level := rfl
  code := rfl
  span := rfl
  message := isLongestWithin_clipMessage r.notice.message
  file := Facts.get?_insertAll
  number := Facts.get?_insertAll
  others := by
    intro name hfile hnumber
    have hown : lastTold (valueIf name) [("file", r.file), ("file_id", toString r.number)] =
        none := by
      simp [lastTold, valueIf, hfile.symm, hnumber.symm]
    calc r.event.facts.get? name
        = (lastTold (valueIf name) [("file", r.file), ("file_id", toString r.number)]).or
            ((Facts.insertAll [] r.notice.facts).get? name) := Facts.get?_insertAll
      _ = (lastTold (valueIf name) r.notice.facts).or none := by
        rw [hown, Option.none_or, Facts.get?_insertAll]
        rfl
      _ = lastTold (valueIf name) r.notice.facts := Option.or_none

end Strata
