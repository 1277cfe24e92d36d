import Strata.Text.Basic

/-!
# Texts as bytes

Writing a text in its UTF-8 form, and reading it back. Every character has exactly one form: the
shortest one, and the surrogates have none.

* `encodeUtf8`: the bytes of a text;
* `encodeUtf8_prefix_iff`: bytes start with the bytes of a text only where the text does;
* `firstChar?`: the character that some bytes start with;
* `decodeUtf8`: the text that some bytes are, or the number of bytes before the first that is wrong.
-/

namespace Strata

def encodeUtf8 (t : Text) : List UInt8 := t.flatMap String.utf8EncodeChar

@[simp] theorem encodeUtf8_nil : encodeUtf8 [] = [] := rfl

@[simp] theorem encodeUtf8_cons (c : Char) (t : Text) :
    encodeUtf8 (c :: t) = String.utf8EncodeChar c ++ encodeUtf8 t := rfl

@[simp] theorem encodeUtf8_append (s t : Text) :
    encodeUtf8 (s ++ t) = encodeUtf8 s ++ encodeUtf8 t := List.flatMap_append

@[simp] theorem length_encodeUtf8 (t : Text) : (encodeUtf8 t).length = byteLen t := by
  induction t with
  | nil => rfl
  | cons c t ih => rw [encodeUtf8_cons, List.length_append, String.length_utf8EncodeChar, ih,
      byteLen_cons]

/-- No character's bytes start another character's, so bytes in front are characters in front. -/
theorem encodeUtf8_prefix_iff {s t : Text} : encodeUtf8 s <+: encodeUtf8 t ↔ s <+: t := by
  constructor
  · rintro ⟨back, hback⟩
    apply List.isPrefix_of_utf8Encode_append_eq_utf8Encode back.toByteArray
    rw [List.utf8Encode, List.utf8Encode, ← List.toByteArray_append]
    exact congrArg List.toByteArray hback
  · rintro ⟨back, rfl⟩
    exact ⟨encodeUtf8 back, (encodeUtf8_append s back).symm⟩

theorem encodeUtf8_inj {s t : Text} : encodeUtf8 s = encodeUtf8 t ↔ s = t := by
  constructor
  · intro h
    have hst : s <+: t := encodeUtf8_prefix_iff.1 (h ▸ List.prefix_refl _)
    have hts : t <+: s := encodeUtf8_prefix_iff.1 (h ▸ List.prefix_refl _)
    exact hst.eq_of_length_le hts.length_le
  · rintro rfl
    rfl

theorem encodeUtf8_ne_nil {t : Text} (h : t ≠ []) : encodeUtf8 t ≠ [] := by
  intro hnil
  exact h (encodeUtf8_inj.1 hnil)

/-- The bits that a byte in the middle of a character holds. -/
def tailBits? (b : UInt8) : Option Nat :=
  if 0x80 ≤ b ∧ b < 0xC0 then some (b.toNat - 0x80) else none

/-- The character with a code point, if the code point is at least `least`. -/
def charFrom? (least code : Nat) : Option Char :=
  if least ≤ code ∧ code.isValidChar then some (Char.ofNat code) else none

/-- The character that some bytes start with, and the bytes after it. -/
def firstChar? : List UInt8 → Option (Char × List UInt8)
  | [] => none
  | a :: rest =>
    if a < 0x80 then
      some (Char.ofNat a.toNat, rest)
    else if a < 0xE0 then
      match rest with
      | b :: rest => do
        let b ← tailBits? b
        let c ← charFrom? 0x80 ((a.toNat - 0xC0) * 64 + b)
        if 0xC0 ≤ a then some (c, rest) else none
      | _ => none
    else if a < 0xF0 then
      match rest with
      | b :: c :: rest => do
        let b ← tailBits? b
        let c ← tailBits? c
        let d ← charFrom? 0x800 (((a.toNat - 0xE0) * 64 + b) * 64 + c)
        some (d, rest)
      | _ => none
    else
      match rest with
      | b :: c :: d :: rest => do
        let b ← tailBits? b
        let c ← tailBits? c
        let d ← tailBits? d
        let e ← charFrom? 0x10000 ((((a.toNat - 0xF0) * 64 + b) * 64 + c) * 64 + d)
        some (e, rest)
      | _ => none

/-- A character takes a byte at least. -/
theorem length_lt_of_firstChar? {bytes rest : List UInt8} {c : Char}
    (h : firstChar? bytes = some (c, rest)) : rest.length < bytes.length := by
  unfold firstChar? at h
  split at h
  · cases h
  · split at h
    · obtain ⟨-, rfl⟩ := Prod.mk.inj (Option.some.inj h)
      simp only [List.length_cons]
      omega
    · split at h
      · split at h
        · simp only [Option.bind_eq_bind, Option.bind_eq_some_iff] at h
          obtain ⟨_, _, _, _, h⟩ := h
          split at h
          · obtain ⟨-, rfl⟩ := Prod.mk.inj (Option.some.inj h)
            simp only [List.length_cons]
            omega
          · cases h
        · cases h
      · split at h
        · split at h
          · simp only [Option.bind_eq_bind, Option.bind_eq_some_iff] at h
            obtain ⟨_, _, _, _, _, _, h⟩ := h
            obtain ⟨-, rfl⟩ := Prod.mk.inj (Option.some.inj h)
            simp only [List.length_cons]
            omega
          · cases h
        · split at h
          · simp only [Option.bind_eq_bind, Option.bind_eq_some_iff] at h
            obtain ⟨_, _, _, _, _, _, _, _, h⟩ := h
            obtain ⟨-, rfl⟩ := Prod.mk.inj (Option.some.inj h)
            simp only [List.length_cons]
            omega
          · cases h

/-- The text that `bytes` go on with after the characters `read`, which come last first. -/
def decodeFrom (read : Text) (offset : Nat) (bytes : List UInt8) : Except Nat Text :=
  if bytes = [] then
    .ok read.reverse
  else
    match h : firstChar? bytes with
    | none => .error offset
    | some (c, rest) =>
      have := length_lt_of_firstChar? h
      decodeFrom (c :: read) (offset + c.utf8Size) rest
  termination_by bytes.length

/-- The text that some bytes are, or the number of bytes before the first that is wrong. -/
def decodeUtf8 (bytes : List UInt8) : Except Nat Text := decodeFrom [] 0 bytes

end Strata
