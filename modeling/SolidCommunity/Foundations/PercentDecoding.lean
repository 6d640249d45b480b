import SolidCommunity.Foundations.Text

/-!
# Percent-Decoding

Percent-decoding replaces every escape, a `%` followed by two hexadecimal digits, by the byte the
digits spell and reads the resulting bytes as UTF-8.  A `%` that starts no escape stands for
itself.  Decoding is the identity exactly on the texts without an escape, because every escape
makes the byte sequence strictly shorter.
-/

namespace SolidCommunity.Foundations.PercentDecoding

open Text

/-- The value of a hexadecimal digit of either case. -/
def hexValue (c : Char) : Option UInt8 :=
  if '0' ≤ c ∧ c ≤ '9' then some (UInt8.ofNat (c.toNat - 48))
  else if 'a' ≤ c ∧ c ≤ 'f' then some (UInt8.ofNat (c.toNat - 87))
  else if 'A' ≤ c ∧ c ≤ 'F' then some (UInt8.ofNat (c.toNat - 55))
  else none

theorem toNat_of_isSome_hexValue {c : Char} (h : (hexValue c).isSome = true) :
    45 ≤ c.toNat ∧ c.toNat < 127 := by
  unfold hexValue at h
  simp only [Char.le_def, UInt32.le_iff_toNat_le] at h
  split_ifs at h with hdigit hlower hupper
  · exact ⟨le_trans (by decide) hdigit.1, lt_of_le_of_lt hdigit.2 (by decide)⟩
  · exact ⟨le_trans (by decide) hlower.1, lt_of_le_of_lt hlower.2 (by decide)⟩
  · exact ⟨le_trans (by decide) hupper.1, lt_of_le_of_lt hupper.2 (by decide)⟩
  · simp at h

/-- Whether the two characters after a `%` make it an escape. -/
def isEscape (high low : Char) : Bool := (hexValue high).isSome && (hexValue low).isSome

/-- The bytes that a text spells once its escapes are resolved. -/
def decodedBytes : Str → Bytes
  | [] => []
  | '%' :: high :: low :: rest =>
    match hexValue high, hexValue low with
    | some h, some l => (16 * h + l) :: decodedBytes rest
    | _, _ => String.utf8EncodeChar '%' ++ decodedBytes (high :: low :: rest)
  | c :: rest => String.utf8EncodeChar c ++ decodedBytes rest

/-- Percent-decoding, undefined when the decoded bytes are not UTF-8. -/
def percentDecode (s : Str) : Option Str := decode (decodedBytes s)

/-- Whether some `%` of the text is followed by two hexadecimal digits. -/
def hasEscape : Str → Bool
  | [] => false
  | '%' :: high :: low :: rest => isEscape high low || hasEscape (high :: low :: rest)
  | _ :: rest => hasEscape rest

theorem hasEscape_eq_false_of_notMem {s : Str} (h : '%' ∉ s) : hasEscape s = false := by
  induction s with
  | nil => rfl
  | cons c rest ih =>
    have hc : c ≠ '%' := fun heq ↦ h (heq ▸ List.mem_cons_self)
    rw [hasEscape.eq_3 _ _ fun _ _ _ heq ↦ absurd heq hc]
    exact ih fun hmem ↦ h (List.mem_cons_of_mem c hmem)

theorem decodedBytes_of_hasEscape_eq_false {s : Str} (h : hasEscape s = false) :
    decodedBytes s = encode s := by
  fun_induction decodedBytes s with
  | case1 => rfl
  | case2 high low rest hv lv hhigh hlow ih =>
    simp [hasEscape, isEscape, hhigh, hlow] at h
  | case3 high low rest hne ih =>
    rw [hasEscape, Bool.or_eq_false_iff] at h
    rw [ih h.2, ← encode_cons]
  | case4 c rest hne ih =>
    rw [hasEscape.eq_3 _ _ hne] at h
    rw [ih h, ← encode_cons]

/-- An escape spells one byte in place of at least three. -/
theorem length_escape_lt (high low : Char) (rest : Str) :
    (encode rest).length + 1 < (encode ('%' :: high :: low :: rest)).length := by
  have hhigh := List.length_pos_iff.mpr (String.utf8EncodeChar_ne_nil (c := high))
  have hlow := List.length_pos_iff.mpr (String.utf8EncodeChar_ne_nil (c := low))
  have hpercent : (String.utf8EncodeChar '%').length = 1 := rfl
  simp only [encode_cons, List.length_append]
  omega

theorem length_decodedBytes_le (s : Str) : (decodedBytes s).length ≤ (encode s).length := by
  fun_induction decodedBytes s with
  | case1 => simp
  | case2 high low rest hv lv hhigh hlow ih =>
    have := length_escape_lt high low rest
    rw [List.length_cons]
    omega
  | case3 high low rest hne ih =>
    rw [encode_cons, List.length_append, List.length_append]
    omega
  | case4 c rest hne ih =>
    rw [encode_cons, List.length_append, List.length_append]
    omega

theorem length_decodedBytes_lt {s : Str} (h : hasEscape s = true) :
    (decodedBytes s).length < (encode s).length := by
  fun_induction decodedBytes s with
  | case1 => simp [hasEscape] at h
  | case2 high low rest hv lv hhigh hlow ih =>
    have := length_escape_lt high low rest
    have := length_decodedBytes_le rest
    rw [List.length_cons]
    omega
  | case3 high low rest hne ih =>
    have hescape : isEscape high low = false := by
      cases hhigh : hexValue high with
      | none => simp [isEscape, hhigh]
      | some h =>
        cases hlow : hexValue low with
        | none => simp [isEscape, hlow]
        | some l => exact absurd hlow (hne h l hhigh)
    rw [hasEscape, hescape, Bool.false_or] at h
    have := ih h
    rw [encode_cons, List.length_append, List.length_append]
    omega
  | case4 c rest hne ih =>
    rw [hasEscape.eq_3 _ _ hne] at h
    have := ih h
    rw [encode_cons, List.length_append, List.length_append]
    omega

/-- Decoding never lengthens the byte sequence. -/
theorem length_percentDecode_le {s decoded : Str} (h : percentDecode s = some decoded) :
    (encode decoded).length ≤ (encode s).length := by
  rw [encode_of_decode h]
  exact length_decodedBytes_le s

@[simp]
theorem percentDecode_nil : percentDecode [] = some [] := decode_encode []

theorem percentDecode_of_hasEscape_eq_false {s : Str} (h : hasEscape s = false) :
    percentDecode s = some s := by
  rw [percentDecode, decodedBytes_of_hasEscape_eq_false h, decode_encode]

/-- Decoding is the identity exactly on the texts without an escape. -/
theorem percentDecode_eq_some_self_iff {s : Str} :
    percentDecode s = some s ↔ hasEscape s = false := by
  constructor
  · intro h
    by_contra hescape
    have hlt := length_decodedBytes_lt (by simpa using hescape : hasEscape s = true)
    rw [← encode_of_decode h] at hlt
    exact lt_irrefl _ hlt
  · exact percentDecode_of_hasEscape_eq_false

/-- A text cannot decode to a longer one. -/
theorem percentDecode_ne_cons (c : Char) (s : Str) : percentDecode s ≠ some (c :: s) := by
  intro h
  have hle := length_percentDecode_le h
  have hpos := List.length_pos_iff.mpr (String.utf8EncodeChar_ne_nil (c := c))
  rw [encode_cons, List.length_append] at hle
  omega

/-- A separator that is no hexadecimal digit separates the escapes on its two sides. -/
theorem hasEscape_append_cons {separator : Char} (hhex : hexValue separator = none)
    (hpercent : separator ≠ '%') (s t : Str) :
    hasEscape (s ++ separator :: t) = (hasEscape s || hasEscape t) := by
  fun_induction hasEscape s with
  | case1 =>
    rw [List.nil_append, hasEscape.eq_3 _ _ (fun _ _ _ hc ↦ absurd hc hpercent), Bool.false_or]
  | case2 high low rest ih =>
    rw [List.cons_append, List.cons_append, List.cons_append, hasEscape, ← List.cons_append,
      ← List.cons_append, ih, Bool.or_assoc]
  | case3 c rest hne ih =>
    by_cases hc : c = '%'
    · subst hc
      -- A trailing `%` would have to reach across the separator to start an escape.
      match rest, hne with
      | [], _ =>
        cases t with
        | nil => simp [hasEscape]
        | cons low t =>
          have hescape : isEscape separator low = false := by simp [isEscape, hhex]
          rw [List.cons_append, List.nil_append, hasEscape.eq_2, hescape, Bool.false_or]
          exact ih
      | [high], _ =>
        have hescape : isEscape high separator = false := by simp [isEscape, hhex]
        rw [List.cons_append, List.cons_append, List.nil_append, hasEscape.eq_2, hescape,
          Bool.false_or]
        exact ih
      | high :: low :: rest, hne => exact absurd rfl (hne high low rest rfl)
    · rw [List.cons_append, hasEscape.eq_3 _ _ (fun _ _ _ h ↦ absurd h hc), ih]

end SolidCommunity.Foundations.PercentDecoding
