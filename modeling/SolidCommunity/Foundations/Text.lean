import Mathlib.Data.List.DropRight
import Mathlib.Data.List.Infix

/-!
# Text and Its UTF-8 Bytes

Strings are lists of Unicode scalar values, which is what a Rust `str` denotes; the operations
below are the standard library's, stated on that list.  Bytes enter through the UTF-8 encoding of
the core library, and the lemmas at the end relate a byte prefix of an encoded text to a prefix of
the text itself.
-/

namespace SolidCommunity.Foundations.Text

/-- A string as the sequence of its Unicode scalar values. -/
abbrev Str := List Char

/-- A sequence of raw bytes. -/
abbrev Bytes := List UInt8

/-! ## Standard string operations -/

/-- `str::starts_with` for a single character. -/
def startsWith (s : Str) (c : Char) : Bool := s.head? == some c

/-- `str::ends_with` for a single character. -/
def endsWith (s : Str) (c : Char) : Bool := s.getLast? == some c

/-- `str::trim_end_matches` for a single character. -/
def trimEndMatches (s : Str) (c : Char) : Str := s.rdropWhile (· == c)

/-- `str::trim_start_matches` for a single character. -/
def trimStartMatches (s : Str) (c : Char) : Str := s.dropWhile (· == c)

/-- `str::rfind` for a single character. -/
def rfind (s : Str) (c : Char) : Option ℕ :=
  (s.reverse.findIdx? (· == c)).map fun index ↦ s.length - 1 - index

/-- `str::splitn`: at most `limit` pieces, the last of which keeps its separators. -/
def splitn (separator : Char) : ℕ → Str → List Str
  | 0, _ => []
  | 1, s => [s]
  | limit + 2, s =>
    if separator ∈ s then
      s.takeWhile (· != separator) ::
        splitn separator (limit + 1) (s.dropWhile (· != separator)).tail
    else [s]

/-- `str::split` for a single character. -/
def split (s : Str) (separator : Char) : List Str := s.splitOn separator

/-- The characters with the Unicode property `White_Space`. -/
def isWhitespace (c : Char) : Bool :=
  let code := c.toNat
  9 ≤ code && code ≤ 13 || code == 0x20 || code == 0x85 || code == 0xA0 || code == 0x1680 ||
    0x2000 ≤ code && code ≤ 0x200A || code == 0x2028 || code == 0x2029 || code == 0x202F ||
    code == 0x205F || code == 0x3000

/-- `str::trim`. -/
def trim (s : Str) : Str := (s.dropWhile isWhitespace).rdropWhile isWhitespace

/-- `str::to_ascii_lowercase`. -/
def toAsciiLowercase (s : Str) : Str := s.map Char.toLower

/-- `str::eq_ignore_ascii_case`. -/
def eqIgnoreAsciiCase (s t : Str) : Bool := toAsciiLowercase s = toAsciiLowercase t

/-- `str::strip_prefix`. -/
def stripPrefix (s front : Str) : Option Str := s.dropPrefix? front

/-- `str::strip_suffix`. -/
def stripSuffix (s suffix : Str) : Option Str := s.dropSuffix? suffix

/-- `str::contains` for a text. -/
def contains (s text : Str) : Bool := decide (text <:+: s)

/-- `str::find` for a text: where its first occurrence starts. -/
def find (s text : Str) : Option ℕ := s.tails.findIdx? (text.isPrefixOf ·)

/-! ## First and last characters -/

@[simp]
theorem startsWith_cons (head c : Char) (tail : Str) :
    startsWith (head :: tail) c = (head == c) := by
  simp [startsWith]

@[simp]
theorem startsWith_nil (c : Char) : startsWith [] c = false := rfl

@[simp]
theorem endsWith_nil (c : Char) : endsWith [] c = false := rfl

@[simp]
theorem endsWith_concat (s : Str) (last c : Char) : endsWith (s ++ [last]) c = (last == c) := by
  simp [endsWith]

/-- Appending a nonempty text decides the last character. -/
theorem endsWith_append {s t : Str} (ht : t ≠ []) (c : Char) :
    endsWith (s ++ t) c = endsWith t c := by
  unfold endsWith
  rw [List.getLast?_append_of_ne_nil s ht]

/-- A text free of `c` does not end with it. -/
theorem endsWith_eq_false_of_notMem {s : Str} {c : Char} (h : c ∉ s) : endsWith s c = false := by
  by_contra hend
  have hlast : s.getLast? = some c := by simpa [endsWith] using hend
  exact h (List.mem_of_getLast? hlast)

theorem stripSuffix_eq_some_iff {s suffix front : Str} :
    stripSuffix s suffix = some front ↔ s = front ++ suffix := by
  simp [stripSuffix, List.dropSuffix?_eq_some_iff]

/-! ## Trimming -/

theorem trimEndMatches_concat (s : Str) (c : Char) :
    trimEndMatches (s ++ [c]) c = trimEndMatches s c := by
  simp [trimEndMatches]

/-- Trimming is the identity on a text that does not end with the trimmed character. -/
theorem trimEndMatches_eq_self {s : Str} {c : Char} (h : endsWith s c = false) :
    trimEndMatches s c = s := by
  unfold trimEndMatches
  rw [List.rdropWhile_eq_self_iff]
  intro hne hlast
  have hc : s.getLast hne = c := by simpa using hlast
  have : endsWith s c = true := by
    simp [endsWith, List.getLast?_eq_getLast_of_ne_nil hne, hc]
  simp [this] at h

/-- Trimming stops within the second text if anything of it is left. -/
theorem trimEndMatches_append {t : Str} {c : Char} (h : trimEndMatches t c ≠ []) (s : Str) :
    trimEndMatches (s ++ t) c = s ++ trimEndMatches t c := by
  induction t using List.reverseRecOn with
  | nil => exact absurd rfl h
  | append_singleton t last ih =>
    rw [← List.append_assoc]
    by_cases hlast : last = c
    · subst hlast
      rw [trimEndMatches_concat] at h ⊢
      rw [trimEndMatches_concat, ih h]
    · have hend (front : Str) : endsWith (front ++ [last]) c = false := by simpa using hlast
      rw [trimEndMatches_eq_self (hend (s ++ t)), trimEndMatches_eq_self (hend t),
        List.append_assoc]

theorem endsWith_trimEndMatches (s : Str) (c : Char) : endsWith (trimEndMatches s c) c = false := by
  induction s using List.reverseRecOn with
  | nil => rfl
  | append_singleton s last ih =>
    by_cases hlast : last = c
    · rw [hlast, trimEndMatches_concat, ih]
    · have hend : endsWith (s ++ [last]) c = false := by simpa using hlast
      rw [trimEndMatches_eq_self hend, hend]

/-- Trimming `c` is invisible to a search for characters other than `c`. -/
theorem any_trimEndMatches {p : Char → Bool} {c : Char} (hc : p c = false) (s : Str) :
    (trimEndMatches s c).any p = s.any p := by
  induction s using List.reverseRecOn with
  | nil => rfl
  | append_singleton s last ih =>
    by_cases hlast : last = c
    · rw [hlast, trimEndMatches_concat, ih, List.any_append]
      simp [hc]
    · rw [trimEndMatches_eq_self]
      simpa using hlast

theorem isPrefix_trimEndMatches (s : Str) (c : Char) : trimEndMatches s c <+: s :=
  List.rdropWhile_prefix _ s

theorem trimStartMatches_eq_self {s : Str} {c : Char} (h : c ∉ s) : trimStartMatches s c = s := by
  cases s with
  | nil => rfl
  | cons head tail =>
    have hne : (head == c) = false := beq_eq_false_iff_ne.mpr (List.ne_of_not_mem_cons h).symm
    rw [trimStartMatches, List.dropWhile_cons_of_neg (by simp [hne])]

theorem startsWith_trimStartMatches (s : Str) (c : Char) :
    startsWith (trimStartMatches s c) c = false := by
  induction s with
  | nil => rfl
  | cons head tail ih =>
    rw [trimStartMatches, List.dropWhile_cons]
    split
    · exact ih
    · next hhead =>
      rw [startsWith_cons]
      exact Bool.eq_false_iff.mpr hhead

/-! ## Letter case -/

theorem toLower_toLower (c : Char) : c.toLower.toLower = c.toLower := by
  by_cases hupper : 'A'.val ≤ c.val ∧ c.val ≤ 'Z'.val
  · have hval : c.toLower.val = c.val + 32 := congrArg Char.val (dif_pos hupper)
    have hlower : ¬ ('A'.val ≤ c.toLower.val ∧ c.toLower.val ≤ 'Z'.val) := by
      rw [hval]
      simp only [UInt32.le_iff_toNat_le, UInt32.toNat_add] at hupper ⊢
      change 65 ≤ c.val.toNat ∧ c.val.toNat ≤ 90 at hupper
      change ¬ (65 ≤ (c.val.toNat + 32) % 2 ^ 32 ∧ (c.val.toNat + 32) % 2 ^ 32 ≤ 90)
      omega
    exact dif_neg hlower
  · have hsame : c.toLower = c := dif_neg hupper
    rw [hsame, hsame]

@[simp]
theorem toAsciiLowercase_toAsciiLowercase (s : Str) :
    toAsciiLowercase (toAsciiLowercase s) = toAsciiLowercase s := by
  rw [toAsciiLowercase, toAsciiLowercase, List.map_map]
  exact List.map_congr_left fun c _ ↦ toLower_toLower c

theorem toAsciiLowercase_append (s t : Str) :
    toAsciiLowercase (s ++ t) = toAsciiLowercase s ++ toAsciiLowercase t :=
  List.map_append

@[simp]
theorem toAsciiLowercase_eq_nil_iff {s : Str} : toAsciiLowercase s = [] ↔ s = [] :=
  List.map_eq_nil_iff

/-- Only letters become lower-case letters. -/
theorem eq_of_toLower_eq {c d : Char} (hd : d.isLower = false) (h : c.toLower = d) : c = d := by
  by_cases hupper : 'A'.val ≤ c.val ∧ c.val ≤ 'Z'.val
  · have hval : d.val = c.val + 32 := by
      rw [← h]
      exact congrArg Char.val (dif_pos hupper)
    have hlower : 97 ≤ d.val.toNat ∧ d.val.toNat ≤ 122 := by
      simp only [UInt32.le_iff_toNat_le] at hupper
      change 65 ≤ c.val.toNat ∧ c.val.toNat ≤ 90 at hupper
      rw [hval, UInt32.toNat_add]
      change 97 ≤ (c.val.toNat + 32) % 2 ^ 32 ∧ (c.val.toNat + 32) % 2 ^ 32 ≤ 122
      omega
    have hletter : d.isLower = true := by
      change (decide ('a'.val ≤ d.val) && decide (d.val ≤ 'z'.val)) = true
      simp only [Bool.and_eq_true, decide_eq_true_iff, UInt32.le_iff_toNat_le]
      exact hlower
    exact Bool.noConfusion (hd.symm.trans hletter)
  · have hsame : c.toLower = c := dif_neg hupper
    exact hsame.symm.trans h

/-- A text without lower-case letters is the lower case of nothing but itself. -/
theorem eq_of_toAsciiLowercase_eq {s t : Str} (ht : t.any Char.isLower = false)
    (h : toAsciiLowercase s = t) : s = t := by
  induction t generalizing s with
  | nil => exact toAsciiLowercase_eq_nil_iff.mp h
  | cons d t ih =>
    obtain ⟨c, rest, rfl, hc, hrest⟩ := List.map_eq_cons_iff.mp h
    rw [List.any_cons, Bool.or_eq_false_iff] at ht
    rw [eq_of_toLower_eq ht.1 hc, ih ht.2 hrest]

/-! ## Searching -/

/-- The last occurrence is the one that none follows. -/
theorem rfind_append_cons {c : Char} {back : Str} (h : c ∉ back) (front : Str) :
    rfind (front ++ c :: back) c = some front.length := by
  have hback : back.reverse.findIdx? (· == c) = none := by
    rw [List.findIdx?_eq_none_iff]
    intro other hother
    exact beq_eq_false_iff_ne.mpr fun hc ↦ h (hc ▸ List.mem_reverse.mp hother)
  have hindex : (front ++ c :: back).reverse.findIdx? (· == c) = some back.length := by
    rw [List.reverse_append, List.reverse_cons, List.append_assoc, List.findIdx?_append, hback]
    simp [List.findIdx?_cons]
  rw [rfind, hindex, Option.map_some, List.length_append, List.length_cons]
  congr 1
  omega

theorem rfind_eq_none_iff {s : Str} {c : Char} : rfind s c = none ↔ c ∉ s := by
  rw [rfind, Option.map_eq_none_iff, List.findIdx?_eq_none_iff]
  constructor
  · intro h hmem
    exact absurd (h c (List.mem_reverse.mpr hmem)) (by simp)
  · intro h other hother
    exact beq_eq_false_iff_ne.mpr fun hc ↦ h (hc ▸ List.mem_reverse.mp hother)

/-- A text splits at the last occurrence of a character. -/
theorem exists_last_of_mem {s : Str} {c : Char} (h : c ∈ s) :
    ∃ front back, s = front ++ c :: back ∧ c ∉ back := by
  obtain ⟨back, front, hreverse, hback⟩ := List.eq_append_cons_of_mem (List.mem_reverse.mpr h)
  refine ⟨front.reverse, back.reverse, ?_, mt List.mem_reverse.mp hback⟩
  rw [← List.reverse_reverse s, hreverse, List.reverse_append, List.reverse_cons, List.append_assoc]
  rfl

/-- What follows from the first occurrence of a text on: it is here, or it is found later. -/
theorem map_drop_find_cons (c : Char) (s text : Str) :
    (find (c :: s) text).map ((c :: s).drop ·) =
      if text <+: c :: s then some (c :: s) else (find s text).map (s.drop ·) := by
  rw [find, List.tails_cons, List.findIdx?_cons]
  by_cases hhere : text <+: c :: s
  · simp [hhere]
  · simp only [List.isPrefixOf_iff_prefix, hhere, if_false, Option.map_map]
    rfl

/-- No occurrence starts at a character other than the first one of the text. -/
theorem map_drop_find_append {first : Char} {front : Str} (h : first ∉ front) (s rest : Str) :
    (find (front ++ s) (first :: rest)).map ((front ++ s).drop ·) =
      (find s (first :: rest)).map (s.drop ·) := by
  induction front with
  | nil => rfl
  | cons c front ih =>
    obtain ⟨hne, hfront⟩ := not_or.mp (mt List.mem_cons.mpr h)
    have hhere : ¬ first :: rest <+: c :: (front ++ s) :=
      fun hoccurs ↦ hne (List.cons_prefix_cons.mp hoccurs).1
    rw [List.cons_append, map_drop_find_cons, if_neg hhere, ih hfront]

theorem map_drop_find_self (s : Str) : (find s s).map (s.drop ·) = some s := by
  cases s with
  | nil => rfl
  | cons c s => rw [map_drop_find_cons, if_pos List.prefix_rfl]

/-! ## Splitting -/

@[simp]
theorem splitn_one (separator : Char) (s : Str) : splitn separator 1 s = [s] := rfl

/-- A separator-free text is one piece. -/
theorem splitn_of_notMem {separator : Char} {s : Str} (h : separator ∉ s) (limit : ℕ) :
    splitn separator (limit + 1) s = [s] := by
  cases limit with
  | zero => rfl
  | succ limit => simp [splitn, h]

/-- The first separator ends the first piece while the limit allows another one. -/
theorem splitn_append_cons {separator : Char} {piece : Str} (h : separator ∉ piece)
    (limit : ℕ) (rest : Str) :
    splitn separator (limit + 2) (piece ++ separator :: rest) =
      piece :: splitn separator (limit + 1) rest := by
  have hall : ∀ c ∈ piece, (c != separator) = true := by
    intro c hc
    simpa using fun heq : c = separator ↦ h (heq ▸ hc)
  rw [splitn, if_pos (by simp), List.takeWhile_append_of_pos hall, List.dropWhile_append_of_pos hall]
  simp

/-- The first piece is what precedes the first separator. -/
theorem head?_splitn (separator : Char) (limit : ℕ) (s : Str) :
    (splitn separator (limit + 2) s).head? = some (s.takeWhile (· != separator)) := by
  rw [splitn]
  split
  · rfl
  · next hmem =>
    have hall : ∀ c ∈ s, (c != separator) = true := by
      intro c hc
      exact bne_iff_ne.mpr fun heq ↦ hmem (heq ▸ hc)
    rw [List.takeWhile_eq_self_iff.mpr hall]
    rfl

theorem splitn_ne_nil (separator : Char) (limit : ℕ) (s : Str) :
    splitn separator (limit + 1) s ≠ [] := by
  cases limit with
  | zero => simp
  | succ limit =>
    rw [splitn]
    split <;> simp

theorem length_splitn_le (separator : Char) (limit : ℕ) (s : Str) :
    (splitn separator limit s).length ≤ limit := by
  induction limit generalizing s with
  | zero => exact Nat.le_refl 0
  | succ limit ih =>
    cases limit with
    | zero => exact Nat.le_refl 1
    | succ limit =>
      rw [splitn]
      split
      · exact Nat.succ_le_succ (ih _)
      · exact Nat.succ_le_succ (Nat.zero_le _)

/-- The pieces, each closed by the separator, spell the text and a closing separator. -/
theorem flatMap_splitn (separator : Char) (limit : ℕ) (s : Str) :
    (splitn separator (limit + 1) s).flatMap (· ++ [separator]) = s ++ [separator] := by
  induction limit generalizing s with
  | zero => simp
  | succ limit ih =>
    by_cases hmem : separator ∈ s
    · obtain ⟨piece, rest, rfl, hpiece⟩ := List.eq_append_cons_of_mem hmem
      rw [splitn_append_cons hpiece, List.flatMap_cons, ih]
      simp
    · simp [splitn_of_notMem hmem]

/-- All pieces but the last one, each closed by the separator, spell the front of the text. -/
theorem isPrefix_flatMap_dropLast_splitn (separator : Char) (limit : ℕ) (s : Str) :
    (splitn separator (limit + 1) s).dropLast.flatMap (· ++ [separator]) <+: s := by
  have hne := splitn_ne_nil separator limit s
  have hspelt := flatMap_splitn separator limit s
  rw [← List.dropLast_append_getLast hne, List.flatMap_append, List.flatMap_singleton,
    ← List.append_assoc] at hspelt
  exact ⟨_, (List.append_left_inj _).mp hspelt⟩

theorem head?_split (separator : Char) (s : Str) :
    (split s separator).head? = some (s.takeWhile (· != separator)) := by
  unfold split List.splitOn
  induction s with
  | nil => rfl
  | cons c s ih =>
    rw [List.splitOnP_cons_eq_if_modifyHead, List.takeWhile_cons]
    by_cases hc : c = separator
    · simp [hc]
    · simp [hc, List.head?_modifyHead, ih]

/-- Every piece occurs in the text. -/
theorem isInfix_of_mem_split {separator : Char} {s piece : Str} (h : piece ∈ split s separator) :
    piece <:+: s := by
  unfold split at h
  induction s generalizing piece with
  | nil => simp_all
  | cons c s ih =>
    rw [List.splitOn_cons_eq_if_modifyHead] at h
    split at h
    · rcases List.mem_cons.mp h with rfl | h
      · exact List.nil_infix
      · exact List.infix_cons (ih h)
    · have hhead := head?_split separator s
      unfold split at hhead
      cases hpieces : s.splitOn separator with
      | nil => exact absurd hpieces (List.splitOn_ne_nil separator s)
      | cons first rest =>
        rw [hpieces, List.modifyHead_cons] at h
        rw [hpieces, List.head?_cons, Option.some_inj] at hhead
        rcases List.mem_cons.mp h with rfl | h
        · rw [hhead]
          exact ((List.prefix_cons_inj c).mpr (List.takeWhile_prefix _)).isInfix
        · exact List.infix_cons (ih (hpieces ▸ List.mem_cons_of_mem first h))

/-! ## UTF-8 -/

/-- The UTF-8 bytes of a text. -/
def encode (s : Str) : Bytes := s.flatMap String.utf8EncodeChar

/-- The text spelt by a byte sequence, when the bytes are valid UTF-8. -/
def decode (bytes : Bytes) : Option Str := bytes.toByteArray.utf8Decode?.map Array.toList

@[simp]
theorem encode_nil : encode [] = [] := rfl

@[simp]
theorem encode_cons (c : Char) (s : Str) : encode (c :: s) = String.utf8EncodeChar c ++ encode s := by
  simp [encode]

@[simp]
theorem encode_append (s t : Str) : encode (s ++ t) = encode s ++ encode t := by
  simp [encode]

/-- An ASCII character is spelt by its own code. -/
theorem utf8EncodeChar_of_lt {c : Char} (h : c.toNat < 128) :
    String.utf8EncodeChar c = [UInt8.ofNat c.toNat] := by
  have hle : c.val.toNat ≤ 127 := Nat.le_of_lt_succ h
  simp only [String.utf8EncodeChar, if_pos hle]
  rfl

/-- A character outside ASCII is spelt by bytes from 128 on. -/
theorem le_of_mem_utf8EncodeChar {c : Char} (h : 128 ≤ c.toNat) {byte : UInt8}
    (hbyte : byte ∈ String.utf8EncodeChar c) : 128 ≤ byte.toNat := by
  have hnot : ¬ c.val.toNat ≤ 127 := Nat.not_le.mpr h
  simp only [String.utf8EncodeChar, if_neg hnot] at hbyte
  split at hbyte
  · simp only [List.mem_cons, List.not_mem_nil, or_false] at hbyte
    rcases hbyte with rfl | rfl <;> simp only [UInt8.toNat_ofNat'] <;> omega
  · split at hbyte
    · simp only [List.mem_cons, List.not_mem_nil, or_false] at hbyte
      rcases hbyte with rfl | rfl | rfl <;> simp only [UInt8.toNat_ofNat'] <;> omega
    · simp only [List.mem_cons, List.not_mem_nil, or_false] at hbyte
      rcases hbyte with rfl | rfl | rfl | rfl <;> simp only [UInt8.toNat_ofNat'] <;> omega

/-- ASCII bytes are the encoding of the characters with their codes. -/
theorem encode_map_ofNat {bytes : Bytes} (h : ∀ byte ∈ bytes, byte.toNat < 128) :
    encode (bytes.map fun byte ↦ Char.ofNat byte.toNat) = bytes := by
  induction bytes with
  | nil => rfl
  | cons byte bytes ih =>
    have hbyte := h byte List.mem_cons_self
    have hvalid : byte.toNat.isValidChar := .inl (by omega)
    have hchar : (Char.ofNat byte.toNat).toNat = byte.toNat := by
      rw [Char.ofNat, dif_pos hvalid]
      rfl
    rw [List.map_cons, encode_cons, utf8EncodeChar_of_lt (by omega), hchar, UInt8.ofNat_toNat,
      ih fun other hother ↦ h other (List.mem_cons_of_mem _ hother)]
    rfl

theorem toByteArray_encode (s : Str) : (encode s).toByteArray = s.utf8Encode := rfl

/-- Decoding inverts encoding. -/
@[simp]
theorem decode_encode (s : Str) : decode (encode s) = some s := by
  rw [decode, toByteArray_encode, List.utf8Decode?_utf8Encode]
  rfl

theorem encode_injective : Function.Injective encode := by
  intro s t h
  have hdecode := congrArg decode h
  simpa using hdecode

/-- Whatever decodes is the encoding of its decoding. -/
theorem encode_of_decode {bytes : Bytes} {s : Str} (h : decode bytes = some s) :
    encode s = bytes := by
  obtain ⟨chars, hchars, rfl⟩ := Option.map_eq_some_iff.mp h
  have hsome : bytes.toByteArray.utf8Decode?.isSome := by simp [hchars]
  have hget : bytes.toByteArray.utf8Decode?.get hsome = chars := by simp [hchars]
  have harray := ByteArray.utf8Encode_get_utf8Decode? (h := hsome)
  rw [hget, ← toByteArray_encode] at harray
  have hdata := congrArg (fun array : ByteArray ↦ array.data.toList) harray
  simpa using hdata

/-- A decodable byte prefix of an encoded text is the encoding of a prefix of the text. -/
theorem isPrefix_of_decode {bytes : Bytes} {s t : Str} (h : decode bytes = some s)
    (hle : bytes <+: encode t) : s <+: t := by
  obtain ⟨rest, hrest⟩ := hle
  rw [← encode_of_decode h] at hrest
  apply List.isPrefix_of_utf8Encode_append_eq_utf8Encode rest.toByteArray
  rw [← toByteArray_encode, ← toByteArray_encode, ← hrest]
  simp

end SolidCommunity.Foundations.Text
