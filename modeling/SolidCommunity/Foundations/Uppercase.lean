import SolidCommunity.Foundations.Text

/-!
# Uppercase Texts

The uppercase text of a string is put together from those of its characters.  Only ten characters
beyond ASCII have one that is ASCII, so the strings with a given ASCII uppercase text can be listed up
to the case of their ASCII letters, whatever a version of Unicode says of all other characters.
-/

namespace SolidCommunity.Foundations.Uppercase

open Text

/-! ## Spellings -/

section Spellings

variable {Letter Symbol : Type*} [DecidableEq Symbol] (expand : Letter → List Symbol)
  (letters : List Letter)

/-- The words of at most so many letters that expand to a text. -/
def spellings : ℕ → List Symbol → List (List Letter)
  | _, [] => [[]]
  | 0, _ :: _ => []
  | limit + 1, symbol :: text =>
    letters.flatMap fun letter ↦
      if expand letter <+: symbol :: text then
        (spellings limit ((symbol :: text).drop (expand letter).length)).map (letter :: ·)
      else []

variable {expand letters}

/-- Only the empty word expands to the empty text. -/
theorem mem_spellings_nil_iff (hexpand : ∀ letter ∈ letters, expand letter ≠ []) {limit : ℕ}
    {word : List Letter} :
    word ∈ spellings expand letters limit [] ↔
      (∀ letter ∈ word, letter ∈ letters) ∧ word.flatMap expand = [] := by
  rw [spellings, List.mem_singleton]
  constructor
  · rintro rfl
    exact ⟨by simp, rfl⟩
  · rintro ⟨hletters, htext⟩
    cases word with
    | nil => rfl
    | cons letter word =>
      have hempty := (List.append_eq_nil_iff.mp htext).1
      exact absurd hempty (hexpand letter (hletters letter List.mem_cons_self))

omit [DecidableEq Symbol] in
/-- A word spells a text whose front its first letter expands to, and the rest its other letters. -/
theorem flatMap_cons_eq_iff {letter : Letter} {word : List Letter} {text : List Symbol} :
    (letter :: word).flatMap expand = text ↔
      expand letter <+: text ∧ word.flatMap expand = text.drop (expand letter).length := by
  rw [List.flatMap_cons]
  constructor
  · rintro rfl
    exact ⟨List.prefix_append _ _, List.drop_left.symm⟩
  · rintro ⟨hfront, hrest⟩
    rw [hrest]
    exact (List.prefix_iff_eq_append.mp hfront)

/-- No word is missed if all its letters expand to something. -/
theorem mem_spellings_iff (hexpand : ∀ letter ∈ letters, expand letter ≠ []) {limit : ℕ}
    {text : List Symbol} (hlimit : text.length ≤ limit) {word : List Letter} :
    word ∈ spellings expand letters limit text ↔
      (∀ letter ∈ word, letter ∈ letters) ∧ word.flatMap expand = text := by
  induction limit generalizing text word with
  | zero =>
    obtain rfl := List.eq_nil_of_length_eq_zero (Nat.le_zero.mp hlimit)
    exact mem_spellings_nil_iff hexpand
  | succ limit ih =>
    cases text with
    | nil => exact mem_spellings_nil_iff hexpand
    | cons symbol text =>
      have hrest {letter : Letter} (hletter : letter ∈ letters) :
          ((symbol :: text).drop (expand letter).length).length ≤ limit := by
        have hpositive := List.length_pos_of_ne_nil (hexpand letter hletter)
        rw [List.length_drop]
        omega
      rw [spellings, List.mem_flatMap]
      constructor
      · rintro ⟨letter, hletter, hword⟩
        split at hword
        · next hfront =>
          obtain ⟨rest, hspells, rfl⟩ := List.mem_map.mp hword
          obtain ⟨hletters, htext⟩ := (ih (hrest hletter)).mp hspells
          exact ⟨List.forall_mem_cons.mpr ⟨hletter, hletters⟩,
            flatMap_cons_eq_iff.mpr ⟨hfront, htext⟩⟩
        · exact absurd hword List.not_mem_nil
      · rintro ⟨hletters, htext⟩
        cases word with
        | nil => exact absurd htext (List.cons_ne_nil symbol text).symm
        | cons letter word =>
          obtain ⟨hletter, hword⟩ := List.forall_mem_cons.mp hletters
          obtain ⟨hfront, hspells⟩ := flatMap_cons_eq_iff.mp htext
          refine ⟨letter, hletter, ?_⟩
          rw [if_pos hfront]
          exact List.mem_map_of_mem ((ih (hrest hletter)).mpr ⟨hword, hspells⟩)

end Spellings

/-! ## Characters -/

def isAscii (c : Char) : Bool := c.toNat < 128

/-- The characters beyond ASCII whose uppercase text is ASCII. -/
def asciiUppercases : List (Char × Str) :=
  [('ß', "SS".toList), ('ı', "I".toList), ('ſ', "S".toList), ('ﬀ', "FF".toList),
    ('ﬁ', "FI".toList), ('ﬂ', "FL".toList), ('ﬃ', "FFI".toList), ('ﬄ', "FFL".toList),
    ('ﬅ', "ST".toList), ('ﬆ', "ST".toList)]

/-- The uppercase text of a character, when it is ASCII. -/
def asciiUppercase (c : Char) : Option Str :=
  if isAscii c then some [c.toUpper] else asciiUppercases.lookup c

/-- What a version of Unicode says of the other characters: their uppercase texts are not ASCII. -/
structure UnicodeData where
  uppercase : Char → Str
  exists_not_ascii : ∀ c, asciiUppercase c = none → ∃ d ∈ uppercase c, isAscii d = false

theorem isAscii_of_asciiUppercase_eq_none {c : Char} (h : asciiUppercase c = none) :
    isAscii c = false := by
  by_contra hascii
  rw [asciiUppercase, if_pos (eq_true_of_ne_false hascii)] at h
  exact Option.some_ne_none _ h

namespace UnicodeData

/-- All other characters are their own uppercase texts. -/
def caseless : UnicodeData where
  uppercase c := [c]
  exists_not_ascii c h := ⟨c, List.mem_singleton_self c, isAscii_of_asciiUppercase_eq_none h⟩

variable (unicode : UnicodeData)

/-- `char::to_uppercase`. -/
def charToUppercase (c : Char) : Str := (asciiUppercase c).getD (unicode.uppercase c)

/-- `str::to_uppercase`. -/
def toUppercase (s : Str) : Str := s.flatMap unicode.charToUppercase

end UnicodeData

/-- What holds of the first 128 characters holds of every ASCII character. -/
theorem forall_of_isAscii {property : Char → Prop}
    (h : ∀ code : Fin 128, property (Char.ofNat code)) {c : Char} (hc : isAscii c = true) :
    property c := by
  have hcode := h ⟨c.toNat, of_decide_eq_true hc⟩
  rwa [Char.ofNat_toNat] at hcode

theorem toUpper_toLower {c : Char} (hc : isAscii c = true) :
    c.toLower.toUpper = c.toUpper ∧ isAscii c.toLower = true :=
  @forall_of_isAscii (fun c ↦ c.toLower.toUpper = c.toUpper ∧ isAscii c.toLower = true)
    (by decide) c hc

theorem isAscii_of_isUpper {c : Char} (hc : c.isUpper = true) : isAscii c = true := by
  have hlast : c.toNat ≤ 90 := (of_decide_eq_true hc).2
  exact decide_eq_true (by omega)

theorem toLower_of_not_isAscii {c : Char} (hc : isAscii c = false) : c.toLower = c := by
  have hcode : 128 ≤ c.toNat := Nat.not_lt.mp (of_decide_eq_false hc)
  refine dif_neg fun hupper ↦ ?_
  have hlast : c.toNat ≤ 90 := hupper.2
  omega

/-- The letters of which an uppercase text of ASCII letters can come, in lower case. -/
def lowercaseLetters : List Char :=
  "abcdefghijklmnopqrstuvwxyz".toList ++ asciiUppercases.map (·.1)

/-- The lower-case texts whose uppercase text is the given one. -/
def lowercaseSpellings (text : Str) : List Str :=
  spellings (fun c ↦ (asciiUppercase c).getD []) lowercaseLetters text.length text

theorem asciiUppercase_ne_nil : ∀ c ∈ lowercaseLetters, (asciiUppercase c).getD [] ≠ [] := by
  have hall : lowercaseLetters.all (fun c ↦ (asciiUppercase c).getD [] != []) = true := by decide
  intro c hc
  exact bne_iff_ne.mp (List.all_eq_true.mp hall c hc)

section Uppercase

variable {unicode : UnicodeData} {s text : Str} {c : Char}

/-- The case of ASCII letters does not matter. -/
theorem charToUppercase_toLower (unicode : UnicodeData) (c : Char) :
    unicode.charToUppercase c.toLower = unicode.charToUppercase c := by
  cases hc : isAscii c with
  | true =>
    obtain ⟨hupper, hascii⟩ := toUpper_toLower hc
    simp only [UnicodeData.charToUppercase, asciiUppercase, hc, hascii, hupper, if_true,
      Option.getD_some]
  | false => rw [toLower_of_not_isAscii hc]

theorem toUppercase_toAsciiLowercase (unicode : UnicodeData) (s : Str) :
    unicode.toUppercase (toAsciiLowercase s) = unicode.toUppercase s := by
  rw [UnicodeData.toUppercase, toAsciiLowercase, List.flatMap_map]
  exact List.flatMap_congr fun c _ ↦ charToUppercase_toLower unicode c

/-- Every letter has its uppercase text in every version. -/
theorem charToUppercase_of_mem (unicode : UnicodeData) (hc : c ∈ lowercaseLetters) :
    unicode.charToUppercase c = (asciiUppercase c).getD [] := by
  cases htext : asciiUppercase c with
  | none => exact absurd (by rw [htext]; rfl) (asciiUppercase_ne_nil c hc)
  | some text => rw [UnicodeData.charToUppercase, htext, Option.getD_some, Option.getD_some]

/-- A lower-case character with an uppercase text of ASCII capitals is one of the letters. -/
theorem mem_lowercaseLetters (hlower : c.toLower = c)
    (hcapitals : ∀ d ∈ unicode.charToUppercase c, d.isUpper = true) : c ∈ lowercaseLetters := by
  cases hc : isAscii c with
  | true =>
    have hupper : c.toUpper.isUpper = true := by
      apply hcapitals
      rw [UnicodeData.charToUppercase, asciiUppercase, hc]
      exact List.mem_singleton_self _
    exact @forall_of_isAscii
      (fun c ↦ c.toLower = c → c.toUpper.isUpper = true → c ∈ lowercaseLetters) (by decide) c hc
      hlower hupper
  | false =>
    cases htext : asciiUppercases.lookup c with
    | some text =>
      obtain ⟨before, after, hentries, -⟩ := List.lookup_eq_some_iff.mp htext
      have hentry : (c, text) ∈ asciiUppercases := hentries ▸ List.mem_append_cons_self
      exact List.mem_append_right _ (List.mem_map_of_mem hentry)
    | none =>
      have hnone : asciiUppercase c = none := by rw [asciiUppercase, hc, htext]; rfl
      obtain ⟨d, hd, hascii⟩ := unicode.exists_not_ascii c hnone
      have hcapital : d.isUpper = true := by
        apply hcapitals
        rw [UnicodeData.charToUppercase, hnone]
        exact hd
      exact absurd (isAscii_of_isUpper hcapital) (by rw [hascii]; exact Bool.false_ne_true)

/-- The strings with an uppercase text of ASCII capitals are the spellings of this text, in any case
of the ASCII letters. -/
theorem toUppercase_eq_iff (unicode : UnicodeData) (htext : ∀ d ∈ text, d.isUpper = true) :
    unicode.toUppercase s = text ↔ toAsciiLowercase s ∈ lowercaseSpellings text := by
  have hexpand {word : Str} (hword : ∀ c ∈ word, c ∈ lowercaseLetters) :
      unicode.toUppercase word = word.flatMap fun c ↦ (asciiUppercase c).getD [] :=
    List.flatMap_congr fun c hc ↦ charToUppercase_of_mem unicode (hword c hc)
  rw [lowercaseSpellings, mem_spellings_iff asciiUppercase_ne_nil le_rfl,
    ← toUppercase_toAsciiLowercase]
  constructor
  · intro hspells
    have hword : ∀ c ∈ toAsciiLowercase s, c ∈ lowercaseLetters := by
      intro c hc
      obtain ⟨other, -, rfl⟩ := List.mem_map.mp hc
      apply mem_lowercaseLetters (toLower_toLower other)
      intro d hd
      exact htext d (hspells ▸ List.mem_flatMap.mpr ⟨_, hc, hd⟩)
    exact ⟨hword, (hexpand hword).symm.trans hspells⟩
  · rintro ⟨hword, hspells⟩
    exact (hexpand hword).trans hspells

end Uppercase

end SolidCommunity.Foundations.Uppercase
