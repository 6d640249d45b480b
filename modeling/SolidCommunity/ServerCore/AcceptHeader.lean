import SolidCommunity.HttpTypes.ContentPreferences
import SolidCommunity.ServerCore.LdpHandlers

/-!
# Two Readings of the Accept Header

The handlers match the elements of an `Accept` header as they are written, without weights, and take
an empty element for a wildcard; the content preferences skip empty elements, put types in lower case
and weigh them.  Up to weights and empty elements, whatever satisfies the first reading is covered by
a range of the second one, and conversely if the stored type and the range's own element are in lower
case already, or if the range is the wildcard.
-/

namespace SolidCommunity.ServerCore.AcceptHeader

open Foundations.StableSort Foundations.Text HttpTypes HttpTypes.ContentPreferences LdpHandlers

/-! ## Which types cover a type -/

/-- A type covers another one if it is the wildcard, the wildcard of its major type, or the same. -/
def TypeCovers (base mediaType : Str) : Prop :=
  mediaType = "*/*".toList ∨
    (∃ major, mediaType = major ++ "/*".toList ∧ major ++ ['/'] <+: base) ∨ mediaType = base

/-- A token is satisfied if it is empty or covers the stored type as it is written. -/
theorem tokenSatisfied_iff {base token : Str} :
    tokenSatisfied base token = true ↔ token = [] ∨ TypeCovers base token := by
  unfold tokenSatisfied TypeCovers
  by_cases hwild : token = "*/*".toList ∨ token = []
  · rw [if_pos hwild]
    exact iff_of_true rfl (hwild.elim (fun h ↦ .inr (.inl h)) .inl)
  · obtain ⟨hany, hne⟩ := not_or.mp hwild
    rw [if_neg hwild, or_iff_right hne, or_iff_right hany]
    cases hstrip : stripSuffix token "/*".toList with
    | some major =>
      have htoken := stripSuffix_eq_some_iff.mp hstrip
      have hsub : major ++ ['/'] <+: major ++ "/*".toList :=
        (List.prefix_append_right_inj major).mpr ⟨['*'], rfl⟩
      simp only [List.isPrefixOf_iff_prefix]
      constructor
      · intro hmajor
        exact .inl ⟨major, htoken, hmajor⟩
      · rintro (⟨other, hother, hmajor⟩ | hsame)
        · rwa [List.append_cancel_right (htoken.symm.trans hother)]
        · rwa [← hsame, htoken]
    | none =>
      have hnone : ¬ ∃ major, token = major ++ "/*".toList ∧ major ++ ['/'] <+: base := by
        rintro ⟨major, htoken, -⟩
        rw [stripSuffix_eq_some_iff.mpr htoken] at hstrip
        exact Option.some_ne_none _ hstrip
      rw [or_iff_right hnone, beq_iff_eq]
      exact eq_comm

theorem acceptSatisfied_eq_true_iff {header contentType : Str} :
    acceptSatisfied header contentType = true ↔
      ∃ part ∈ split header ',',
        mediaType part = [] ∨ TypeCovers (mediaType contentType) (mediaType part) := by
  rw [acceptSatisfied, List.any_eq_true]
  exact exists_congr fun part ↦ and_congr_right fun _ ↦ tokenSatisfied_iff

/-- Covering survives the change to lower case. -/
theorem TypeCovers.lowercase {base mediaType : Str} (h : TypeCovers base mediaType) :
    TypeCovers (toAsciiLowercase base) (toAsciiLowercase mediaType) := by
  rcases h with rfl | ⟨major, rfl, hmajor⟩ | rfl
  · exact .inl rfl
  · refine .inr (.inl ⟨toAsciiLowercase major, toAsciiLowercase_append _ _, ?_⟩)
    have hlower := hmajor.map Char.toLower
    rwa [List.map_append] at hlower
  · exact .inr (.inr rfl)

/-! ## The ranges of the header -/

section Ranges

variable {Number : Type*} [LinearOrder Number] [Zero Number] [One Number]

/-- A range covers the base type of a content type, letter case aside. -/
def Covers (contentType : Str) (range : MediaRange Number) : Prop :=
  TypeCovers (toAsciiLowercase (mediaType contentType)) (toAsciiLowercase range.mediaType)

/-- The preferences accept a content type: they are empty, or a range with a positive weight covers
it. -/
def Accepts (preferences : ContentPreferences Number) (contentType : Str) : Prop :=
  preferences.typePreferences = [] ∨
    ∃ range ∈ preferences.typePreferences,
      (∃ q, range.q = .number q ∧ 0 < q) ∧ Covers contentType range

/-- Some element of the header has no type. -/
def HasEmptyElement (header : Str) : Prop := ∃ part ∈ split header ',', mediaType part = []

def IsLowercase (s : Str) : Prop := toAsciiLowercase s = s

/-- The range's type stands in the header as it is, in lower case. -/
def WrittenAs (header : Str) (range : MediaRange Number) : Prop :=
  ∃ part ∈ split header ',', mediaType part = range.mediaType

/-- Both parsers find the same type in an element, up to its case. -/
theorem elementType_eq (part : Str) : elementType part = toAsciiLowercase (mediaType part) := by
  rw [elementType, mediaType, head?_splitn, head?_split]
  rfl

variable {parse : Str → Option (F32 Number)} {header contentType : Str}

/-- The ranges that cover a type, through the elements from which they come. -/
theorem exists_covers_iff :
    (∃ range ∈ (fromAcceptHeader parse header).typePreferences, Covers contentType range) ↔
      ∃ part ∈ split header ',', mediaType part ≠ [] ∧
        TypeCovers (toAsciiLowercase (mediaType contentType))
          (toAsciiLowercase (mediaType part)) := by
  constructor
  · rintro ⟨range, hrange, hcovers⟩
    obtain ⟨part, hpart, hnamed, rfl⟩ := mem_headerRanges.mp (mem_sortBy.mp hrange)
    rw [elementType_eq, Ne, toAsciiLowercase_eq_nil_iff] at hnamed
    rw [Covers, MediaRange.new, elementType_eq, toAsciiLowercase_toAsciiLowercase] at hcovers
    exact ⟨part, hpart, hnamed, hcovers⟩
  · rintro ⟨part, hpart, hnamed, hcovers⟩
    rw [← toAsciiLowercase_eq_nil_iff.ne, ← elementType_eq] at hnamed
    refine ⟨_, mem_sortBy.mpr (mem_headerRanges.mpr ⟨part, hpart, hnamed, rfl⟩), ?_⟩
    rwa [Covers, MediaRange.new, elementType_eq, toAsciiLowercase_toAsciiLowercase]

/-- The type of a range is in lower case. -/
theorem isLowercase_of_mem {range : MediaRange Number}
    (h : range ∈ (fromAcceptHeader parse header).typePreferences) : IsLowercase range.mediaType := by
  obtain ⟨part, -, -, rfl⟩ := mem_headerRanges.mp (mem_sortBy.mp h)
  calc toAsciiLowercase (elementType part)
      = toAsciiLowercase (toAsciiLowercase (mediaType part)) := by rw [elementType_eq]
    _ = toAsciiLowercase (mediaType part) := toAsciiLowercase_toAsciiLowercase _
    _ = elementType part := (elementType_eq part).symm

/-- A wildcard has no letters, so it stands in the header as it is. -/
theorem writtenAs_wildcard {range : MediaRange Number}
    (h : range ∈ (fromAcceptHeader parse header).typePreferences)
    (hwild : range.mediaType = "*/*".toList) : WrittenAs header range := by
  obtain ⟨part, hpart, -, rfl⟩ := mem_headerRanges.mp (mem_sortBy.mp h)
  have hlower : toAsciiLowercase (mediaType part) = "*/*".toList :=
    (elementType_eq part).symm.trans hwild
  exact ⟨part, hpart, (eq_of_toAsciiLowercase_eq (by decide) hlower).trans hwild.symm⟩

/-- What satisfies the header is covered by one of its ranges, whatever the weight, or the header
has an empty element.  Conversely an empty element and a full wildcard satisfy it for every type,
and any other range that covers the type does so if both are written in lower case. -/
theorem acceptSatisfied_covers (parse : Str → Option (F32 Number)) (header contentType : Str) :
    (acceptSatisfied header contentType = true → HasEmptyElement header ∨
      ∃ range ∈ (fromAcceptHeader parse header).typePreferences, Covers contentType range) ∧
    (HasEmptyElement header → acceptSatisfied header contentType = true) ∧
    ∀ range ∈ (fromAcceptHeader parse header).typePreferences,
      (range.mediaType = "*/*".toList → acceptSatisfied header contentType = true) ∧
      (IsLowercase (mediaType contentType) → WrittenAs header range → Covers contentType range →
        acceptSatisfied header contentType = true) := by
  rw [acceptSatisfied_eq_true_iff, exists_covers_iff]
  refine ⟨?_, ?_, fun range hrange ↦ ⟨fun hwild ↦ ?_, ?_⟩⟩
  · rintro ⟨part, hpart, hempty | hcovers⟩
    · exact .inl ⟨part, hpart, hempty⟩
    · by_cases hempty : mediaType part = []
      · exact .inl ⟨part, hpart, hempty⟩
      · exact .inr ⟨part, hpart, hempty, hcovers.lowercase⟩
  · rintro ⟨part, hpart, hempty⟩
    exact ⟨part, hpart, .inl hempty⟩
  · obtain ⟨part, hpart, hwritten⟩ := writtenAs_wildcard hrange hwild
    exact ⟨part, hpart, .inr (.inl (hwritten.trans hwild))⟩
  · rintro hcontent ⟨part, hpart, hwritten⟩ hcovers
    rw [Covers, hcontent, isLowercase_of_mem hrange, ← hwritten] at hcovers
    exact ⟨part, hpart, .inr hcovers⟩

end Ranges

/-- A type of weight zero satisfies the handlers but not the preferences. -/
theorem not_acceptSatisfied_iff_accepts :
    let parse : Str → Option (F32 ℤ) := fun text ↦ if text = ['0'] then some (.number 0) else none
    ¬ (acceptSatisfied "text/turtle;q=0".toList "text/turtle".toList = true ↔
      Accepts (fromAcceptHeader parse "text/turtle;q=0".toList) "text/turtle".toList) := by
  intro parse h
  have hranges : (fromAcceptHeader parse "text/turtle;q=0".toList).typePreferences =
      [⟨"text/turtle".toList, .number 0⟩] :=
    List.mergeSort_singleton _
  rcases h.mp (by decide) with hempty | ⟨range, hrange, ⟨q, hq, hpos⟩, -⟩
  · rw [hranges] at hempty
    exact absurd hempty (by decide)
  · rw [hranges, List.mem_singleton] at hrange
    rw [hrange, F32.number.injEq] at hq
    omega

end SolidCommunity.ServerCore.AcceptHeader
