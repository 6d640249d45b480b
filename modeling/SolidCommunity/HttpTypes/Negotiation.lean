import SolidCommunity.HttpTypes.ContentPreferences

/-!
# Negotiation

What a server asks the parsed preferences: the type that the client prefers, and whether it takes
anything.  The preferred type is the first of the header that no other one outweighs, which the
sorting has to be stable for.
-/

namespace SolidCommunity.HttpTypes.ContentPreferences

open Foundations.StableSort Foundations.Text

variable {Number : Type*}

/-- The range matches every type. -/
def isWildcard (range : MediaRange Number) : Bool := range.mediaType = "*/*".toList

/-- The client takes anything. -/
def acceptsAny (preferences : ContentPreferences Number) : Bool :=
  preferences.typePreferences.isEmpty || preferences.typePreferences.all isWildcard

def mostPreferred (preferences : ContentPreferences Number) : Option Str :=
  preferences.typePreferences.head?.map (·.mediaType)

/-- An empty list and a list of wildcards are accepted alike. -/
theorem acceptsAny_iff (preferences : ContentPreferences Number) :
    acceptsAny preferences = true ↔
      ∀ mediaType ∈ preferences.typePreferences.map (·.mediaType), mediaType = "*/*".toList := by
  rw [List.forall_mem_map]
  cases hranges : preferences.typePreferences with
  | nil => simp [acceptsAny, hranges]
  | cons range ranges => simp [acceptsAny, hranges, isWildcard]

variable [LinearOrder Number] [Zero Number] [One Number] {parse : Str → Option (F32 Number)}
  {value : Str}

/-- A range of the header that every range before it weighs less than, and no range after it weighs
more than. -/
def FirstHeaviest (range : MediaRange Number) (ranges : List (MediaRange Number)) : Prop :=
  ∃ front back weight, ranges = front ++ range :: back ∧ range.q = .number weight ∧
    (∀ earlier ∈ front, ∃ q, earlier.q = .number q ∧ q < weight) ∧
    ∀ later ∈ back, ∃ q, later.q = .number q ∧ q ≤ weight

/-- Comparing the weights of two ranges whose weights are numbers. -/
theorem exists_weight_of_unitWeight {first other : MediaRange Number} {weight : Number}
    (hfirst : first.q = .number weight) (hother : UnitWeight other) :
    ∃ q, other.q = .number q ∧ (weightKey first < weightKey other ↔ q < weight) ∧
      (weightKey first ≤ weightKey other ↔ q ≤ weight) := by
  obtain ⟨q, hq, -⟩ := hother
  refine ⟨q, hq, ?_, ?_⟩
  · rw [weightKey, weightKey, hfirst, hq]
    exact OrderDual.toDual_lt_toDual
  · rw [weightKey, weightKey, hfirst, hq]
    exact OrderDual.toDual_le_toDual

variable [ZeroLEOneClass Number]

/-- The preferred type is the first of the header that no other type outweighs, and any type will do
when the header names none but the wildcard. -/
theorem mostPreferred_firstHeaviest (hnumbers : NoNan parse value) :
    (∀ mediaType, mostPreferred (fromAcceptHeader parse value) = some mediaType →
        ∃ range, FirstHeaviest range (headerRanges parse value) ∧ range.mediaType = mediaType) ∧
      (mostPreferred (fromAcceptHeader parse value) = none ↔ headerTypes value = []) ∧
      (acceptsAny (fromAcceptHeader parse value) = true ↔
        ∀ mediaType ∈ headerTypes value, mediaType = "*/*".toList) := by
  have hunit := forall_unitWeight_iff.mpr hnumbers
  have htypes : ((fromAcceptHeader parse value).typePreferences.map (·.mediaType)).Perm
      (headerTypes value) := by
    rw [← map_mediaType_headerRanges parse value]
    exact (perm_sortBy _ _).map _
  refine ⟨fun mediaType hmediaType ↦ ?_, ?_, ?_⟩
  · obtain ⟨range, hhead, hrange⟩ := Option.map_eq_some_iff.mp hmediaType
    obtain ⟨front, back, hranges, hfront, hback⟩ := head?_sortBy (compares_byDescendingQ hunit) hhead
    have hmem (other : MediaRange Number) (hother : other ∈ front ++ range :: back) :
        UnitWeight other := hunit other (hranges ▸ hother)
    obtain ⟨weight, hweight, -⟩ := hmem range (by simp)
    refine ⟨range, ⟨front, back, weight, hranges, hweight, fun earlier hearlier ↦ ?_,
      fun later hlater ↦ ?_⟩, hrange⟩
    · obtain ⟨q, hq, hlt, -⟩ := exists_weight_of_unitWeight hweight
        (hmem earlier (List.mem_append_left _ hearlier))
      exact ⟨q, hq, hlt.mp (hfront earlier hearlier)⟩
    · obtain ⟨q, hq, -, hle⟩ := exists_weight_of_unitWeight hweight
        (hmem later (List.mem_append_right _ (List.mem_cons_of_mem _ hlater)))
      exact ⟨q, hq, hle.mp (hback later hlater)⟩
  · have hlength : (fromAcceptHeader parse value).typePreferences.length =
        (headerTypes value).length := by
      rw [← htypes.length_eq, List.length_map]
    rw [mostPreferred, Option.map_eq_none_iff, List.head?_eq_none_iff, ← List.length_eq_zero_iff,
      hlength, List.length_eq_zero_iff]
  · rw [acceptsAny_iff]
    simp only [htypes.mem_iff]

/-- A header with a refused type and two of the same weight. -/
theorem mostPreferred_firstHeaviest_tie :
    let parse : Str → Option (F32 ℤ) := fun text ↦ if text = ['0'] then some (.number 0) else none
    ∃ mediaType range,
      mostPreferred (fromAcceptHeader parse "text/html;q=0, text/turtle, text/n3".toList) =
          some mediaType ∧
        FirstHeaviest range (headerRanges parse "text/html;q=0, text/turtle, text/n3".toList) ∧
        range.mediaType = mediaType := by
  intro parse
  have hnumbers : NoNan parse "text/html;q=0, text/turtle, text/n3".toList := by decide
  obtain ⟨hfirst, hnone, -⟩ := mostPreferred_firstHeaviest hnumbers
  obtain ⟨mediaType, hmediaType⟩ := Option.ne_none_iff_exists'.mp (mt hnone.mp (by decide))
  obtain ⟨range, hrange⟩ := hfirst mediaType hmediaType
  exact ⟨mediaType, range, hmediaType, hrange⟩

end SolidCommunity.HttpTypes.ContentPreferences
