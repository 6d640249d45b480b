import Mathlib.Algebra.Order.Ring.Int
import Mathlib.Order.OrderDual
import SolidCommunity.Foundations.StableSort
import SolidCommunity.Foundations.Text

/-!
# Content Preferences

An `Accept` header is parsed into media ranges, one for each element with a type, and the ranges are
sorted by descending weight.  A weight is clamped into the unit interval, which leaves one value
outside: not a number.  The parsed list keeps its promises exactly when no element weighs this much.
-/

namespace SolidCommunity.HttpTypes

open Foundations.StableSort Foundations.Text

/-- An `f32` as far as comparisons tell: a number of an ordered type, or not a number. -/
inductive F32 (Number : Type*) where
  | nan
  | number (value : Number)
deriving DecidableEq, Repr

/-- A media type and its weight. -/
structure MediaRange (Number : Type*) where
  mediaType : Str
  q : F32 Number

structure ContentPreferences (Number : Type*) where
  typePreferences : List (MediaRange Number)

variable {Number : Type*} [LinearOrder Number]

namespace F32

/-- `f32::clamp`, which lets not a number pass. -/
def clamp (lower upper : Number) : F32 Number → F32 Number
  | nan => nan
  | number value =>
    number (if value < lower then lower else if upper < value then upper else value)

/-- `f32::partial_cmp`. -/
def partialCmp : F32 Number → F32 Number → Option Ordering
  | number value, number other => some (compare value other)
  | _, _ => none

end F32

/-! ## Parsing -/

section Parsing

variable [Zero Number] [One Number]

namespace MediaRange

def new (mediaType : Str) (q : F32 Number) : MediaRange Number where
  mediaType := mediaType
  q := q.clamp 0 1

end MediaRange

namespace ContentPreferences

/-- The type in an element of the header, before its parameters and in lower case. -/
def elementType (part : Str) : Str :=
  toAsciiLowercase (trim (((splitn ';' 2 part).head?).getD []))

variable (parse : Str → Option (F32 Number))

/-- The weight of an element, where `parse` is `str::parse::<f32>`: that of its first `q` parameter,
and one if there is none or it cannot be parsed. -/
def elementQ (part : Str) : F32 Number :=
  (((splitn ';' 2 part)[1]?).bind fun params ↦
    ((split params ';').findSome? fun p ↦ stripPrefix (trim p) "q=".toList).bind parse).getD
      (.number 1)

/-- The range of an element, unless its type is empty. -/
def elementRange (part : Str) : Option (MediaRange Number) :=
  let mediaType := elementType part
  let q := elementQ parse part
  if mediaType.isEmpty then none else some (MediaRange.new mediaType q)

/-- The ranges in header order. -/
def headerRanges (value : Str) : List (MediaRange Number) :=
  (split value ',').filterMap (elementRange parse)

/-- The comparison by descending weight, where what does not compare is a tie. -/
def byDescendingQ (first second : MediaRange Number) : Ordering :=
  (second.q.partialCmp first.q).getD .eq

def fromAcceptHeader (value : Str) : ContentPreferences Number where
  typePreferences := sortBy byDescendingQ (headerRanges parse value)

end ContentPreferences

end Parsing

/-! ## The parsed list -/

namespace ContentPreferences

variable [Zero Number] [One Number] {parse : Str → Option (F32 Number)} {value part : Str}
  {range : MediaRange Number}

/-- The types that a header names, in header order. -/
def headerTypes (value : Str) : List Str :=
  ((split value ',').map elementType).filter (!·.isEmpty)

/-- The weight is a number of the unit interval. -/
def UnitWeight (range : MediaRange Number) : Prop :=
  ∃ q, range.q = .number q ∧ 0 ≤ q ∧ q ≤ 1

/-- What the parsed list promises: a range for each named type, weights of the unit interval, a
descending order, and the header order where weights tie. -/
structure Parsed (parse : Str → Option (F32 Number)) (value : Str)
    (ranges : List (MediaRange Number)) : Prop where
  complete : (ranges.map (·.mediaType)).Perm (headerTypes value)
  weights : ∀ range ∈ ranges, UnitWeight range
  descending : ranges.Pairwise fun range later ↦
    ∃ high low, range.q = .number high ∧ later.q = .number low ∧ low ≤ high
  stable : ∀ weight, ranges.filter (·.q = .number weight) =
    (headerRanges parse value).filter (·.q = .number weight)

theorem map_mediaType_headerRanges (parse : Str → Option (F32 Number)) (value : Str) :
    (headerRanges parse value).map (·.mediaType) = headerTypes value := by
  unfold headerRanges headerTypes
  induction split value ',' with
  | nil => rfl
  | cons part parts ih =>
    rw [List.filterMap_cons, List.map_cons, List.filter_cons, elementRange]
    cases hempty : (elementType part).isEmpty with
    | true => simpa [hempty] using ih
    | false => simpa [hempty, MediaRange.new] using ih

/-- Every range comes from an element whose type is its own. -/
theorem mem_headerRanges : range ∈ headerRanges parse value ↔
    ∃ part ∈ split value ',', elementType part ≠ [] ∧
      MediaRange.new (elementType part) (elementQ parse part) = range := by
  rw [headerRanges, List.mem_filterMap]
  apply exists_congr
  intro part
  rw [elementRange, Option.ite_none_left_eq_some, List.isEmpty_iff, Option.some_inj]

/-- No element of the header weighs as much as not a number. -/
def NoNan (parse : Str → Option (F32 Number)) (value : Str) : Prop :=
  ∀ part ∈ split value ',', elementType part ≠ [] → elementQ parse part ≠ .nan

instance (parse : Str → Option (F32 Number)) (value : Str) : Decidable (NoNan parse value) :=
  inferInstanceAs (Decidable (∀ part ∈ split value ',',
    elementType part ≠ [] → elementQ parse part ≠ .nan))

/-- The number that a weight is. -/
def weightKey (range : MediaRange Number) : Numberᵒᵈ :=
  match range.q with
  | .nan => OrderDual.toDual 0
  | .number q => OrderDual.toDual q

/-- Weights that are numbers are compared by descending number. -/
theorem compares_byDescendingQ {ranges : List (MediaRange Number)}
    (h : ∀ range ∈ ranges, UnitWeight range) : Compares byDescendingQ weightKey ranges := by
  intro first hfirst second hsecond
  obtain ⟨high, hhigh, -⟩ := h first hfirst
  obtain ⟨low, hlow, -⟩ := h second hsecond
  rw [byDescendingQ, weightKey, weightKey, hhigh, hlow, F32.partialCmp, Option.getD_some,
    Bool.eq_iff_iff, decide_eq_true_iff, ← Ordering.ne_gt_iff_isLE]
  exact compare_le_iff_le

/-- Of numbers, the key tells the weight. -/
theorem weightKey_eq_iff (h : UnitWeight range) (weight : Number) :
    weightKey range = OrderDual.toDual weight ↔ range.q = .number weight := by
  obtain ⟨q, hq, -⟩ := h
  rw [weightKey, hq, F32.number.injEq]
  exact Iff.rfl

section Unit

variable [ZeroLEOneClass Number]

/-- Clamping a number gives one of the unit interval. -/
theorem unitWeight_new_iff {mediaType : Str} {q : F32 Number} :
    UnitWeight (MediaRange.new mediaType q) ↔ q ≠ .nan := by
  cases q with
  | nan => simp [UnitWeight, MediaRange.new, F32.clamp]
  | number q =>
    apply iff_of_true _ (by simp)
    refine ⟨_, rfl, ?_⟩
    split_ifs with hlow hhigh
    · exact ⟨le_rfl, zero_le_one⟩
    · exact ⟨zero_le_one, le_rfl⟩
    · exact ⟨not_lt.mp hlow, not_lt.mp hhigh⟩

/-- The weights are in the unit interval exactly when each of them is a number. -/
theorem forall_unitWeight_iff :
    (∀ range ∈ headerRanges parse value, UnitWeight range) ↔ NoNan parse value := by
  constructor
  · intro h part hpart hnamed
    exact unitWeight_new_iff.mp (h _ (mem_headerRanges.mpr ⟨part, hpart, hnamed, rfl⟩))
  · intro h range hrange
    obtain ⟨part, hpart, hnamed, rfl⟩ := mem_headerRanges.mp hrange
    exact unitWeight_new_iff.mpr (h part hpart hnamed)

/-- The list keeps its promises exactly when no element weighs as much as not a number. -/
theorem parsed_fromAcceptHeader_iff (parse : Str → Option (F32 Number)) (value : Str) :
    Parsed parse value (fromAcceptHeader parse value).typePreferences ↔ NoNan parse value := by
  rw [← forall_unitWeight_iff]
  constructor
  · intro h range hrange
    exact h.weights range (mem_sortBy.mpr hrange)
  · intro hunit
    have hcompares := compares_byDescendingQ hunit
    have hweights : ∀ range ∈ (fromAcceptHeader parse value).typePreferences, UnitWeight range :=
      fun range hrange ↦ hunit range (mem_sortBy.mp hrange)
    have hkeys (ranges : List (MediaRange Number)) (h : ∀ range ∈ ranges, UnitWeight range)
        (weight : Number) : ranges.filter (weightKey · = OrderDual.toDual weight) =
          ranges.filter (·.q = .number weight) := by
      apply List.filter_congr
      intro range hrange
      exact decide_eq_decide.mpr (weightKey_eq_iff (h range hrange) weight)
    refine ⟨?_, hweights, ?_, fun weight ↦ ?_⟩
    · rw [← map_mediaType_headerRanges parse value]
      exact (perm_sortBy _ _).map _
    · apply (pairwise_sortBy hcompares).imp_of_mem
      intro range later hrange hlater hle
      obtain ⟨high, hhigh, -⟩ := hweights range hrange
      obtain ⟨low, hlow, -⟩ := hweights later hlater
      rw [weightKey, weightKey, hhigh, hlow] at hle
      exact ⟨high, low, hhigh, hlow, hle⟩
    · rw [← hkeys _ hweights, ← hkeys _ hunit]
      exact filter_sortBy hcompares _

end Unit

/-- A header with a refused and a preferred type. -/
theorem parsed_fromAcceptHeader_weighted :
    let parse : Str → Option (F32 ℤ) := fun text ↦
      if text = ['0'] then some (.number 0) else if text = ['1'] then some (.number 1) else none
    Parsed parse "text/html;q=0, text/turtle;level=1;q=1".toList
      (fromAcceptHeader parse "text/html;q=0, text/turtle;level=1;q=1".toList).typePreferences :=
  (parsed_fromAcceptHeader_iff _ _).mpr (by decide)

/-- A weight that is not a number stays in the list. -/
theorem not_parsed_fromAcceptHeader_nan :
    let parse : Str → Option (F32 ℤ) := fun text ↦ if text = "nan".toList then some .nan else none
    ¬ Parsed parse "text/html;q=nan".toList
      (fromAcceptHeader parse "text/html;q=nan".toList).typePreferences := by
  intro parse h
  have hrange : ⟨"text/html".toList, .nan⟩ ∈ headerRanges parse "text/html;q=nan".toList :=
    mem_headerRanges.mpr ⟨"text/html;q=nan".toList, by decide, by decide, rfl⟩
  obtain ⟨q, hq, -⟩ := h.weights _ (mem_sortBy.mpr hrange)
  cases hq

end ContentPreferences

end SolidCommunity.HttpTypes
