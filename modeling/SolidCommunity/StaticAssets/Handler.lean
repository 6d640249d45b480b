import SolidCommunity.Foundations.LastMaximum
import SolidCommunity.Foundations.UnixPath
import SolidCommunity.ServerCore.RequestPipeline

/-!
# The Static Asset Handler

A request is resolved against the entry with the longest matching prefix, and what is left of the
URL is joined to the path of this entry.  The joined path never leaves the entry's path.  The prefix
is matched character by character, so an entry can match in the middle of a segment; a request is
resolved as if such entries did not exist exactly when none of them is the longest match, or when
what follows it is refused anyway.
-/

namespace SolidCommunity.StaticAssets

open Foundations.LastMaximum Foundations.Text Foundations.UnixPath ServerCore.RequestPipeline

structure StaticAssetEntry where
  urlPath : Str
  fsPath : PathBuf
deriving DecidableEq

structure StaticAssetHandler where
  entries : List StaticAssetEntry

/-- The URL without its query string. -/
def cleanPath (urlPath : Str) : Str := ((split urlPath '?').head?).getD urlPath

def notFound (urlPath : Str) : SolidError :=
  .notFound ("No static asset at ".toList ++ urlPath)

/-- The entry with the longest prefix that matches, the last one of several.  Prefixes of one text
compare alike by their characters and by their bytes. -/
def bestEntry (entries : List StaticAssetEntry) (clean : Str) : Option StaticAssetEntry :=
  maxByKey (·.urlPath.length) (entries.filter (·.urlPath.isPrefixOf clean))

/-- What follows the prefix of an entry. -/
def assetSuffix (clean : Str) (entry : StaticAssetEntry) : Str := clean.drop entry.urlPath.length

section Resolve

variable (guess : PathBuf → Str)

/-- The path and the media type of an asset, where `guess` is the type that `MimeGuess` finds. -/
def resolve (handler : StaticAssetHandler) (urlPath : Str) : Except SolidError (PathBuf × Str) :=
  let clean := cleanPath urlPath
  match bestEntry handler.entries clean with
  | none => .error (notFound urlPath)
  | some best =>
    let suffix := assetSuffix clean best
    if contains suffix ['.', '.'] then .error (notFound urlPath)
    else
      let fsPath := join best.fsPath (encode (trimStartMatches suffix '/'))
      .ok (fsPath, guess fsPath)

end Resolve

section Matches

variable {guess : PathBuf → Str} {handler : StaticAssetHandler}
  {entries : List StaticAssetEntry} {entry : StaticAssetEntry} {urlPath clean : Str}

/-- The entry matches, and no other matching entry is longer. -/
def IsLongestMatch (entries : List StaticAssetEntry) (clean : Str) (entry : StaticAssetEntry) : Prop :=
  entry ∈ entries ∧ entry.urlPath <+: clean ∧
    ∀ other ∈ entries, other.urlPath <+: clean → other.urlPath.length ≤ entry.urlPath.length

theorem isLongestMatch_of_bestEntry (h : bestEntry entries clean = some entry) :
    IsLongestMatch entries clean entry := by
  obtain ⟨hmem, hmatches⟩ := List.mem_filter.mp (mem_of_maxByKey h)
  refine ⟨hmem, List.isPrefixOf_iff_prefix.mp hmatches, fun other hother hprefixed ↦ ?_⟩
  exact le_of_maxByKey h
    (List.mem_filter.mpr ⟨hother, List.isPrefixOf_iff_prefix.mpr hprefixed⟩)

/-- Longest matches have the same prefix. -/
theorem IsLongestMatch.urlPath_eq (h : IsLongestMatch entries clean entry)
    {other : StaticAssetEntry} (hother : IsLongestMatch entries clean other) :
    entry.urlPath = other.urlPath :=
  (List.prefix_of_prefix_length_le h.2.1 hother.2.1 (hother.2.2 entry h.1 h.2.1)).eq_of_length_le
    (h.2.2 other hother.1 hother.2.1)

/-- What a successful resolution returns. -/
theorem resolve_eq_ok_iff {path : PathBuf} {mime : Str} :
    resolve guess handler urlPath = .ok (path, mime) ↔
      ∃ best, bestEntry handler.entries (cleanPath urlPath) = some best ∧
        contains (assetSuffix (cleanPath urlPath) best) ['.', '.'] = false ∧
        path = join best.fsPath
          (encode (trimStartMatches (assetSuffix (cleanPath urlPath) best) '/')) ∧
        mime = guess path := by
  cases hbest : bestEntry handler.entries (cleanPath urlPath) with
  | none => simp [resolve, hbest]
  | some best =>
    cases hdots : contains (assetSuffix (cleanPath urlPath) best) ['.', '.'] with
    | true => simp [resolve, hbest, hdots]
    | false =>
      simp only [resolve, hbest, hdots, Bool.false_eq_true, if_false, Except.ok.injEq,
        Prod.mk.injEq, Option.some_inj, exists_eq_left', true_and]
      constructor
      · rintro ⟨hpath, hmime⟩
        exact ⟨hpath.symm, by rw [← hmime, hpath]⟩
      · rintro ⟨hpath, hmime⟩
        exact ⟨hpath.symm, by rw [hmime, hpath]⟩

end Matches

/-! ## Confinement -/

/-- A resolved path is that of a longest match, followed by components that lead only downwards. -/
theorem resolve_confined {guess : PathBuf → Str} {handler : StaticAssetHandler} {urlPath : Str}
    {path : PathBuf} {mime : Str} (h : resolve guess handler urlPath = .ok (path, mime)) :
    ∃ entry, IsLongestMatch handler.entries (cleanPath urlPath) entry ∧
      (∃ added, components path = components entry.fsPath ++ added ∧
        Component.parentDir ∉ added ∧ Component.rootDir ∉ added) ∧
      isAbsolute path = isAbsolute entry.fsPath ∧ entry.fsPath <+: path := by
  obtain ⟨best, hbest, hdots, rfl, -⟩ := resolve_eq_ok_iff.mp h
  have hrelative : isAbsolute
      (encode (trimStartMatches (assetSuffix (cleanPath urlPath) best) '/')) = false := by
    rw [isAbsolute_encode, startsWith_trimStartMatches]
  obtain ⟨added, hcomponents, hadded⟩ := components_join hrelative
  refine ⟨best, isLongestMatch_of_bestEntry hbest, ⟨added, hcomponents, ?_, ?_⟩,
    isAbsolute_join hrelative, isPrefix_join hrelative⟩
  · intro hparent
    have hpiece := isInfix_of_mem_split (split_of_parentDir_mem_encode (hadded.subset hparent))
    have hinfix : ['.', '.'] <:+: assetSuffix (cleanPath urlPath) best :=
      hpiece.trans (List.dropWhile_suffix _).isInfix
    exact of_decide_eq_false hdots hinfix
  · intro hroot
    exact rootDir_notMem_components hrelative (hadded.subset hroot)

/-- The handler of one directory of styles. -/
def stylesHandler : StaticAssetHandler where
  entries := [⟨"/assets".toList, encode "/srv/assets".toList⟩]

theorem resolve_confined_styles :
    ∃ entry, IsLongestMatch stylesHandler.entries (cleanPath "/assets/main.css?v=1".toList) entry ∧
      (∃ added, components (encode "/srv/assets/main.css".toList) =
          components entry.fsPath ++ added ∧
        Component.parentDir ∉ added ∧ Component.rootDir ∉ added) ∧
      isAbsolute (encode "/srv/assets/main.css".toList) = isAbsolute entry.fsPath ∧
      entry.fsPath <+: encode "/srv/assets/main.css".toList :=
  @resolve_confined (fun _ ↦ "text/css".toList) stylesHandler "/assets/main.css?v=1".toList
    (encode "/srv/assets/main.css".toList) "text/css".toList rfl

/-! ## Segments -/

/-- The entry covers the URL by whole segments. -/
def coversSegments (clean : Str) (entry : StaticAssetEntry) : Bool :=
  clean == entry.urlPath || (endsWith entry.urlPath '/' && entry.urlPath.isPrefixOf clean) ||
    (entry.urlPath ++ ['/']).isPrefixOf clean

/-- The handler without the entries that do not cover the URL. -/
def StaticAssetHandler.covering (handler : StaticAssetHandler) (clean : Str) :
    StaticAssetHandler where
  entries := handler.entries.filter (coversSegments clean)

/-- A URL is resolved with an entry that covers it, and entries that do not cover it have no
influence. -/
structure RespectsSegments (guess : PathBuf → Str) (handler : StaticAssetHandler) (urlPath : Str) :
    Prop where
  covered : ∀ entry result, bestEntry handler.entries (cleanPath urlPath) = some entry →
    resolve guess handler urlPath = .ok result → coversSegments (cleanPath urlPath) entry = true
  unshadowed : resolve guess handler urlPath =
    resolve guess (handler.covering (cleanPath urlPath)) urlPath

section Segments

variable {guess : PathBuf → Str} {handler : StaticAssetHandler}
  {entries : List StaticAssetEntry} {best other : StaticAssetEntry} {urlPath clean : Str}

/-- Only the best entry matters. -/
theorem resolve_congr {handler' : StaticAssetHandler}
    (h : bestEntry handler.entries (cleanPath urlPath) =
      bestEntry handler'.entries (cleanPath urlPath)) :
    resolve guess handler urlPath = resolve guess handler' urlPath := by
  simp only [resolve, h]

theorem resolve_of_contains (hbest : bestEntry handler.entries (cleanPath urlPath) = some best)
    (hdots : contains (assetSuffix (cleanPath urlPath) best) ['.', '.'] = true) :
    resolve guess handler urlPath = .error (notFound urlPath) := by
  simp only [resolve, hbest, hdots, if_true]

/-- A shorter match leaves more of the URL. -/
theorem contains_assetSuffix_of_le (hlength : other.urlPath.length ≤ best.urlPath.length)
    (hdots : contains (assetSuffix clean best) ['.', '.'] = true) :
    contains (assetSuffix clean other) ['.', '.'] = true := by
  have hsuffix : assetSuffix clean best <:+ assetSuffix clean other := by
    rw [assetSuffix, assetSuffix, ← Nat.sub_add_cancel hlength, Nat.add_comm, ← List.drop_drop]
    exact List.drop_suffix _ _
  exact decide_eq_true ((of_decide_eq_true hdots).trans hsuffix.isInfix)

/-- An entry that covers the URL is still the best one among those that do. -/
theorem bestEntry_filter {keep : StaticAssetEntry → Bool} (h : bestEntry entries clean = some best)
    (hkeep : keep best = true) : bestEntry (entries.filter keep) clean = some best := by
  have hcomm : (entries.filter keep).filter (·.urlPath.isPrefixOf clean) =
      (entries.filter (·.urlPath.isPrefixOf clean)).filter keep := by
    rw [List.filter_filter, List.filter_filter]
    exact List.filter_congr fun entry _ ↦ Bool.and_comm _ _
  rw [bestEntry, hcomm]
  exact maxByKey_filter h hkeep

theorem IsLongestMatch.exists_bestEntry (h : IsLongestMatch entries clean other) :
    ∃ best, bestEntry entries clean = some best ∧ best.urlPath = other.urlPath := by
  cases hbest : bestEntry entries clean with
  | none =>
    have hnone := maxByKey_eq_none_iff.mp hbest
    have hmem : other ∈ entries.filter (·.urlPath.isPrefixOf clean) :=
      List.mem_filter.mpr ⟨h.1, List.isPrefixOf_iff_prefix.mpr h.2.1⟩
    rw [hnone] at hmem
    exact absurd hmem List.not_mem_nil
  | some best => exact ⟨best, rfl, (isLongestMatch_of_bestEntry hbest).urlPath_eq h⟩

/-- What the prefixes are tells everything about a match. -/
theorem coversSegments_congr (h : best.urlPath = other.urlPath) :
    coversSegments clean best = coversSegments clean other := by
  rw [coversSegments, coversSegments, h]

/-- Where the longest match covers the URL or is refused, the entries that do not cover it have no
influence. -/
theorem resolve_covering (h : ∀ entry, IsLongestMatch handler.entries (cleanPath urlPath) entry →
      coversSegments (cleanPath urlPath) entry = true ∨
        contains (assetSuffix (cleanPath urlPath) entry) ['.', '.'] = true) :
    resolve guess handler urlPath =
      resolve guess (handler.covering (cleanPath urlPath)) urlPath := by
  cases hbest : bestEntry handler.entries (cleanPath urlPath) with
  | none =>
    apply resolve_congr
    have hnone := maxByKey_eq_none_iff.mp hbest
    rw [hbest, eq_comm, bestEntry, maxByKey_eq_none_iff, StaticAssetHandler.covering,
      List.filter_comm, hnone]
    rfl
  | some best =>
    have hlongest := isLongestMatch_of_bestEntry hbest
    rcases h best hlongest with hcovers | hdots
    · apply resolve_congr
      rw [hbest]
      exact (bestEntry_filter hbest hcovers).symm
    · rw [resolve_of_contains hbest hdots]
      cases hcovering : bestEntry (handler.covering (cleanPath urlPath)).entries
          (cleanPath urlPath) with
      | none => simp only [resolve, hcovering]
      | some shorter =>
        obtain ⟨hmem, hprefixed, -⟩ := isLongestMatch_of_bestEntry hcovering
        have hlength := hlongest.2.2 shorter (List.mem_of_mem_filter hmem) hprefixed
        exact (resolve_of_contains hcovering (contains_assetSuffix_of_le hlength hdots)).symm

end Segments

/-- A URL is resolved by segments exactly when its longest match covers it by segments, or is refused
because of what follows it. -/
theorem respectsSegments_iff (guess : PathBuf → Str) (handler : StaticAssetHandler) (urlPath : Str) :
    RespectsSegments guess handler urlPath ↔
      ∀ entry, IsLongestMatch handler.entries (cleanPath urlPath) entry →
        coversSegments (cleanPath urlPath) entry = true ∨
          contains (assetSuffix (cleanPath urlPath) entry) ['.', '.'] = true := by
  constructor
  · intro h entry hentry
    obtain ⟨best, hbest, hsame⟩ := hentry.exists_bestEntry
    have hsuffix : assetSuffix (cleanPath urlPath) best = assetSuffix (cleanPath urlPath) entry := by
      rw [assetSuffix, assetSuffix, hsame]
    rw [← hsuffix, ← coversSegments_congr hsame]
    cases hdots : contains (assetSuffix (cleanPath urlPath) best) ['.', '.'] with
    | true => exact .inr rfl
    | false => exact .inl (h.covered best _ hbest (resolve_eq_ok_iff.mpr ⟨best, hbest, hdots, rfl, rfl⟩))
  · intro h
    refine ⟨fun entry result hbest hresult ↦ ?_, resolve_covering h⟩
    obtain ⟨other, hother, hdots, -⟩ := resolve_eq_ok_iff.mp hresult
    obtain rfl := Option.some_inj.mp (hbest.symm.trans hother)
    rcases h entry (isLongestMatch_of_bestEntry hbest) with hcovers | hrefused
    · exact hcovers
    · rw [hdots] at hrefused
      exact absurd hrefused Bool.false_ne_true

/-- A sibling of the mapped directory is served from inside it. -/
theorem not_respectsSegments_sibling :
    resolve (fun _ ↦ "text/css".toList) stylesHandler "/assets-old/main.css".toList =
        .ok (encode "/srv/assets/-old/main.css".toList, "text/css".toList) ∧
      ¬ RespectsSegments (fun _ ↦ "text/css".toList) stylesHandler "/assets-old/main.css".toList := by
  refine ⟨rfl, fun h ↦ ?_⟩
  have hcovered := h.covered ⟨"/assets".toList, encode "/srv/assets".toList⟩
    (encode "/srv/assets/-old/main.css".toList, "text/css".toList) (by decide) rfl
  exact absurd hcovered (by decide)

end SolidCommunity.StaticAssets
