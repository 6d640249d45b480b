import SolidCommunity.StaticAssets.Handler

/-!
# Serving Static Assets

An asset is read from the path that its URL is resolved to.  Of several entries with one prefix the
last one counts, so the entries are a finite map from prefixes to directories in which a later entry
overrides an earlier one, and nothing outside these directories has an influence on what is served.
-/

namespace SolidCommunity.StaticAssets

open Foundations.LastMaximum Foundations.Text Foundations.UnixPath ServerCore.RequestPipeline

/-- Why a file cannot be read: it does not exist, or whatever else the system says. -/
inductive ReadError where
  | notFound
  | other (message : Str)
deriving DecidableEq

/-- What reading a path gives. -/
abbrev Disk := PathBuf → Except ReadError Bytes

/-- Read an asset, where `guess` is the type that `MimeGuess` finds and `display` is how a path is
shown. -/
def serve (guess display : PathBuf → Str) (handler : StaticAssetHandler) (disk : Disk)
    (urlPath : Str) : Except SolidError (Bytes × Str) :=
  match resolve guess handler urlPath with
  | .error error => .error error
  | .ok (path, mime) =>
    match disk path with
    | .ok data => .ok (data, mime)
    | .error .notFound => .error (.notFound (display path))
    | .error (.other message) => .error (.internal message)

/-- The directory of a prefix, by its last entry. -/
def directory (handler : StaticAssetHandler) (urlPath : Str) : Option PathBuf :=
  ((handler.entries.filter (·.urlPath = urlPath)).getLast?).map StaticAssetEntry.fsPath

/-- The path leads from the directory of a prefix downwards. -/
def Below (handler : StaticAssetHandler) (path : PathBuf) : Prop :=
  ∃ urlPath base added, directory handler urlPath = some base ∧
    components path = components base ++ added ∧
    Component.parentDir ∉ added ∧ Component.rootDir ∉ added

section Directories

variable {handler other : StaticAssetHandler} {best : StaticAssetEntry} {clean : Str}

/-- The best entry is the last one of its prefix. -/
theorem directory_of_bestEntry (h : bestEntry handler.entries clean = some best) :
    directory handler best.urlPath = some best.fsPath := by
  have hmatches : best.urlPath.isPrefixOf clean = true :=
    (List.mem_filter.mp (mem_of_maxByKey h)).2
  have hlast : ((handler.entries.filter (·.urlPath.isPrefixOf clean)).filter
      (·.urlPath = best.urlPath)).getLast? = some best := by
    apply getLast_of_maxByKey h (decide_eq_true rfl)
    intro entry hentry
    rw [of_decide_eq_true hentry]
  have hfilter : (handler.entries.filter (·.urlPath.isPrefixOf clean)).filter
      (·.urlPath = best.urlPath) = handler.entries.filter (·.urlPath = best.urlPath) := by
    rw [List.filter_filter]
    apply List.filter_congr
    intro entry _
    by_cases hsame : entry.urlPath = best.urlPath
    · rw [hsame, hmatches, Bool.and_true]
    · simp [hsame]
  rw [directory, ← hfilter, hlast, Option.map_some]

/-- A prefix with a directory has an entry. -/
theorem exists_mem_of_directory {urlPath : Str} {base : PathBuf}
    (h : directory handler urlPath = some base) :
    ∃ entry ∈ handler.entries, entry.urlPath = urlPath := by
  obtain ⟨entry, hentry, -⟩ := Option.map_eq_some_iff.mp h
  obtain ⟨hmem, hsame⟩ := List.mem_filter.mp (List.mem_of_getLast? hentry)
  exact ⟨entry, hmem, of_decide_eq_true hsame⟩

/-- No prefix with a directory matches more than the best entry does. -/
theorem length_le_of_directory (hbest : bestEntry handler.entries clean = some best) {urlPath : Str}
    {base : PathBuf} (h : directory handler urlPath = some base) (hmatches : urlPath <+: clean) :
    urlPath.length ≤ best.urlPath.length := by
  obtain ⟨entry, hmem, rfl⟩ := exists_mem_of_directory h
  exact (isLongestMatch_of_bestEntry hbest).2.2 entry hmem hmatches

/-- The best entry is found by the directories alone. -/
theorem bestEntry_congr (h : ∀ urlPath, directory handler urlPath = directory other urlPath)
    (hbest : bestEntry handler.entries clean = some best) :
    bestEntry other.entries clean = some best := by
  have hdirectory := directory_of_bestEntry hbest
  have hmatches := (isLongestMatch_of_bestEntry hbest).2.1
  obtain ⟨entry, hmem, hsame⟩ := exists_mem_of_directory ((h best.urlPath).symm.trans hdirectory)
  have hne : other.entries.filter (·.urlPath.isPrefixOf clean) ≠ [] :=
    List.ne_nil_of_mem (List.mem_filter.mpr
      ⟨hmem, List.isPrefixOf_iff_prefix.mpr (hsame ▸ hmatches)⟩)
  obtain ⟨found, hfound⟩ : ∃ found, bestEntry other.entries clean = some found :=
    exists_maxByKey hne
  have hfoundDirectory := directory_of_bestEntry hfound
  have hfoundMatches := (isLongestMatch_of_bestEntry hfound).2.1
  -- Each of the two is at least as long as the other, and they match the same text.
  have hle : found.urlPath.length ≤ best.urlPath.length :=
    length_le_of_directory hbest ((h found.urlPath).trans hfoundDirectory) hfoundMatches
  have hge : best.urlPath.length ≤ found.urlPath.length :=
    length_le_of_directory hfound ((h best.urlPath).symm.trans hdirectory) hmatches
  have hurlPath : found.urlPath = best.urlPath :=
    (List.prefix_of_prefix_length_le hfoundMatches hmatches hle).eq_of_length_le hge
  have hfsPath : found.fsPath = best.fsPath := by
    rw [hurlPath, ← h, hdirectory] at hfoundDirectory
    exact (Option.some_inj.mp hfoundDirectory).symm
  have heq : found = best := by
    cases found
    cases best
    rw [StaticAssetEntry.mk.injEq]
    exact ⟨hurlPath, hfsPath⟩
  rw [hfound, heq]

/-- So is every path. -/
theorem resolve_eq_of_directory (guess : PathBuf → Str)
    (h : ∀ urlPath, directory handler urlPath = directory other urlPath) (urlPath : Str) :
    resolve guess handler urlPath = resolve guess other urlPath := by
  apply resolve_congr
  apply Option.ext
  intro best
  exact ⟨bestEntry_congr h, bestEntry_congr fun urlPath ↦ (h urlPath).symm⟩

/-- A resolved path leads downwards from a directory. -/
theorem below_of_resolve {guess : PathBuf → Str} {urlPath mime : Str} {path : PathBuf}
    (h : resolve guess handler urlPath = .ok (path, mime)) : Below handler path := by
  obtain ⟨best, hbest, hdots, rfl, -⟩ := resolve_eq_ok_iff.mp h
  generalize hsuffix : assetSuffix (cleanPath urlPath) best = suffix at hdots
  have hrelative : isAbsolute (encode (trimStartMatches suffix '/')) = false := by
    rw [isAbsolute_encode, startsWith_trimStartMatches]
  obtain ⟨added, hcomponents, hadded⟩ := @components_join best.fsPath _ hrelative
  refine ⟨best.urlPath, best.fsPath, added, directory_of_bestEntry hbest, hcomponents, ?_, ?_⟩
  · intro hparent
    have hpiece := split_of_parentDir_mem_encode (hadded.subset hparent)
    have hinfix : ['.', '.'] <:+: suffix :=
      (isInfix_of_mem_split hpiece).trans (List.dropWhile_suffix _).isInfix
    exact of_decide_eq_false hdots hinfix
  · exact fun hroot ↦ rootDir_notMem_components hrelative (hadded.subset hroot)

end Directories

/-- What is served depends on nothing but the directory of each prefix and what is stored below
these directories. -/
theorem serve_congr (guess display : PathBuf → Str) {handler other : StaticAssetHandler}
    {disk otherDisk : Disk} (hdirectory : ∀ urlPath, directory handler urlPath = directory other urlPath)
    (hdisk : ∀ path, Below handler path → disk path = otherDisk path) (urlPath : Str) :
    serve guess display handler disk urlPath = serve guess display other otherDisk urlPath := by
  unfold serve
  rw [← resolve_eq_of_directory guess hdirectory urlPath]
  cases hresolve : resolve guess handler urlPath with
  | error error => rfl
  | ok asset =>
    have hbelow : Below handler asset.1 := below_of_resolve hresolve
    simp only [hdisk asset.1 hbelow]

/-- A handler whose first entry is overridden by its second. -/
def overridingHandler : StaticAssetHandler where
  entries := [⟨['/', 'a'], encode ['/', 'o']⟩, ⟨['/', 'a'], encode ['/', 's']⟩]

def overriddenHandler : StaticAssetHandler where
  entries := [⟨['/', 'a'], encode ['/', 's']⟩]

theorem directory_overridingHandler (urlPath : Str) :
    directory overridingHandler urlPath =
      if urlPath = ['/', 'a'] then some (encode ['/', 's']) else none := by
  split
  · next heq =>
    subst heq
    rfl
  · next hne => simp [directory, overridingHandler, Ne.symm hne]

theorem directory_overriddenHandler (urlPath : Str) :
    directory overriddenHandler urlPath =
      if urlPath = ['/', 'a'] then some (encode ['/', 's']) else none := by
  split
  · next heq =>
    subst heq
    rfl
  · next hne => simp [directory, overriddenHandler, Ne.symm hne]

/-- Only the second entry counts, and relative paths are not read. -/
theorem serve_congr_overriding :
    serve (fun _ ↦ []) (fun _ ↦ []) overridingHandler (fun _ ↦ .ok [1]) ['/', 'a', '/', 'f'] =
      serve (fun _ ↦ []) (fun _ ↦ []) overriddenHandler
        (fun path ↦ if .rootDir ∈ components path then .ok [1] else .error .notFound)
        ['/', 'a', '/', 'f'] := by
  apply serve_congr
  · intro urlPath
    rw [directory_overridingHandler, directory_overriddenHandler]
  · rintro path ⟨urlPath, base, added, hdirectory, hcomponents, -, -⟩
    rw [directory_overridingHandler] at hdirectory
    obtain ⟨-, hbase⟩ := Option.ite_none_right_eq_some.mp hdirectory
    obtain rfl := Option.some_inj.mp hbase
    have hroot : Component.rootDir ∈ components (encode ['/', 's']) := by decide
    rw [hcomponents, if_pos (List.mem_append_left _ hroot)]

end SolidCommunity.StaticAssets
