import SolidCommunity.ServerCore.Pipeline

/-!
# The Path of an Identifier

The path of a URL is cut from its text at the first place where the text of the path occurs.  The
two slashes before the authority can be such a place too, so the cut is the path exactly when the
path occurs at neither of them.
-/

namespace SolidCommunity.HttpTypes.PathOnly

open Foundations.Text ServerCore.Pipeline

/-- What is read of a parsed URL. -/
structure Url where
  path : Str
deriving DecidableEq

section PathOnly

variable (parse : Str → Option Url)

/-- The identifier from the first occurrence of its path on, where `parse` is `Url::parse`. -/
def pathOnly (identifier : ResourceIdentifier) : Str :=
  -- A bare path is returned as it is.
  if startsWith identifier.path '/' then identifier.path
  else
    match parse identifier.path with
    | some url =>
      match find identifier.path url.path with
      | some pos => identifier.path.drop pos
      | none => identifier.path
    | none => identifier.path

/-- A URL text in pieces, neither of the first two of which contains a slash. -/
structure UrlText where
  scheme : Str
  authority : Str
  path : Str
  slash_notMem_scheme : '/' ∉ scheme
  slash_notMem_authority : '/' ∉ authority
  startsWith_path : startsWith path '/' = true

namespace UrlText

variable (url : UrlText)

def identifier : ResourceIdentifier :=
  ⟨(url.scheme ++ [':']) ++ '/' :: '/' :: (url.authority ++ url.path)⟩

theorem slash_notMem_front : '/' ∉ url.scheme ++ [':'] := by
  simp [url.slash_notMem_scheme]

/-- The text does not look like a bare path. -/
theorem startsWith_identifier : startsWith url.identifier.path '/' = false := by
  have hne : url.scheme ++ [':'] ≠ [] := List.append_ne_nil_of_right_ne_nil _ (by decide)
  cases hfront : url.scheme ++ [':'] with
  | nil => exact absurd hfront hne
  | cons c front =>
    have hslash := url.slash_notMem_front
    rw [hfront] at hslash
    have hc : c ≠ '/' := (List.ne_of_not_mem_cons hslash).symm
    rw [identifier, hfront, List.cons_append, startsWith_cons]
    exact beq_eq_false_iff_ne.mpr hc

/-- What the text is cut to: it is searched from the slashes of the scheme on. -/
theorem map_drop_find_path :
    (find url.identifier.path url.path).map (url.identifier.path.drop ·) =
      some (if url.path <+: '/' :: '/' :: (url.authority ++ url.path) then
        '/' :: '/' :: (url.authority ++ url.path)
      else if url.path <+: '/' :: (url.authority ++ url.path) then
        '/' :: (url.authority ++ url.path)
      else url.path) := by
  obtain ⟨rest, hpath⟩ : ∃ rest, url.path = '/' :: rest := by
    have hstart := url.startsWith_path
    cases hpath : url.path with
    | nil => simp [hpath] at hstart
    | cons c rest =>
      rw [hpath, startsWith_cons, beq_iff_eq] at hstart
      exact ⟨rest, by rw [hstart]⟩
  calc (find url.identifier.path url.path).map (url.identifier.path.drop ·)
      = (find ('/' :: '/' :: (url.authority ++ url.path)) url.path).map
          (('/' :: '/' :: (url.authority ++ url.path)).drop ·) := by
        rw [identifier, hpath]
        exact map_drop_find_append url.slash_notMem_front _ rest
    _ = if url.path <+: '/' :: '/' :: (url.authority ++ url.path) then
          some ('/' :: '/' :: (url.authority ++ url.path))
        else if url.path <+: '/' :: (url.authority ++ url.path) then
          some ('/' :: (url.authority ++ url.path))
        else (find (url.authority ++ url.path) url.path).map
          ((url.authority ++ url.path).drop ·) := by
        rw [map_drop_find_cons, map_drop_find_cons]
    _ = if url.path <+: '/' :: '/' :: (url.authority ++ url.path) then
          some ('/' :: '/' :: (url.authority ++ url.path))
        else if url.path <+: '/' :: (url.authority ++ url.path) then
          some ('/' :: (url.authority ++ url.path))
        else some url.path := by
        congr 2
        conv_lhs => rw [hpath, map_drop_find_append url.slash_notMem_authority, map_drop_find_self]
        rw [hpath]
    _ = _ := by
        split_ifs <;> rfl

variable {parse} {url}

/-- Of a text that parses to its own path, the first occurrence of the path is returned. -/
theorem pathOnly_identifier (hparse : parse url.identifier.path = some ⟨url.path⟩) :
    some (pathOnly parse url.identifier) =
      (find url.identifier.path url.path).map (url.identifier.path.drop ·) := by
  have hfound := map_drop_find_path url
  cases hfind : find url.identifier.path url.path with
  | none => simp [hfind] at hfound
  | some pos =>
    simp only [pathOnly, startsWith_identifier, hparse, hfind, Bool.false_eq_true, if_false,
      Option.map_some]

end UrlText

end PathOnly

/-- The path is returned exactly when it does not occur at the slashes before the authority. -/
theorem pathOnly_eq_path_iff {parse : Str → Option Url} {url : UrlText}
    (hparse : parse url.identifier.path = some ⟨url.path⟩) :
    pathOnly parse url.identifier = url.path ↔
      ¬ url.path <+: '/' :: '/' :: (url.authority ++ url.path) ∧
        ¬ url.path <+: '/' :: (url.authority ++ url.path) := by
  have hcut := (UrlText.pathOnly_identifier hparse).trans (UrlText.map_drop_find_path url)
  have hlength (front : Str) (hne : front ≠ []) : front ++ url.path ≠ url.path := by
    intro heq
    exact hne (List.append_left_eq_self.mp heq)
  rw [Option.some_inj.mp hcut]
  split_ifs with hfirst hsecond
  · exact iff_of_false (hlength ('/' :: '/' :: url.authority) (by simp)) fun h ↦ h.1 hfirst
  · exact iff_of_false (hlength ('/' :: url.authority) (by simp)) fun h ↦ h.2 hsecond
  · exact iff_of_true rfl ⟨hfirst, hsecond⟩

/-- The URL of a test. -/
def somePath : UrlText where
  scheme := "http".toList
  authority := "test.com".toList
  path := "/some/path".toList
  slash_notMem_scheme := by decide
  slash_notMem_authority := by decide
  startsWith_path := by decide

theorem pathOnly_somePath :
    pathOnly (fun text ↦ if text = "http://test.com/some/path".toList then
      some ⟨"/some/path".toList⟩ else none) somePath.identifier = "/some/path".toList :=
  (pathOnly_eq_path_iff (by decide)).mpr (by decide)

/-- The root of the tests, whose path is cut at the scheme. -/
def rootPath : UrlText where
  scheme := "http".toList
  authority := "test.com".toList
  path := "/".toList
  slash_notMem_scheme := by decide
  slash_notMem_authority := by decide
  startsWith_path := by decide

theorem pathOnly_rootPath :
    rootPath.identifier = ⟨"http://test.com/".toList⟩ ∧
      pathOnly (fun text ↦ if text = "http://test.com/".toList then some ⟨['/']⟩ else none)
        rootPath.identifier = "//test.com/".toList ∧
      pathOnly (fun text ↦ if text = "http://test.com/".toList then some ⟨['/']⟩ else none)
        rootPath.identifier ≠ rootPath.path := by
  decide

end SolidCommunity.HttpTypes.PathOnly
