import SolidCommunity.ServerCore.LdpHandlers

/-!
# The LDP Route Table

Two routes share one method table: the root, which captures nothing, and the wildcard, whose capture
is the percent-decoded remainder of the path.  The resource a request accesses is the key of its
capture; the lemmas below say that this is the only resource its handler names.
-/

namespace SolidCommunity.ServerCore.Routing

open Foundations.FiniteMap Foundations.PercentDecoding Foundations.Text Http LdpHandlers

/-- The wildcard capture of the route that matches a path.  No handler runs when neither route
matches, or when the remainder does not decode to text. -/
def capture : Str → Option (Option Str)
  | ['/'] => some none
  | '/' :: rest => (percentDecode rest).map some
  | _ => none

/-- Route a request; undefined when the router answers on its own. -/
def ldpRouter (store : LdpStore) (slug : Slug) (request : Request) : Option (LdpStore × Response) :=
  (capture request.path).bind fun path ↦ handle store path slug request

/-! ## The resource a handler accesses -/

/-- The store key of a captured path. -/
def accessedKey (path : Option Str) : Str := LdpStore.key (resolvePath path)

theorem startsWith_resolvePath (path : Option Str) : startsWith (resolvePath path) '/' = true := by
  unfold resolvePath
  split
  · rfl
  · rfl
  · split
    · assumption
    · simp

/-- A resolved path is a key already. -/
theorem accessedKey_eq (path : Option Str) : accessedKey path = resolvePath path := by
  rw [accessedKey, LdpStore.key, if_pos (startsWith_resolvePath path)]

theorem handleGet_congr {first second : LdpStore} {path : Option Str}
    (h : first.lookup (accessedKey path) = second.lookup (accessedKey path)) (request : Request) :
    handleGet first path request = handleGet second path request := by
  unfold accessedKey at h
  simp only [handleGet, LdpStore.get, h]

theorem handleHead_congr {first second : LdpStore} {path : Option Str}
    (h : first.lookup (accessedKey path) = second.lookup (accessedKey path)) (request : Request) :
    handleHead first path request = handleHead second path request := by
  unfold accessedKey at h
  simp only [handleHead, LdpStore.get, h]

/-! ## Raw paths and keys -/

/-- The path names its own key: it has no escape and begins with a single slash. -/
def NamesItself (path : Str) : Prop := hasEscape path = false ∧ startsWith path.tail '/' = false

instance (path : Str) : Decidable (NamesItself path) :=
  inferInstanceAs (Decidable (hasEscape path = false ∧ startsWith path.tail '/' = false))

theorem hasEscape_cons_slash (rest : Str) : hasEscape ('/' :: rest) = hasEscape rest :=
  hasEscape.eq_3 _ _ fun _ _ _ h ↦ absurd h (by decide)

/-- A decoded remainder resolves to the raw path exactly when the path names itself. -/
theorem resolvePath_decoded_eq_iff {rest decoded : Str} (h : percentDecode rest = some decoded) :
    resolvePath (some decoded) = '/' :: rest ↔ NamesItself ('/' :: rest) := by
  rw [NamesItself, hasEscape_cons_slash, List.tail_cons]
  constructor
  · intro hresolve
    unfold resolvePath at hresolve
    split at hresolve
    · next heq => simp at heq
    · next heq =>
      obtain rfl : [] = rest := (List.cons.inj hresolve).2
      exact ⟨rfl, rfl⟩
    · next other _ heq =>
      obtain rfl : decoded = other := Option.some_inj.mp heq
      split at hresolve
      · exact absurd (hresolve ▸ h) (percentDecode_ne_cons '/' rest)
      · next hslash =>
        obtain rfl : decoded = rest := (List.cons.inj hresolve).2
        exact ⟨percentDecode_eq_some_self_iff.mp h, by simpa using hslash⟩
  · rintro ⟨hescape, hslash⟩
    obtain rfl : rest = decoded :=
      Option.some_inj.mp ((percentDecode_of_hasEscape_eq_false hescape).symm.trans h)
    unfold resolvePath
    split
    · next heq => simp at heq
    · next heq => rw [Option.some_inj.mp heq]
    · next other _ heq =>
      obtain rfl : rest = other := Option.some_inj.mp heq
      rw [if_neg (by simp [hslash])]

/-- A path that names itself reaches a handler. -/
theorem exists_capture_of_namesItself {path : Str} (hslash : startsWith path '/' = true)
    (h : NamesItself path) : ∃ captured, capture path = some captured := by
  match path, hslash with
  | first :: rest, hslash =>
    obtain rfl : first = '/' := by simpa using hslash
    have hdecode : percentDecode rest = some rest :=
      percentDecode_of_hasEscape_eq_false ((hasEscape_cons_slash rest).symm.trans h.1)
    cases rest with
    | nil => exact ⟨none, rfl⟩
    | cons second rest => exact ⟨some (second :: rest), by simp [capture, hdecode]⟩

/-- A captured path is its own key exactly when it names itself. -/
theorem accessedKey_eq_path_iff {path : Str} {captured : Option Str}
    (h : capture path = some captured) : accessedKey captured = path ↔ NamesItself path := by
  rw [accessedKey_eq]
  unfold capture at h
  split at h
  · obtain rfl := Option.some_inj.mp h
    exact iff_of_true rfl ⟨rfl, rfl⟩
  · next rest _ =>
    obtain ⟨decoded, hdecoded, rfl⟩ := Option.map_eq_some_iff.mp h
    exact resolvePath_decoded_eq_iff hdecoded
  · simp at h

end SolidCommunity.ServerCore.Routing
