import SolidCommunity.Foundations.Text

/-!
# Unix Paths

A path is a byte string.  Its components lie between its slashes, where empty pieces and single dots
do not count, and joining an absolute path to another one replaces it.  Joining a relative path
instead keeps all components and appends components of the relative path.
-/

namespace SolidCommunity.Foundations.UnixPath

open Text

/-- `PathBuf`. -/
abbrev PathBuf := Bytes

def slash : UInt8 := 47

def dot : UInt8 := 46

/-- `std::path::Component`. -/
inductive Component where
  | rootDir
  | curDir
  | parentDir
  | normal (name : Bytes)
deriving DecidableEq, Repr

def isAbsolute (path : PathBuf) : Bool := path.head? == some slash

/-- The component that a piece between slashes is. -/
def pieceComponent (piece : Bytes) : Option Component :=
  if piece = [] ∨ piece = [dot] then none
  else if piece = [dot, dot] then some .parentDir
  else some (.normal piece)

/-- The component that the beginning of the path adds: the root, or a leading single dot. -/
def leading (path : PathBuf) : List Component :=
  if isAbsolute path then [.rootDir]
  else if (path.splitOn slash).head? = some [dot] then [.curDir]
  else []

/-- `Path::components`. -/
def components (path : PathBuf) : List Component :=
  leading path ++ (path.splitOn slash).filterMap pieceComponent

/-- `Path::join`. -/
def join (base path : PathBuf) : PathBuf :=
  if isAbsolute path then path
  else if base = [] ∨ base.getLast? = some slash then base ++ path
  else base ++ slash :: path

/-! ## Joining relative paths -/

section Join

variable {base path : PathBuf}

/-- What follows the first slash does not matter for the beginning of the path. -/
theorem leading_append_slash (front back : Bytes) :
    leading (front ++ slash :: back) = leading (front ++ [slash]) := by
  have habsolute : isAbsolute (front ++ slash :: back) = isAbsolute (front ++ [slash]) := by
    cases front <;> rfl
  have hhead : ((front ++ slash :: back).splitOn slash).head? =
      ((front ++ [slash]).splitOn slash).head? := by
    rw [List.splitOn_append_cons_self, List.splitOn_append_cons_self,
      List.head?_append_of_ne_nil _ (List.splitOn_ne_nil slash front),
      List.head?_append_of_ne_nil _ (List.splitOn_ne_nil slash front)]
  rw [leading, leading, habsolute, hhead]

/-- A closing slash is no component. -/
theorem components_append_slash (front back : Bytes) :
    components (front ++ slash :: back) =
      components (front ++ [slash]) ++ (back.splitOn slash).filterMap pieceComponent := by
  rw [components, components, leading_append_slash, List.splitOn_append_cons_self,
    List.splitOn_append_cons_self, List.filterMap_append, List.filterMap_append, List.append_assoc,
    List.append_assoc]
  rfl

theorem components_append_closing {front : Bytes} (hne : front ≠ []) :
    components (front ++ [slash]) = components front := by
  have habsolute : isAbsolute (front ++ [slash]) = isAbsolute front := by
    cases front with
    | nil => exact absurd rfl hne
    | cons first rest => rfl
  have hhead : ((front ++ [slash]).splitOn slash).head? = (front.splitOn slash).head? := by
    rw [List.splitOn_append_cons_self,
      List.head?_append_of_ne_nil _ (List.splitOn_ne_nil slash front)]
  have hpieces : ((front ++ [slash]).splitOn slash).filterMap pieceComponent =
      (front.splitOn slash).filterMap pieceComponent := by
    rw [List.splitOn_append_cons_self, List.filterMap_append]
    exact List.append_nil _
  rw [components, components, leading, leading, habsolute, hhead, hpieces]

/-- Joining a relative path keeps the components and appends components of the relative path. -/
theorem components_join (h : isAbsolute path = false) :
    ∃ added, components (join base path) = components base ++ added ∧
      added.Sublist (components path) := by
  rw [join, if_neg (by simp [h])]
  have hpieces : ((path.splitOn slash).filterMap pieceComponent).Sublist (components path) :=
    List.sublist_append_right _ _
  by_cases hbase : base = []
  · rw [if_pos (.inl hbase), hbase]
    exact ⟨components path, rfl, List.Sublist.refl _⟩
  · by_cases hclosed : base.getLast? = some slash
    · obtain ⟨front, rfl⟩ := List.getLast?_eq_some_iff.mp hclosed
      rw [if_pos (.inr hclosed), List.append_assoc, List.singleton_append, components_append_slash]
      exact ⟨_, rfl, hpieces⟩
    · rw [if_neg (not_or.mpr ⟨hbase, hclosed⟩), components_append_slash,
        components_append_closing hbase]
      exact ⟨_, rfl, hpieces⟩

theorem isAbsolute_join (h : isAbsolute path = false) :
    isAbsolute (join base path) = isAbsolute base := by
  rw [join, if_neg (by simp [h])]
  cases base with
  | nil => exact h
  | cons first rest => split <;> rfl

/-- The joined path is an extension of the first one. -/
theorem isPrefix_join (h : isAbsolute path = false) : base <+: join base path := by
  rw [join, if_neg (by simp [h])]
  split <;> exact List.prefix_append _ _

end Join

/-! ## The components of a relative path -/

theorem rootDir_notMem_components {path : PathBuf} (h : isAbsolute path = false) :
    Component.rootDir ∉ components path := by
  intro hmem
  rcases List.mem_append.mp hmem with hleading | hpiece
  · rw [leading, if_neg (by simp [h])] at hleading
    split at hleading <;> simp at hleading
  · obtain ⟨piece, -, heq⟩ := List.mem_filterMap.mp hpiece
    unfold pieceComponent at heq
    split at heq
    · simp at heq
    · split at heq <;> simp at heq

/-- A parent component is written as two dots between slashes. -/
theorem splitOn_of_parentDir_mem {path : PathBuf} (h : Component.parentDir ∈ components path) :
    [dot, dot] ∈ path.splitOn slash := by
  rcases List.mem_append.mp h with hleading | hpiece
  · unfold leading at hleading
    split at hleading
    · simp at hleading
    · split at hleading <;> simp at hleading
  · obtain ⟨piece, hpiece, heq⟩ := List.mem_filterMap.mp hpiece
    unfold pieceComponent at heq
    split at heq
    · simp at heq
    · split at heq
      · next hdots => exact hdots ▸ hpiece
      · simp at heq

/-! ## Paths from text -/

/-- Splitting skips over bytes that are no slashes. -/
theorem splitOn_append_of_notMem {front : Bytes} (h : slash ∉ front) (back : Bytes) :
    (front ++ back).splitOn slash = (back.splitOn slash).modifyHead (front ++ ·) := by
  induction front with
  | nil =>
    rw [List.nil_append]
    cases back.splitOn slash <;> rfl
  | cons byte front ih =>
    obtain ⟨hbyte, hfront⟩ := not_or.mp (mt List.mem_cons.mpr h)
    have hne : (byte == slash) = false := beq_eq_false_iff_ne.mpr (Ne.symm hbyte)
    rw [List.cons_append, List.splitOn_cons_eq_if_modifyHead, hne, ih hfront]
    cases back.splitOn slash <;> rfl

theorem slash_notMem_utf8EncodeChar {c : Char} (h : c ≠ '/') : slash ∉ String.utf8EncodeChar c := by
  intro hmem
  by_cases hascii : c.toNat < 128
  · rw [utf8EncodeChar_of_lt hascii, List.mem_singleton] at hmem
    have hcode : c.toNat = 47 := by
      have hnat := congrArg UInt8.toNat hmem
      rw [UInt8.toNat_ofNat', Nat.mod_eq_of_lt (by omega)] at hnat
      exact hnat.symm
    exact h (Char.ext (UInt32.toNat_inj.mp hcode))
  · have hle := le_of_mem_utf8EncodeChar (Nat.not_lt.mp hascii) hmem
    exact absurd hle (by decide)

/-- The pieces of an encoded text are the encoded pieces of the text. -/
theorem splitOn_encode (s : Str) : (encode s).splitOn slash = (split s '/').map encode := by
  induction s with
  | nil => rfl
  | cons c s ih =>
    rw [encode_cons, split, List.splitOn_cons_eq_if_modifyHead]
    by_cases hc : c = '/'
    · subst hc
      have hslash : String.utf8EncodeChar '/' = [slash] := rfl
      rw [hslash, List.singleton_append, List.splitOn_cons_eq_if_modifyHead, ih]
      rfl
    · have hne : (c == '/') = false := beq_eq_false_iff_ne.mpr hc
      rw [splitOn_append_of_notMem (slash_notMem_utf8EncodeChar hc), ih, hne, split]
      cases s.splitOn '/' <;> simp

/-- An encoded text with a parent component has two dots between slashes. -/
theorem split_of_parentDir_mem_encode {s : Str}
    (h : Component.parentDir ∈ components (encode s)) : ['.', '.'] ∈ split s '/' := by
  have hpiece := splitOn_of_parentDir_mem h
  rw [splitOn_encode] at hpiece
  obtain ⟨piece, hmem, heq⟩ := List.mem_map.mp hpiece
  rwa [← encode_injective (heq.trans (show [dot, dot] = encode ['.', '.'] from rfl))]

theorem isAbsolute_encode (s : Str) : isAbsolute (encode s) = startsWith s '/' := by
  cases s with
  | nil => rfl
  | cons c s =>
    rw [startsWith_cons, encode_cons, isAbsolute]
    by_cases hc : c = '/'
    · subst hc
      rfl
    · have hbytes := slash_notMem_utf8EncodeChar hc
      have hne : String.utf8EncodeChar c ≠ [] := List.ne_nil_of_length_pos (by
        rw [String.length_utf8EncodeChar]
        exact Char.utf8Size_pos c)
      rw [List.head?_append_of_ne_nil _ hne, beq_eq_false_iff_ne.mpr hc, beq_eq_false_iff_ne]
      intro hhead
      exact hbytes (List.mem_of_head? hhead)

end SolidCommunity.Foundations.UnixPath
