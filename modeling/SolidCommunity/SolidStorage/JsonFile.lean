import SolidCommunity.SolidStorage.MemoryMap
import SolidCommunity.SolidStorage.SerdeJson

/-!
# The JSON File Storage

The whole map lives in one file.  A mutating call reads and parses the file, updates the map, and
writes the printed map back: it opens the file with truncation and appends the text in chunks.  A
call that is cut short has performed some prefix of these accesses.  The file is readable afterwards
exactly if it was not truncated yet or the last byte was written.
-/

namespace SolidCommunity.SolidStorage.JsonFile

open Foundations.FiniteMap Foundations.Text

variable {V Value : Type*}

/-! ## The file -/

/-- The contents of the file, absent when it does not exist. -/
abbrev File := Option Bytes

/-- Read and parse the file; a missing file is an empty map. -/
def readMap (serde : SerdeJson V Value) : File → Except StorageError (HashMap Str Value)
  | none => .ok ∅
  | some bytes =>
    match decode bytes with
    | none => .error .io
    | some contents =>
      match serde.fromStr contents with
      | none => .error .json
      | some map => .ok map

/-- The accesses of `write_map` to the file system. -/
inductive FileAction where
  | createDirAll
  | truncate
  | append (chunk : Bytes)
deriving DecidableEq

def FileAction.apply (file : File) : FileAction → File
  | createDirAll => file
  | truncate => some []
  | append chunk => file.map (· ++ chunk)

/-- The file after a sequence of accesses. -/
def performAll (file : File) (actions : List FileAction) : File :=
  actions.foldl FileAction.apply file

/-- How one call of `write_map` prints its map and hands the text to the file: in the iteration order
of the hash table, and in any number of chunks. -/
structure MapWrite (serde : SerdeJson V Value) (map : HashMap Str Value) where
  order : AList (fun _ : Str ↦ Value)
  order_eq : order.toFinmap = map
  chunks : List Bytes
  chunks_eq : ∀ text, serde.toStringPretty order = some text → chunks.flatten = encode text

/-- The accesses of `write_map`, which stops after the directory if the map cannot be printed. -/
def MapWrite.actions {serde : SerdeJson V Value} {map : HashMap Str Value}
    (write : MapWrite serde map) : List FileAction :=
  .createDirAll ::
    match serde.toStringPretty write.order with
    | none => []
    | some _ => .truncate :: write.chunks.map .append

/-! ## Mutating calls -/

inductive Update (V : Type*) where
  | set (key : Str) (value : V)
  | delete (key : Str)

/-- The map that a call writes back: none when the value cannot be serialised or there is nothing to
delete. -/
def Update.target (serde : SerdeJson V Value) (map : HashMap Str Value) :
    Update V → Option (HashMap Str Value)
  | set key value => (serde.toValue value).map (map.insert key)
  | delete key => if key ∈ map then some (map.erase key) else none

/-- The accesses that a call may make when it is not cut short. -/
inductive Accesses (serde : SerdeJson V Value) (file : File) (update : Update V) :
    List FileAction → Prop
  | unreadable (error : StorageError) (hread : readMap serde file = .error error) :
    Accesses serde file update []
  | nothing (map : HashMap Str Value) (hread : readMap serde file = .ok map)
    (htarget : update.target serde map = none) : Accesses serde file update []
  | written (map updated : HashMap Str Value) (hread : readMap serde file = .ok map)
    (htarget : update.target serde map = some updated) (write : MapWrite serde updated) :
    Accesses serde file update write.actions

/-- The bytes that a sequence of accesses appends. -/
def appended (actions : List FileAction) : Bytes :=
  actions.flatMap fun
    | .append chunk => chunk
    | _ => []

/-- The file reads as the map before the call or as the fully updated map. -/
def Intact (serde : SerdeJson V Value) (map : HashMap Str Value) (update : Update V)
    (file : File) : Prop :=
  readMap serde file = .ok map ∨
    ∃ updated, update.target serde map = some updated ∧ readMap serde file = .ok updated

/-! ## What a cut leaves behind -/

@[simp]
theorem performAll_nil (file : File) : performAll file [] = file := rfl

@[simp]
theorem performAll_cons (file : File) (action : FileAction) (actions : List FileAction) :
    performAll file (action :: actions) = performAll (action.apply file) actions := rfl

theorem performAll_append_chunks (contents : Bytes) (chunks : List Bytes) :
    performAll (some contents) (chunks.map .append) = some (contents ++ chunks.flatten) := by
  induction chunks generalizing contents with
  | nil => simp
  | cons chunk chunks ih =>
    rw [List.map_cons, performAll_cons, FileAction.apply, Option.map_some, ih]
    simp

@[simp]
theorem appended_chunks (chunks : List Bytes) : appended (chunks.map .append) = chunks.flatten := by
  simp [appended, List.flatMap_map, List.flatMap_id']

theorem actions_of_printed {serde : SerdeJson V Value} {map : HashMap Str Value}
    {write : MapWrite serde map} {text : Str} (h : serde.toStringPretty write.order = some text) :
    write.actions = .createDirAll :: .truncate :: write.chunks.map .append := by
  rw [MapWrite.actions, h]

/-- A cut of a write happens before the truncation or after some of the chunks. -/
theorem cut_cases {serde : SerdeJson V Value} {map : HashMap Str Value} (write : MapWrite serde map)
    {cut : List FileAction} (hcut : cut <+: write.actions) :
    (.truncate ∉ cut ∧ ∀ file, performAll file cut = file) ∨
      ∃ text written, serde.toStringPretty write.order = some text ∧ written <+: write.chunks ∧
        cut = .createDirAll :: .truncate :: written.map .append := by
  rw [MapWrite.actions] at hcut
  rcases List.prefix_cons_iff.mp hcut with rfl | ⟨rest, rfl, hrest⟩
  · exact .inl ⟨by simp, fun _ ↦ rfl⟩
  cases htext : serde.toStringPretty write.order with
  | none =>
    rw [htext, List.prefix_nil] at hrest
    exact .inl ⟨by simp [hrest], fun _ ↦ by rw [hrest]; rfl⟩
  | some text =>
    rw [htext] at hrest
    rcases List.prefix_cons_iff.mp hrest with rfl | ⟨appends, rfl, happends⟩
    · exact .inl ⟨by simp, fun _ ↦ rfl⟩
    · rw [List.prefix_iff_eq_take, ← List.map_take] at happends
      exact .inr ⟨text, _, rfl, List.take_prefix _ _, by rw [happends]⟩

theorem readMap_of_fromStr {serde : SerdeJson V Value} {text : Str} {map : HashMap Str Value}
    (h : serde.fromStr text = some map) : readMap serde (some (encode text)) = .ok map := by
  simp [readMap, h]

/-- The printed text is readable as a whole. -/
theorem readMap_encode {serde : SerdeJson V Value} (hserde : serde.ReadsBack)
    {order : AList (fun _ : Str ↦ Value)} {text : Str}
    (htext : serde.toStringPretty order = some text) :
    readMap serde (some (encode text)) = .ok order.toFinmap :=
  readMap_of_fromStr (hserde.whole order text htext)

/-- Anything less than the printed text is unreadable, even where it is cut inside a character. -/
theorem readMap_truncated {serde : SerdeJson V Value} (hserde : serde.ReadsBack)
    {order : AList (fun _ : Str ↦ Value)} {text : Str}
    (htext : serde.toStringPretty order = some text) {contents : Bytes}
    (hcontents : contents <+: encode text) (hne : contents ≠ encode text) :
    ∃ error, readMap serde (some contents) = .error error := by
  cases hdecode : decode contents with
  | none => exact ⟨.io, by simp [readMap, hdecode]⟩
  | some cut =>
    have hcut : cut ≠ text := by
      rintro rfl
      exact hne (encode_of_decode hdecode).symm
    have hrejected := hserde.truncated order text cut htext
      (isPrefix_of_decode hdecode hcontents) hcut
    exact ⟨.json, by simp [readMap, hdecode, hrejected]⟩

/-- A call that is cut short leaves the file intact exactly when it has not truncated the file or has
written all of the new text. -/
theorem intact_iff {serde : SerdeJson V Value} (hserde : serde.ReadsBack) {file : File}
    {map : HashMap Str Value} (hread : readMap serde file = .ok map) {update : Update V}
    {actions : List FileAction} (hactions : Accesses serde file update actions)
    {cut : List FileAction} (hcut : cut <+: actions) :
    Intact serde map update (performAll file cut) ↔
      .truncate ∉ cut ∨ appended cut = appended actions := by
  cases hactions with
  | unreadable error herror => simp [hread] at herror
  | nothing other hother htarget =>
    rw [List.prefix_nil] at hcut
    exact iff_of_true (.inl (hcut ▸ hread)) (.inl (by simp [hcut]))
  | written other updated hother htarget write =>
    obtain rfl : map = other := Except.ok.inj (hread.symm.trans hother)
    rcases cut_cases write hcut with ⟨htruncate, hsame⟩ | ⟨text, written, htext, hwritten, rfl⟩
    · exact iff_of_true (.inl ((congrArg _ (hsame file)).trans hread)) (.inl htruncate)
    have hchunks := write.chunks_eq text htext
    have hle : written.flatten <+: encode text := by
      obtain ⟨rest, hrest⟩ := hwritten
      exact ⟨rest.flatten, by rw [← hchunks, ← hrest, List.flatten_append]⟩
    have hfile : performAll file (.createDirAll :: .truncate :: written.map .append) =
        some written.flatten := performAll_append_chunks [] written
    have happended : appended (.createDirAll :: .truncate :: written.map .append) =
        written.flatten := appended_chunks written
    have hall : appended write.actions = encode text := by
      rw [actions_of_printed htext, ← hchunks]
      exact appended_chunks write.chunks
    rw [hfile, happended, hall, or_iff_right (by simp)]
    constructor
    · intro hintact
      by_contra hne
      obtain ⟨error, herror⟩ := readMap_truncated hserde htext hle hne
      rcases hintact with hold | ⟨_, -, hnew⟩
      · simp [herror] at hold
      · simp [herror] at hnew
    · intro heq
      exact .inr ⟨updated, htarget, by
        rw [heq, readMap_encode hserde htext, write.order_eq]⟩

/-- A map with one entry, and the only order it can be printed in. -/
def singleton (key value : Str) : AList (fun _ : Str ↦ Str) :=
  AList.singleton key value

/-- The print of a map with one entry in one chunk. -/
def singletonWrite (key value : Str) : MapWrite SerdeJson.strings (singleton key value).toFinmap where
  order := singleton key value
  order_eq := rfl
  chunks := [encode (SerdeJson.printObject (singleton key value).entries)]
  chunks_eq text htext := by
    obtain rfl := Option.some_inj.mp htext
    simp

theorem accesses_overwrite :
    Accesses SerdeJson.strings
      (some (encode (SerdeJson.printObject (singleton ['k'] ['v']).entries)))
      (.set ['k'] ['w']) (singletonWrite ['k'] ['w']).actions :=
  .written (singleton ['k'] ['v']).toFinmap _ (readMap_encode SerdeJson.strings_readsBack rfl) (by
    rw [Update.target]
    exact congrArg some (by decide)) _

/-- An overwrite that is cut short before the truncation leaves the old map. -/
theorem intact_overwrite :
    Intact SerdeJson.strings (singleton ['k'] ['v']).toFinmap (.set ['k'] ['w'])
      (performAll (some (encode (SerdeJson.printObject (singleton ['k'] ['v']).entries)))
        [.createDirAll]) :=
  (intact_iff SerdeJson.strings_readsBack (readMap_encode SerdeJson.strings_readsBack rfl)
    accesses_overwrite (List.prefix_append _ _)).mpr (.inl (by decide))

/-- An overwrite that is cut short between the truncation and the first byte loses the map. -/
theorem exists_cut_not_intact :
    ∃ file map update actions cut, readMap SerdeJson.strings file = .ok map ∧
      Accesses SerdeJson.strings file update actions ∧ cut <+: actions ∧
      ¬ Intact SerdeJson.strings map update (performAll file cut) := by
  refine ⟨_, _, _, _, [.createDirAll, .truncate],
    readMap_encode SerdeJson.strings_readsBack rfl, accesses_overwrite,
    List.prefix_append _ _, ?_⟩
  have htext : SerdeJson.strings.toStringPretty (singleton ['k'] ['w']) =
      some (SerdeJson.printObject (singleton ['k'] ['w']).entries) := rfl
  obtain ⟨error, herror⟩ := readMap_truncated SerdeJson.strings_readsBack htext
    List.nil_prefix (by decide)
  have hempty : performAll (some (encode (SerdeJson.printObject (singleton ['k'] ['v']).entries)))
      [.createDirAll, .truncate] = some [] := rfl
  rw [hempty]
  rintro (hold | ⟨updated, -, hnew⟩)
  · simp [herror] at hold
  · simp [herror] at hnew

end SolidCommunity.SolidStorage.JsonFile
