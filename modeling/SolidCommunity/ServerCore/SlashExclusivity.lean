import SolidCommunity.ServerCore.Mutation

/-!
# Keys that Differ Only in the Closing Slash

A document and a container whose keys differ only in the closing slash are separate entries, and no
write looks for the other one.  The two come to coexist exactly when a write meets the other kind:
a document next to its container, or a container, written or needed on the way, next to its
document.
-/

namespace SolidCommunity.ServerCore.SlashExclusivity

open Foundations.FiniteMap Foundations.Runs Foundations.Text LdpHandlers LdpStore

/-- No document is stored together with the container of the same name. -/
def Exclusive (store : LdpStore) : Prop :=
  ∀ path, endsWith path '/' = false → ¬ (path ∈ store ∧ path ++ ['/'] ∈ store)

/-- A write of the key meets no entry of the other kind: not the container of the document it
stores, and not the document of a container that it stores or creates on the way. -/
structure MeetsNoTwin (store : LdpStore) (key : Str) : Prop where
  container : endsWith key '/' = false → key ++ ['/'] ∉ store
  document : ∀ path ∈ store, endsWith path '/' = false →
    path ++ ['/'] ≠ key ∧ path ++ ['/'] ∉ ancestorKeys key

/-- The key that the request's handler writes. -/
def writtenKey (handled : HandledRequest) : Option Str :=
  match handled.mutation with
  | some (.put path _ _) => some (LdpStore.key path)
  | _ => none

/-- The write of the request, if it makes one, meets no entry of the other kind. -/
def ConflictFree (store : LdpStore) (handled : HandledRequest) : Prop :=
  ∀ key ∈ writtenKey handled, MeetsNoTwin store key

theorem exclusive_new : Exclusive LdpStore.new := by
  rintro path hpath ⟨hstored, -⟩
  rw [LdpStore.new, Finmap.mem_insert] at hstored
  rcases hstored with rfl | hstored
  · simp [endsWith] at hpath
  · exact Finmap.notMem_empty hstored

/-- A deletion only takes keys away. -/
theorem Exclusive.delete {store : LdpStore} (h : Exclusive store) (path : Str) :
    Exclusive (LdpStore.delete store path).1 := by
  rintro other hother ⟨hdocument, hcontainer⟩
  exact h other hother ⟨(mem_delete.mp hdocument).2, (mem_delete.mp hcontainer).2⟩

/-- No key creates its own container on the way. -/
theorem append_slash_notMem_ancestorKeys {key : Str} (hkey : startsWith key '/' = true) :
    key ++ ['/'] ∉ ancestorKeys key := by
  intro h
  have hle := length_le_of_mem_ancestorKeys hkey h
  rw [List.length_append, List.length_singleton] at hle
  omega

theorem Exclusive.put {store : LdpStore} (h : Exclusive store) {path : Str}
    (hclear : MeetsNoTwin store (LdpStore.key path)) (body : Bytes) (contentType : Str) :
    Exclusive (LdpStore.put store path body contentType).1 := by
  rintro other hother ⟨hdocument, hcontainer⟩
  rcases mem_put.mp hdocument with rfl | hdocument | hdocument
  · rcases mem_put.mp hcontainer with heq | hcontainer | hcontainer
    · exact absurd heq (by simp)
    · exact hclear.container hother hcontainer
    · exact append_slash_notMem_ancestorKeys (startsWith_key path) hcontainer
  · have htwin := hclear.document other hdocument hother
    rcases mem_put.mp hcontainer with heq | hcontainer | hcontainer
    · exact htwin.1 heq
    · exact h other hother ⟨hdocument, hcontainer⟩
    · exact htwin.2 hcontainer
  · rw [endsWith_of_mem_ancestorKeys hdocument] at hother
    exact Bool.noConfusion hother

/-- A write that meets an entry of the other kind leaves both stored. -/
theorem meetsNoTwin_of_exclusive_put {store : LdpStore} {path : Str} {body : Bytes}
    {contentType : Str} (h : Exclusive (LdpStore.put store path body contentType).1) :
    MeetsNoTwin store (LdpStore.key path) where
  container := by
    intro hkey hcontainer
    exact h _ hkey ⟨mem_put.mpr (.inl rfl), mem_put.mpr (.inr (.inl hcontainer))⟩
  document := by
    intro other hstored hother
    have hdocument : other ∈ (LdpStore.put store path body contentType).1 :=
      mem_put.mpr (.inr (.inl hstored))
    constructor
    · exact fun heq ↦ h other hother ⟨hdocument, mem_put.mpr (.inl heq)⟩
    · exact fun hancestor ↦ h other hother ⟨hdocument, mem_put.mpr (.inr (.inr hancestor))⟩

/-- A single request keeps the kinds apart exactly when its write meets no entry of the other
kind. -/
theorem exclusive_store_iff {store : LdpStore} (h : Exclusive store) (handled : HandledRequest) :
    Exclusive (handled.store store) ↔ ConflictFree store handled := by
  unfold ConflictFree writtenKey
  rcases handled.store_cases store with ⟨hmutation, heq⟩ | ⟨mutation, hmutation, heq⟩
  · rw [heq, hmutation]
    simpa using h
  · rw [heq, hmutation]
    cases mutation with
    | put path body contentType =>
      constructor
      · intro hexclusive key hkey
        obtain rfl := Option.some_inj.mp hkey
        exact meetsNoTwin_of_exclusive_put hexclusive
      · exact fun hclear ↦ h.put (hclear _ rfl) body contentType
    | delete path => exact iff_of_true (h.delete path) (by simp)

/-- No document is stored together with the container of its name, throughout exactly the runs of
requests whose writes all meet no entry of the other kind. -/
theorem always_exclusive_iff (requests : List HandledRequest) :
    Always requestStep Exclusive LdpStore.new requests ↔
      EveryStep requestStep ConflictFree LdpStore.new requests := by
  refine always_iff_everyStep requestStep (fun store (h : Exclusive store) ↦ h) ?_ ?_ exclusive_new
    requests
  · intro store handled next hstore hclear hstep
    obtain rfl : handled.store store = next := Option.some_inj.mp hstep
    exact (exclusive_store_iff hstore handled).mpr hclear
  · intro store handled hstore hconflict
    exact ⟨_, rfl, fun hnext ↦ hconflict ((exclusive_store_iff hstore handled).mp hnext)⟩

/-- A document, and then a member of the container of the same name. -/
theorem not_always_exclusive :
    ¬ Always requestStep Exclusive LdpStore.new
      [⟨some "a".toList, ⟨"67e55044-10b1-426f-9247-bb680e5fe0c8".toList, rfl, by decide⟩,
          ⟨.put, "/a".toList, [], some [1]⟩⟩,
        ⟨some "a/b".toList, ⟨"67e55044-10b1-426f-9247-bb680e5fe0c8".toList, rfl, by decide⟩,
          ⟨.put, "/a/b".toList, [], some [2]⟩⟩] := by
  rintro ⟨-, hfirst⟩
  obtain ⟨-, hsecond⟩ := hfirst _ rfl
  exact hsecond _ rfl "/a".toList (by decide) (by decide)

end SolidCommunity.ServerCore.SlashExclusivity
