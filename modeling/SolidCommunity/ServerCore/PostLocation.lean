import SolidCommunity.ServerCore.Routing

/-!
# Following the Location of a Post

A post puts the decoded key of the new child into its `Location` header as it stands.  The HTTP
library, whose choice of texts is a parameter here, may refuse this text as a request target.  If it
does not, the target is cut at the first `?` or `#` and percent-decoded once more, so the client gets
back what it posted when the container's name survives both, and otherwise only if some other
resource happens to hold the same content.
-/

namespace SolidCommunity.ServerCore.PostLocation

open Foundations.FiniteMap Foundations.PercentDecoding Foundations.Text Http LdpHandlers Routing

/-! ## The round trip -/

/-- The path of a request target ends before its query or fragment. -/
def targetPath (target : Str) : Str := target.takeWhile fun c ↦ c != '?' && c != '#'

section Targets

variable (acceptsTarget : Str → Bool)

/-- The request that a get of the target becomes.  The HTTP library answers 400 by itself to a text
that it does not accept as a request target. -/
def targetRequest (target : Str) (headers : HeaderMap) (sent : Option Bytes) : Option Request :=
  if acceptsTarget target then some ⟨.get, targetPath target, headers, sent⟩ else none

/-- Every get of the target without an `Accept` header is answered by a handler, with 200, the body
and the content type. -/
def Serves (store : LdpStore) (target : Str) (body : Bytes) (contentType : Str) : Prop :=
  ∀ (slug : Slug) (headers : HeaderMap) (sent : Option Bytes),
    headers.get HeaderName.accept = none →
    ∃ request ∈ targetRequest acceptsTarget target headers sent,
      ∃ response, ldpRouter store slug request = some (store, response) ∧
        response.status = .ok ∧ response.body = body ∧
        (response.headers.get HeaderName.contentType).map (·.bytes) = some (encode contentType)

/-- The location that a post returned serves what was posted. -/
def RoundTrips (store : LdpStore) (path : Option Str) (slug : Slug) (request : Request)
    (body : Bytes) : Prop :=
  ∀ location target,
    (handlePost store path slug request).2.headers.get HeaderName.location = some location →
    decode location.bytes = some target →
    Serves acceptsTarget (handlePost store path slug request).1 target body
      (writtenContentType request)

end Targets

/-- The name of a container survives being cut and decoded again. -/
def Plain (container : Str) : Prop := '?' ∉ container ∧ '#' ∉ container ∧ NamesItself container

instance (container : Str) : Decidable (Plain container) :=
  inferInstanceAs (Decidable ('?' ∉ container ∧ '#' ∉ container ∧ NamesItself container))

/-- A get of the text below the container's name resolves to another key, which shows the content
all the same: it is stored there already, or it is that of an empty container and the key is a
missing container above the new child. -/
def Coincides (store : LdpStore) (container : Str) (slug : Slug) (body : Bytes)
    (contentType : Str) : Prop :=
  ∃ captured ∈ capture (targetPath (container ++ '/' :: slug.text)),
    (∃ entry ∈ store.lookup (accessedKey captured),
      entry.body = body ∧ entry.contentType = contentType) ∨
    (accessedKey captured ∉ store ∧
      accessedKey captured ∈ LdpStore.ancestorKeys (container ++ '/' :: slug.text) ∧
      emptyContainer.body = body ∧ emptyContainer.contentType = contentType)

/-! ## Gets -/

/-- What a get without an `Accept` header answers for a stored entry whose content type is a header
value. -/
theorem handleGet_of_lookup {store : LdpStore} {path : Option Str} {request : Request}
    {entry : Entry} {value : HeaderValue}
    (haccept : request.headers.get HeaderName.accept = none)
    (hentry : store.lookup (accessedKey path) = some entry)
    (hvalue : HeaderValue.fromStr entry.contentType = some value) :
    handleGet store path request =
      ⟨.ok, [(HeaderName.contentType, value),
        (HeaderName.link, if entry.isContainer then containerLink else resourceLink)],
        entry.body⟩ := by
  have hget : store.get (resolvePath path) = some entry := hentry
  simp only [handleGet, hget, Request.headerText, haccept, Option.bind_none, Option.filter_none,
    hvalue]
  rfl

/-- A get that answers 200 found an entry whose content type is a header value. -/
theorem lookup_of_handleGet_ok {store : LdpStore} {path : Option Str} {request : Request}
    (haccept : request.headers.get HeaderName.accept = none)
    (hok : (handleGet store path request).status = .ok) :
    ∃ entry value, store.lookup (accessedKey path) = some entry ∧
      HeaderValue.fromStr entry.contentType = some value := by
  cases hentry : store.get (resolvePath path) with
  | none => simp [handleGet, hentry, notFound, plainTextResponse] at hok
  | some entry =>
    cases hvalue : HeaderValue.fromStr entry.contentType with
    | none =>
      simp [handleGet, hentry, Request.headerText, haccept, hvalue, Builder.header,
        Builder.bodyOrError, StatusCode.intoResponse] at hok
    | some value => exact ⟨entry, value, hentry, hvalue⟩

theorem ldpRouter_get {store : LdpStore} {slug : Slug} {request : Request} {captured : Option Str}
    (hmethod : request.method = .get) (hcapture : capture request.path = some captured) :
    ldpRouter store slug request = some (store, handleGet store captured request) := by
  rw [ldpRouter, hcapture, Option.bind_some, handle, hmethod]

/-- A target serves a content exactly when it is accepted and resolves to an entry with that
content. -/
theorem serves_iff {acceptsTarget : Str → Bool} {store : LdpStore} {target : Str} {body : Bytes}
    {contentType : Str} (slug : Slug)
    (hcontentType : (HeaderValue.fromStr contentType).isSome = true) :
    Serves acceptsTarget store target body contentType ↔
      acceptsTarget target = true ∧
        ∃ captured ∈ capture (targetPath target),
          ∃ entry ∈ store.lookup (accessedKey captured),
            entry.body = body ∧ entry.contentType = contentType := by
  constructor
  · intro h
    obtain ⟨request, hrequest, response, hrouted, hok, hbody, htype⟩ := h slug [] none rfl
    obtain ⟨haccepts, hsent⟩ := Option.ite_none_right_eq_some.mp hrequest
    obtain rfl := Option.some_inj.mp hsent
    obtain ⟨captured, hcapture, -⟩ := Option.bind_eq_some_iff.mp hrouted
    rw [ldpRouter_get rfl hcapture] at hrouted
    obtain rfl : handleGet store captured _ = response :=
      (Prod.mk.inj (Option.some_inj.mp hrouted)).2
    obtain ⟨entry, value, hentry, hvalue⟩ := lookup_of_handleGet_ok rfl hok
    rw [handleGet_of_lookup rfl hentry hvalue] at hbody htype
    rw [HeaderMap.get_cons_self, Option.map_some, bytes_of_fromStr hvalue] at htype
    exact ⟨haccepts, captured, hcapture, entry, hentry, hbody,
      encode_injective (Option.some_inj.mp htype)⟩
  · rintro ⟨haccepts, captured, hcapture, entry, hentry, rfl, rfl⟩ otherSlug headers sent hheaders
    obtain ⟨value, hvalue⟩ := Option.isSome_iff_exists.mp hcontentType
    refine ⟨⟨.get, targetPath target, headers, sent⟩, if_pos haccepts, ?_⟩
    rw [ldpRouter_get rfl hcapture, handleGet_of_lookup hheaders hentry hvalue]
    refine ⟨_, rfl, rfl, rfl, ?_⟩
    rw [HeaderMap.get_cons_self, Option.map_some, bytes_of_fromStr hvalue]

/-! ## The child and its target -/

/-- A slug contains no separator, escape or delimiter of a request target. -/
theorem notMem_slug {c : Char} (hhex : hexValue c = none) (hdash : c ≠ '-') (slug : Slug) :
    c ∉ slug.text := by
  intro hc
  have hdigit := List.all_eq_true.mp slug.digits c hc
  simp [hhex, hdash] at hdigit

theorem hasEscape_slug (slug : Slug) : hasEscape slug.text = false :=
  hasEscape_eq_false_of_notMem (notMem_slug rfl (by decide) slug)

theorem startsWith_slug (slug : Slug) : startsWith slug.text '/' = false := by
  have hslash := notMem_slug (c := '/') rfl (by decide) slug
  cases htext : slug.text with
  | nil => rfl
  | cons first rest =>
    have hne : first ≠ '/' := by
      rintro rfl
      simp [htext] at hslash
    simp [hne]

/-- The child of a container names itself exactly when the container's name does. -/
theorem namesItself_childKey_iff {containerKey : Str} (hslash : startsWith containerKey '/' = true)
    (slug : Slug) :
    NamesItself (childKey containerKey slug) ↔ NamesItself (trimEndMatches containerKey '/') := by
  have hfront : trimEndMatches containerKey '/' <+: containerKey := List.rdropWhile_prefix _ _
  have hend := endsWith_trimEndMatches containerKey '/'
  rw [NamesItself, NamesItself, childKey, hasEscape_append_cons rfl (by decide), hasEscape_slug,
    Bool.or_false]
  refine and_congr_right fun _ ↦ ?_
  cases hname : trimEndMatches containerKey '/' with
  | nil => simp [startsWith_slug]
  | cons first tail =>
    cases tail with
    | nil =>
      -- A single character would be the leading slash, which trimming removes.
      rw [hname] at hfront hend
      obtain ⟨rest, rfl⟩ := hfront
      simp_all [endsWith]
    | cons second rest => simp

/-- A resolved path is at most as long as the path it was captured from. -/
theorem length_accessedKey_le {path : Str} {captured : Option Str}
    (h : capture path = some captured) :
    (encode (accessedKey captured)).length ≤ (encode path).length := by
  rw [accessedKey_eq]
  unfold capture at h
  split at h
  · obtain rfl := Option.some_inj.mp h
    exact le_rfl
  · next rest _ =>
    obtain ⟨decoded, hdecoded, rfl⟩ := Option.map_eq_some_iff.mp h
    have hle := length_percentDecode_le hdecoded
    have hslash (s : Str) : (encode ('/' :: s)).length = (encode s).length + 1 := by
      rw [encode_cons, List.length_append, Nat.add_comm]
      rfl
    rw [hslash]
    unfold resolvePath
    split
    · exact Nat.le_add_left 1 _
    · exact Nat.le_add_left 1 _
    · next other _ heq =>
      obtain rfl : decoded = other := Option.some_inj.mp heq
      split
      · omega
      · rw [hslash]
        omega
  · simp at h

/-- The child's target is cut nowhere exactly when the container's name has no delimiter. -/
theorem targetPath_childKey_eq_iff (containerKey : Str) (slug : Slug) :
    targetPath (childKey containerKey slug) = childKey containerKey slug ↔
      '?' ∉ trimEndMatches containerKey '/' ∧ '#' ∉ trimEndMatches containerKey '/' := by
  have hquery := notMem_slug (c := '?') rfl (by decide) slug
  have hfragment := notMem_slug (c := '#') rfl (by decide) slug
  have hmem (c : Char) (hslug : c ∉ slug.text) (hslash : c ≠ '/') :
      c ∈ childKey containerKey slug ↔ c ∈ trimEndMatches containerKey '/' := by
    simp [childKey, hslug, hslash]
  rw [← hmem '?' hquery (by decide), ← hmem '#' hfragment (by decide), targetPath,
    List.takeWhile_eq_self_iff]
  constructor
  · intro h
    exact ⟨fun hc ↦ by simpa using h '?' hc, fun hc ↦ by simpa using h '#' hc⟩
  · rintro ⟨hno, hno'⟩ c hc
    rw [Bool.and_eq_true, bne_iff_ne, bne_iff_ne]
    exact ⟨fun heq ↦ hno (heq ▸ hc), fun heq ↦ hno' (heq ▸ hc)⟩

theorem length_targetPath_lt {target : Str} (h : targetPath target ≠ target) :
    (encode (targetPath target)).length < (encode target).length := by
  obtain ⟨rest, hrest⟩ := List.takeWhile_prefix (l := target) fun c ↦ c != '?' && c != '#'
  change targetPath target ++ rest = target at hrest
  cases rest with
  | nil => exact absurd (by simpa using hrest) h
  | cons c rest =>
    have hpos := List.length_pos_iff.mpr (String.utf8EncodeChar_ne_nil (c := c))
    calc (encode (targetPath target)).length
        < (encode (targetPath target)).length + (encode (c :: rest)).length := by
          rw [encode_cons, List.length_append]
          omega
      _ = (encode (targetPath target ++ c :: rest)).length := by
          rw [encode_append, List.length_append]
      _ = (encode target).length := by rw [hrest]

/-- The target of a child resolves to the child exactly when the container's name is plain. -/
theorem accessedKey_targetPath_iff {containerKey : Str}
    (hslash : startsWith containerKey '/' = true) (slug : Slug) {captured : Option Str}
    (h : capture (targetPath (childKey containerKey slug)) = some captured) :
    accessedKey captured = childKey containerKey slug ↔
      Plain (trimEndMatches containerKey '/') := by
  rw [Plain, ← and_assoc, ← targetPath_childKey_eq_iff containerKey slug,
    ← namesItself_childKey_iff hslash slug]
  by_cases htarget : targetPath (childKey containerKey slug) = childKey containerKey slug
  · rw [htarget] at h
    rw [accessedKey_eq_path_iff h, and_iff_right htarget]
  · refine iff_of_false (fun hkey ↦ ?_) fun hplain ↦ htarget hplain.1
    have hle := length_accessedKey_le h
    have hlt := length_targetPath_lt htarget
    rw [hkey] at hle
    omega

theorem startsWith_childKey {containerKey : Str} (hslash : startsWith containerKey '/' = true)
    (slug : Slug) : startsWith (childKey containerKey slug) '/' = true := by
  have hfront : trimEndMatches containerKey '/' <+: containerKey := List.rdropWhile_prefix _ _
  rw [childKey]
  cases hname : trimEndMatches containerKey '/' with
  | nil => rfl
  | cons first rest =>
    rw [hname] at hfront
    obtain ⟨tail, rfl⟩ := hfront
    simpa using hslash

theorem exists_capture_of_plain {containerKey : Str} (hslash : startsWith containerKey '/' = true)
    (slug : Slug) (hplain : Plain (trimEndMatches containerKey '/')) :
    ∃ captured, capture (targetPath (childKey containerKey slug)) = some captured := by
  rw [(targetPath_childKey_eq_iff containerKey slug).mpr ⟨hplain.1, hplain.2.1⟩]
  exact exists_capture_of_namesItself (startsWith_childKey hslash slug)
    ((namesItself_childKey_iff hslash slug).mpr hplain.2.2)

/-! ## Posts -/

/-- The content type that a write stores is a header value. -/
theorem isSome_fromStr_writtenContentType (request : Request) :
    (HeaderValue.fromStr (writtenContentType request)).isSome = true := by
  unfold writtenContentType Request.headerText
  cases htext : (request.headers.get HeaderName.contentType).bind HeaderValue.toStr with
  | none => decide
  | some text =>
    obtain ⟨value, -, hvalue⟩ := Option.bind_eq_some_iff.mp htext
    rw [Option.getD_some, fromStr_of_toStr hvalue]
    rfl

/-- A successful post stores the child and answers with its key. -/
theorem handlePost_of_created {store : LdpStore} {path : Option Str} {slug : Slug}
    {request : Request} {body : Bytes} (hbody : request.body = some body)
    (hstatus : (handlePost store path slug request).2.status = .created) :
    ∃ location : HeaderValue, location.bytes = encode (childKey (resolvePath path) slug) ∧
      (handlePost store path slug request).2.headers = [(HeaderName.location, location)] ∧
      (handlePost store path slug request).1 =
        (store.put (childKey (resolvePath path) slug) body (writtenContentType request)).1 := by
  have hcontrol : (resolvePath path).any isControl = false := by
    by_contra h
    rw [status_handlePost hbody, if_pos (Bool.eq_true_of_not_eq_false h)] at hstatus
    exact absurd hstatus (by decide)
  obtain ⟨location, hlocation⟩ : ∃ location,
      HeaderValue.fromStr (childKey (resolvePath path) slug) = some location := by
    rw [← Option.isSome_iff_exists, isSome_fromStr, any_isControl_childKey, hcontrol]
    rfl
  refine ⟨location, bytes_of_fromStr hlocation, ?_, ?_⟩
  · simp only [handlePost, hbody, hlocation]
    rfl
  · simp only [handlePost, hbody]

/-- After a successful post, only the child's own target matters. -/
theorem roundTrips_iff_serves {acceptsTarget : Str → Bool} {store : LdpStore} {path : Option Str}
    {slug : Slug} {request : Request} {body : Bytes} (hbody : request.body = some body)
    (hstatus : (handlePost store path slug request).2.status = .created) :
    RoundTrips acceptsTarget store path slug request body ↔
      Serves acceptsTarget
        (store.put (childKey (resolvePath path) slug) body (writtenContentType request)).1
        (childKey (resolvePath path) slug) body (writtenContentType request) := by
  obtain ⟨location, hbytes, hheaders, hafter⟩ := handlePost_of_created hbody hstatus
  have hdecode : decode location.bytes = some (childKey (resolvePath path) slug) := by
    rw [hbytes, decode_encode]
  unfold RoundTrips
  rw [hheaders, hafter]
  constructor
  · intro h
    exact h location _ (HeaderMap.get_cons_self _ _ _) hdecode
  · intro h other target hother htarget
    rw [HeaderMap.get_cons_self] at hother
    obtain rfl := Option.some_inj.mp hother
    obtain rfl : childKey (resolvePath path) slug = target :=
      Option.some_inj.mp (hdecode.symm.trans htarget)
    exact h

/-- What a key other than the child's holds after the child was put, from the store before. -/
theorem lookup_put_child_iff {store : LdpStore} {child other : Str} {body : Bytes}
    {contentType : Str} (hchild : startsWith child '/' = true) (hne : other ≠ child) :
    (∃ entry ∈ (store.put child body contentType).1.lookup other,
        entry.body = body ∧ entry.contentType = contentType) ↔
      (∃ entry ∈ store.lookup other, entry.body = body ∧ entry.contentType = contentType) ∨
        (other ∉ store ∧ other ∈ LdpStore.ancestorKeys child ∧
          emptyContainer.body = body ∧ emptyContainer.contentType = contentType) := by
  have hkey : LdpStore.key child = child := if_pos hchild
  rw [LdpStore.lookup_put, hkey, if_neg hne, LdpStore.lookup_ensureAncestors]
  cases hentry : store.lookup other with
  | some entry =>
    have hstored : other ∈ store := Finmap.lookup_isSome.mp (hentry ▸ rfl)
    simp [hstored]
  | none =>
    have habsent : other ∉ store := Finmap.lookup_eq_none.mp hentry
    simp [habsent]

/-- A post that answers 201 can be followed through its location exactly when the HTTP library
accepts the location as a target, and the container's name is plain or another resource happens to
hold the same content. -/
theorem roundTrips_iff (acceptsTarget : Str → Bool) {store : LdpStore} {path : Option Str}
    {slug : Slug} {request : Request} {body : Bytes} (hbody : request.body = some body)
    (hstatus : (handlePost store path slug request).2.status = .created) :
    let container := trimEndMatches (resolvePath path) '/'
    RoundTrips acceptsTarget store path slug request body ↔
      acceptsTarget (container ++ '/' :: slug.text) = true ∧
        (Plain container ∨ Coincides store container slug body (writtenContentType request)) := by
  intro container
  have hslash := startsWith_resolvePath path
  have hchild : startsWith (childKey (resolvePath path) slug) '/' = true :=
    startsWith_childKey hslash slug
  rw [roundTrips_iff_serves hbody hstatus,
    serves_iff slug (isSome_fromStr_writtenContentType request)]
  refine and_congr_right fun _ ↦ ?_
  by_cases hplain : Plain container
  · refine iff_of_true ?_ (.inl hplain)
    obtain ⟨captured, hcapture⟩ := exists_capture_of_plain hslash slug hplain
    refine ⟨captured, hcapture, ⟨body, writtenContentType request,
      endsWith (childKey (resolvePath path) slug) '/'⟩, ?_, rfl, rfl⟩
    have hkey : LdpStore.key (childKey (resolvePath path) slug) =
        childKey (resolvePath path) slug := if_pos hchild
    rw [(accessedKey_targetPath_iff hslash slug hcapture).mpr hplain, LdpStore.lookup_put, hkey,
      if_pos rfl]
    rfl
  · rw [or_iff_right hplain]
    refine exists_congr fun captured ↦ and_congr_right fun hcapture ↦ ?_
    have hne : accessedKey captured ≠ childKey (resolvePath path) slug := fun heq ↦
      hplain ((accessedKey_targetPath_iff hslash slug hcapture).mp heq)
    exact lookup_put_child_iff hchild hne

/-- Letters, digits, dashes and slashes, which every request target may contain. -/
def isPlainTarget (target : Str) : Bool :=
  target.all fun c ↦ c.isAlphanum || c == '-' || c == '/'

/-- A document posted to an ordinary container is found through its location. -/
theorem roundTrips_ordinary :
    RoundTrips isPlainTarget LdpStore.new (some "docs/".toList)
      ⟨"67e55044-10b1-426f-9247-bb680e5fe0c8".toList, rfl, by decide⟩
      ⟨.post, "/docs/".toList, [], some [104, 105]⟩ [104, 105] :=
  (roundTrips_iff isPlainTarget rfl (by decide)).mpr ⟨by decide, .inl (by decide)⟩

/-- A container whose name contains a question mark hides the children posted to it, whatever targets
are accepted. -/
theorem exists_post_not_roundTrips :
    ∃ store path slug request body, request.body = some body ∧
      (handlePost store path slug request).2.status = .created ∧
      ∀ acceptsTarget, ¬ RoundTrips acceptsTarget store path slug request body := by
  let slug : Slug := ⟨"67e55044-10b1-426f-9247-bb680e5fe0c8".toList, rfl, by decide⟩
  let request : Request := ⟨.post, "/a%3Fb/".toList, [], some [104, 105]⟩
  refine ⟨LdpStore.new, some "a?b/".toList, slug, request, [104, 105], rfl, by decide,
    fun acceptsTarget h ↦ ?_⟩
  obtain ⟨-, captured, hcapture, entry, hentry, -⟩ :=
    (serves_iff slug (by decide)).mp ((roundTrips_iff_serves rfl (by decide)).mp h)
  have hkey : accessedKey captured = "/a".toList :=
    (accessedKey_eq_path_iff hcapture).mpr (by decide)
  have hmissing : (LdpStore.new.put (childKey "/a?b/".toList slug) [104, 105]
      (writtenContentType request)).1.lookup "/a".toList = none := by decide
  rw [hkey] at hentry
  exact absurd (hmissing.symm.trans hentry) (Option.some_ne_none entry).symm

end SolidCommunity.ServerCore.PostLocation
