import SolidCommunity.Foundations.Text

/-!
# HTTP Messages

The part of the `http` crate that the handlers rely on.  A header value is any byte string without
control bytes, so text that a client controls may or may not be one; a response builder that is
given an invalid value produces no response.
-/

namespace SolidCommunity.ServerCore.Http

open Foundations.Text

/-- Header names compare by their lower-case spelling. -/
abbrev HeaderName := Str

namespace HeaderName

def accept : HeaderName := "accept".toList
def allow : HeaderName := "allow".toList
def authorization : HeaderName := "authorization".toList
def contentType : HeaderName := "content-type".toList
def link : HeaderName := "link".toList
def location : HeaderName := "location".toList
def origin : HeaderName := "origin".toList
def wwwAuthenticate : HeaderName := "www-authenticate".toList
def accessControlAllowHeaders : HeaderName := "access-control-allow-headers".toList
def accessControlAllowOrigin : HeaderName := "access-control-allow-origin".toList
def accessControlExposeHeaders : HeaderName := "access-control-expose-headers".toList

end HeaderName

/-! ## Header values -/

/-- The bytes that a header value may contain: everything but the control bytes, and the tab. -/
def isHeaderByte (byte : UInt8) : Bool := 32 ≤ byte && byte != 127 || byte == 9

/-- The bytes that `HeaderValue::to_str` accepts. -/
def isVisibleAscii (byte : UInt8) : Bool := 32 ≤ byte && byte < 127 || byte == 9

/-- A header value, which is valid by construction. -/
structure HeaderValue where
  bytes : Bytes
  valid : bytes.all isHeaderByte = true
deriving DecidableEq

namespace HeaderValue

/-- The conversion of a string, which fails on control bytes. -/
def fromStr (s : Str) : Option HeaderValue :=
  if h : (encode s).all isHeaderByte = true then some ⟨encode s, h⟩ else none

/-- `HeaderValue::to_str`: the text of a value without opaque bytes. -/
def toStr (value : HeaderValue) : Option Str :=
  if value.bytes.all isVisibleAscii then some (value.bytes.map fun byte ↦ Char.ofNat byte.toNat)
  else none

end HeaderValue

abbrev HeaderMap := List (HeaderName × HeaderValue)

/-- The first value under a name. -/
def HeaderMap.get (headers : HeaderMap) (name : HeaderName) : Option HeaderValue :=
  (headers.find? (·.1 == name)).map (·.2)

/-- `HeaderMap::insert`, which replaces every value under the name. -/
def HeaderMap.insert (headers : HeaderMap) (name : HeaderName) (value : HeaderValue) : HeaderMap :=
  headers.filter (·.1 != name) ++ [(name, value)]

@[simp]
theorem HeaderMap.get_cons_self (name : HeaderName) (value : HeaderValue) (headers : HeaderMap) :
    HeaderMap.get ((name, value) :: headers) name = some value := by
  simp [HeaderMap.get]

/-! ## Requests and responses -/

/-- The request methods; those without a handler are not told apart. -/
inductive Method where
  | get
  | head
  | put
  | post
  | delete
  | options
  | patch
  | other
deriving DecidableEq, Repr

/-- A request.  The path is undecoded, and the body is absent when reading it fails. -/
structure Request where
  method : Method
  path : Str
  headers : HeaderMap
  body : Option Bytes

/-- The text of a request header, when the header is present and readable. -/
def Request.headerText (request : Request) (name : HeaderName) : Option Str :=
  (request.headers.get name).bind HeaderValue.toStr

abbrev StatusCode := ℕ

namespace StatusCode

@[simp] abbrev ok : StatusCode := 200
@[simp] abbrev created : StatusCode := 201
@[simp] abbrev noContent : StatusCode := 204
@[simp] abbrev badRequest : StatusCode := 400
@[simp] abbrev unauthorized : StatusCode := 401
@[simp] abbrev notFound : StatusCode := 404
@[simp] abbrev notAcceptable : StatusCode := 406
@[simp] abbrev unsupportedMediaType : StatusCode := 415
@[simp] abbrev internalServerError : StatusCode := 500

end StatusCode

structure Response where
  status : StatusCode
  headers : HeaderMap
  body : Bytes
deriving DecidableEq

/-- `StatusCode::into_response`. -/
def StatusCode.intoResponse (status : StatusCode) : Response := ⟨status, [], []⟩

/-- The content type of the plain-text error responses. -/
def plainText : HeaderValue := ⟨encode "text/plain; charset=utf-8".toList, by decide⟩

/-- An error response with a plain-text body. -/
def plainTextResponse (status : StatusCode) (message : Str) : Response where
  status := status
  headers := [(HeaderName.contentType, plainText)]
  body := encode message

/-- `http::response::Builder`, absent once a header value was invalid. -/
abbrev Builder := Option Response

namespace Builder

/-- `Response::builder().status(..)`. -/
def new (status : StatusCode) : Builder := some status.intoResponse

def header (builder : Builder) (name : HeaderName) (value : Option HeaderValue) : Builder :=
  builder.bind fun response ↦ value.map fun valid ↦
    { response with headers := response.headers ++ [(name, valid)] }

/-- `Builder::body`, with the fallback of every handler for a failed build. -/
def bodyOrError (builder : Builder) (body : Bytes) : Response :=
  (builder.map fun response ↦ { response with body := body }).getD
    StatusCode.internalServerError.intoResponse

end Builder

/-! ## Which texts are header values -/

/-- The control characters that no header value contains. -/
def isControl (c : Char) : Bool := c.toNat < 32 && c != '\t' || c.toNat == 127

theorem all_isHeaderByte_utf8EncodeChar (c : Char) :
    (String.utf8EncodeChar c).all isHeaderByte = !isControl c := by
  by_cases hascii : c.toNat < 128
  · have hcode (code : ℕ) (hcode : code < 128) : isHeaderByte (UInt8.ofNat code) =
        !(decide (code < 32) && code != 9 || code == 127) := by
      revert code
      decide
    have htab : (c != '\t') = (c.toNat != 9) := by
      rw [Bool.eq_iff_iff, bne_iff_ne, bne_iff_ne, not_iff_not]
      exact ⟨fun h ↦ h ▸ rfl, fun h ↦ Char.ext (UInt32.toNat_inj.mp h)⟩
    rw [utf8EncodeChar_of_lt hascii, List.all_cons, List.all_nil, Bool.and_true,
      hcode c.toNat hascii, isControl, htab]
  · have hcontrol : isControl c = false := by
      simp [isControl]
      omega
    rw [hcontrol, Bool.not_false, List.all_eq_true]
    intro byte hbyte
    have hle := le_of_mem_utf8EncodeChar (Nat.not_lt.mp hascii) hbyte
    have hne : byte ≠ 127 := by
      rintro rfl
      exact absurd hle (by decide)
    have hspace : (32 : UInt8) ≤ byte := UInt8.le_iff_toNat_le.mpr (le_trans (by decide) hle)
    simp [isHeaderByte, hspace, hne]

/-- A text is a header value exactly when it contains no control character. -/
theorem all_isHeaderByte_encode (s : Str) : (encode s).all isHeaderByte = !s.any isControl := by
  induction s with
  | nil => rfl
  | cons c s ih =>
    rw [encode_cons, List.all_append, all_isHeaderByte_utf8EncodeChar, ih, List.any_cons,
      Bool.not_or]

theorem isSome_fromStr (s : Str) : (HeaderValue.fromStr s).isSome = !s.any isControl := by
  rw [← all_isHeaderByte_encode, HeaderValue.fromStr]
  split <;> simp_all

theorem bytes_of_fromStr {s : Str} {value : HeaderValue}
    (h : HeaderValue.fromStr s = some value) : value.bytes = encode s := by
  unfold HeaderValue.fromStr at h
  split at h
  · obtain rfl := Option.some_inj.mp h
    rfl
  · simp at h

/-- A readable header value can be written back unchanged. -/
theorem fromStr_of_toStr {value : HeaderValue} {s : Str} (h : value.toStr = some s) :
    HeaderValue.fromStr s = some value := by
  unfold HeaderValue.toStr at h
  split at h
  · next hvisible =>
    obtain rfl := Option.some_inj.mp h
    have hascii : ∀ byte ∈ value.bytes, byte.toNat < 128 := by
      intro byte hbyte
      have hbyte := List.all_eq_true.mp hvisible byte hbyte
      simp only [isVisibleAscii, Bool.or_eq_true, Bool.and_eq_true, decide_eq_true_eq,
        beq_iff_eq] at hbyte
      rcases hbyte with ⟨-, hlt⟩ | rfl
      · exact lt_trans (UInt8.lt_iff_toNat_lt.mp hlt) (by decide)
      · decide
    have hbytes := encode_map_ofNat hascii
    rw [HeaderValue.fromStr, dif_pos (by rw [hbytes]; exact value.valid)]
    congr
  · simp at h

end SolidCommunity.ServerCore.Http
