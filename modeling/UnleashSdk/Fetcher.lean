/-
  THE TOGGLE FETCHER: one conditional request, and what becomes of its reply.

  `fetch` is a request (`prepare`: the context goes into the URL or, by POST, into the body) and
  the treatment of its reply (`handle`).  A reply is ACCEPTED if it is an HTTP response with a
  status of the 200s whose body decodes; everything `handle` does is said by one equation and one
  frame lemma in terms of that:

  * `handle_accepted` — an accepted reply yields its toggles, if it has any, and its ETag, if it
    has one, is cached whether or not it has toggles;
  * `handle_rejected` — any other reply leaves the fetcher as it was and yields no toggles.
-/
import UnleashSdk.Config
import UnleashSdk.ToggleCodec
import UnleashSdk.Transport

set_option linter.unusedVariables false

namespace Unleash

/-! ## The request -/

structure HttpRequest where
  url : Bytes
  usePOSTrequests : Bool := false
  headers : KeyMap Bytes Bytes := ∅
  body : Bytes := []
  timeoutMs : Int64 := 0

/-- `UNLEASH_SDK_VERSION`, which the build defines as the version of the project. -/
def unleashSdkVersion : Bytes := bytes "0.1.0"

/-- `utils::sdkVersion` and `utils::agentVersion`. -/
def sdkVersion : Bytes := bytes "unleash-cpp-sdk:" ++ unleashSdkVersion
def agentVersion : Bytes := bytes "unleash-cpp-sdk/" ++ unleashSdkVersion

def toLowerByte (b : UInt8) : UInt8 := if 0x41 ≤ b && b ≤ 0x5A then b + 0x20 else b

def keysToLowerCase (key : Bytes) : Bytes := key.map toLowerByte

/-- Add the custom headers, which override what is there; empty names are skipped. -/
def addCustomHeaders (headers custom : KeyMap Bytes Bytes) : KeyMap Bytes Bytes :=
  custom.entries.foldl
    (fun h e => if e.1.isEmpty then h else h.insert (keysToLowerCase e.1) e.2) headers

/-- The request of a fetcher for this configuration. -/
def makeFrontendRequest (config : ClientConfig) (etag : Bytes) : HttpRequest :=
  let headers : KeyMap Bytes Bytes := ∅
  let headers := headers.insert (bytes "accept") (bytes "application/json")
  let headers := headers.insert (bytes "'unleash-connection-id'") config.connectionId
  let headers := headers.insert (keysToLowerCase config.headerName) config.clientKey
  let headers := headers.insert (bytes "unleash-sdk") sdkVersion
  let headers := headers.insert (bytes "user-agent") agentVersion
  let headers := headers.insert (bytes "unleash-appname") config.appName
  let headers := if config.usePostRequests then
    headers.insert (bytes "content-type") (bytes "application/json") else headers
  let headers := if etag.isEmpty then headers else headers.insert (bytes "if-none-match") etag
  { url := config.url, usePOSTrequests := config.usePostRequests,
    headers := addCustomHeaders headers config.customHeaders,
    timeoutMs := config.timeOutQueryMS }

/-! ## The context in the URL -/

def upperHex (n : UInt8) : UInt8 := if n < 10 then 0x30 + n else 0x37 + n

def isUnreserved (c : UInt8) : Bool :=
  (0x61 ≤ c && c ≤ 0x7A) || (0x41 ≤ c && c ≤ 0x5A) || (0x30 ≤ c && c ≤ 0x39) || c == 0x2D ||
    c == 0x5F || c == 0x2E || c == 0x7E

/-- Percent-encode whatever is not unreserved. -/
def urlEncodeContext (value : Bytes) : Bytes :=
  value.flatMap fun c =>
    if isUnreserved c then [c] else [0x25, upperHex (c >>> 4), upperHex (c &&& 0x0F)]

/-- Append a field to the query; empty values are skipped. -/
def addQuery (query key value : Bytes) : Bytes :=
  if value.isEmpty then query
  else
    query ++ [if query.isEmpty then 0x3F else 0x26] ++ urlEncodeContext key ++ [0x3D] ++
      urlEncodeContext value

def addOptionalQuery (query key : Bytes) (value : Option Bytes) : Bytes :=
  match value with
  | none => query
  | some v => addQuery query key v

def buildContextQuery (ctx : Context) : Bytes :=
  let m := ctx.mutableContext
  let query := addQuery [] (bytes "appName") ctx.appName
  let query := addQuery query (bytes "sessionId") ctx.sessionId
  let query := addOptionalQuery query (bytes "environment") ctx.environment
  let query := addOptionalQuery query (bytes "userId") m.userId
  let query := addOptionalQuery query (bytes "remoteAddress") m.remoteAddress
  let query := addOptionalQuery query (bytes "currentTime") m.currentTime
  m.properties.foldl
    (fun query p =>
      if p.1.isEmpty || p.2.isEmpty then query
      else addQuery query (bytes "properties[" ++ p.1 ++ bytes "]") p.2) query

/-! ## The fetcher -/

structure ToggleFetcher where
  httpRequest : HttpRequest
  baseUrl : Bytes
  etag : Bytes := []

structure FetchResult where
  status : Int32 := -1
  toggles : Option ToggleSet := none
  error : Option Bytes := none

namespace ToggleFetcher

def make (config : ClientConfig) : ToggleFetcher where
  httpRequest := makeFrontendRequest config []
  baseUrl := config.url

/-- Write the context into the request; `none` is the exception of the printer. -/
def prepare (J : JsonLib) (f : ToggleFetcher) (ctx : Context) : Option ToggleFetcher :=
  if f.httpRequest.usePOSTrequests then
    match encodeContextRequestBody J ctx with
    | none => none
    | some body => some { f with httpRequest := { f.httpRequest with body := body } }
  else
    some { f with
      httpRequest := { f.httpRequest with body := [], url := f.baseUrl ++ buildContextQuery ctx } }

/-- Remember an ETag for the next request. -/
def cacheEtag (f : ToggleFetcher) (etag : Bytes) : ToggleFetcher :=
  { f with
    etag := etag
    httpRequest :=
      { f.httpRequest with headers := f.httpRequest.headers.insert (bytes "if-none-match") etag } }

/-- What `fetch` does with the reply. -/
def handle (J : JsonLib) (f : ToggleFetcher) (resp : HttpReply) : FetchResult × ToggleFetcher :=
  match checkReply resp with
  | .error (status, error) => ({ status := status, error := some error }, f)
  | .ok httpResponse =>
    let status := httpResponse.status.toInt32
    if httpResponse.status = httpStatusNoUpdate then ({ status := status }, f)
    else if isOkStatus httpResponse.status then
      match decodeClientFeaturesResponse J httpResponse.body with
      | .error e =>
        ({ status := status, error := some (bytes "Failed to decode toggles JSON: " ++ e) }, f)
      | .ok toggleSet =>
        let result : FetchResult :=
          { status := status, toggles := if toggleSet.size ≠ 0 then some toggleSet else none }
        match httpResponse.headers.lookup (bytes "etag") with
        | none => (result, f)
        | some etag => if etag.isEmpty then (result, f) else (result, f.cacheEtag etag)
    else ({ status := status, error := some (bytes "Error: " ++ httpResponse.errorMessage) }, f)

/-- One fetch, the reply to its request being `resp`. -/
def fetch (J : JsonLib) (f : ToggleFetcher) (ctx : Context) (resp : HttpReply) :
    Option (FetchResult × ToggleFetcher) :=
  match f.prepare J ctx with
  | none => none
  | some f => some (f.handle J resp)

end ToggleFetcher

/-! ## Accepted replies -/

/-- A response with a status of the 200s whose body decodes, and what it decodes to. -/
def accepted (J : JsonLib) (resp : HttpReply) : Option (HttpResponse × ToggleSet) :=
  match resp with
  | .http r =>
    if isOkStatus r.status then
      match decodeClientFeaturesResponse J r.body with
      | .ok s => some (r, s)
      | .error _ => none
    else none
  | _ => none

/-- The ETag of a response, if it has one that is not empty. -/
def HttpResponse.etag (r : HttpResponse) : Option Bytes :=
  (r.headers.lookup (bytes "etag")).filter fun e => !e.isEmpty

theorem accepted_some {J : JsonLib} {resp : HttpReply} {r : HttpResponse} {s : ToggleSet}
    (h : accepted J resp = some (r, s)) : resp = .http r ∧ isOkStatus r.status = true ∧
      decodeClientFeaturesResponse J r.body = .ok s := by
  unfold accepted at h
  split at h
  · split at h
    · rename_i hok
      split at h
      · rename_i hdecode
        cases h
        exact ⟨rfl, hok, hdecode⟩
      · nomatch h
    · nomatch h
  · nomatch h

/-- A status of the 200s keeps its class when it is narrowed to an `int`, and is not 304. -/
theorem isOkStatus_narrow {status : Int64} (h : isOkStatus status = true) :
    status ≠ 0 ∧ status ≠ httpStatusNoUpdate ∧ status.toInt32 ≠ 304 ∧
      (200 ≤ status.toInt32 ∧ status.toInt32 < 300) := by
  obtain ⟨hlo, hhi⟩ := Bool.and_eq_true_iff.mp h
  have hlo : 200 ≤ status.toInt := Int64.le_iff_toInt_le.mp (of_decide_eq_true hlo)
  have hhi : status.toInt < 300 := Int64.lt_iff_toInt_lt.mp (of_decide_eq_true hhi)
  have hnarrow : status.toInt32.toInt = status.toInt := by
    rw [Int64.toInt_toInt32]
    exact Int.bmod_eq_of_le (by omega) (by omega)
  have hlo' : (200 : Int32) ≤ status.toInt32 := by
    rw [Int32.le_iff_toInt_le, hnarrow]; exact hlo
  have hhi' : status.toInt32 < (300 : Int32) := by
    rw [Int32.lt_iff_toInt_lt, hnarrow]; exact hhi
  refine ⟨?_, ?_, ?_, hlo', hhi'⟩
  · rintro rfl; exact absurd hlo (by decide)
  · rintro rfl; exact absurd hhi (by decide)
  · intro he; rw [he] at hhi'; exact absurd hhi' (by decide)

namespace ToggleFetcher

variable {J : JsonLib} {f : ToggleFetcher} {resp : HttpReply}

/-- Cache an ETag if there is one. -/
def cacheIfAny (f : ToggleFetcher) : Option Bytes → ToggleFetcher
  | none => f
  | some etag => f.cacheEtag etag

theorem handle_accepted {r : HttpResponse} {s : ToggleSet}
    (h : accepted J resp = some (r, s)) :
    f.handle J resp =
      ({ status := r.status.toInt32, toggles := if s.size ≠ 0 then some s else none },
        f.cacheIfAny r.etag) := by
  obtain ⟨rfl, hok, hdecode⟩ := accepted_some h
  obtain ⟨hzero, hno, -⟩ := isOkStatus_narrow hok
  have hcheck : checkReply (.http r) = .ok r := if_neg hzero
  unfold handle
  rw [hcheck]
  simp only [if_neg hno, hok, if_true, hdecode]
  cases hetag : r.headers.lookup (bytes "etag") with
  | none => simp [HttpResponse.etag, hetag, cacheIfAny]
  | some e =>
    cases he : e.isEmpty with
    | true => simp [HttpResponse.etag, hetag, he, cacheIfAny, Option.filter_some]
    | false => simp [HttpResponse.etag, hetag, he, cacheIfAny, Option.filter_some]

/-- Any other reply yields no toggles and leaves the fetcher alone; it is an error or "not
    modified". -/
theorem handle_rejected (h : accepted J resp = none) :
    (f.handle J resp).2 = f ∧ (f.handle J resp).1.toggles = none ∧
      ((f.handle J resp).1.error ≠ none ∨ (f.handle J resp).1.status = 304) := by
  unfold handle
  split
  · exact ⟨rfl, rfl, Or.inl nofun⟩
  · rename_i r hcheck
    obtain ⟨rfl, -⟩ := checkReply_ok hcheck
    simp only
    split
    · rename_i hstatus
      exact ⟨rfl, rfl, Or.inr (by simp only [hstatus]; decide)⟩
    · split
      · rename_i hok
        split
        · exact ⟨rfl, rfl, Or.inl nofun⟩
        · rename_i s hdecode
          simp [accepted, hok, hdecode] at h
      · exact ⟨rfl, rfl, Or.inl nofun⟩

/-- Preparing a request changes neither the ETag nor the headers. -/
theorem prepare_frame {f' : ToggleFetcher} {ctx : Context} (h : f.prepare J ctx = some f') :
    f'.etag = f.etag ∧ f'.httpRequest.headers = f.httpRequest.headers ∧
      f'.httpRequest.usePOSTrequests = f.httpRequest.usePOSTrequests := by
  unfold prepare at h
  split at h
  · split at h <;> cases h
    exact ⟨rfl, rfl, rfl⟩
  · cases h
    exact ⟨rfl, rfl, rfl⟩

/-- **When a fetch throws.**  Only a POST whose context is not UTF-8 does. -/
theorem prepare_isSome (J : JsonLib) (f : ToggleFetcher) (ctx : Context) :
    (f.prepare J ctx).isSome = (!f.httpRequest.usePOSTrequests || ctx.utf8) := by
  unfold prepare
  have henc := encodeContext_isSome J ctx
  cases hpost : f.httpRequest.usePOSTrequests with
  | false => rfl
  | true =>
    rw [if_pos rfl]
    cases hb : encodeContextRequestBody J ctx with
    | none => rw [hb] at henc; simp [← henc]
    | some body => rw [hb] at henc; simp [← henc]

/-- The toggles that a fetch yields are those of an accepted reply. -/
theorem fetch_accepted {f' : ToggleFetcher} {ctx : Context} {result : FetchResult}
    {toggles : ToggleSet} (h : f.fetch J ctx resp = some (result, f'))
    (htoggles : result.toggles = some toggles) :
    ∃ r, accepted J resp = some (r, toggles) ∧ toggles.size ≠ 0 := by
  unfold fetch at h
  split at h
  · cases h
  · rename_i g hg
    have hresult : (g.handle J resp).1 = result := congrArg Prod.fst (Option.some.inj h)
    cases hacc : accepted J resp with
    | none =>
      have hnone := (g.handle_rejected hacc).2.1
      rw [hresult, htoggles] at hnone
      cases hnone
    | some p =>
      obtain ⟨r, s⟩ := p
      rw [g.handle_accepted hacc] at hresult
      rw [← hresult] at htoggles
      simp only at htoggles
      split at htoggles <;> cases htoggles
      exact ⟨r, rfl, by assumption⟩

end ToggleFetcher

end Unleash
