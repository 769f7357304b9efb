/-
  THE HTTP CLIENT, over a library that does the transfer.

  `requestHttp` sets the options of an easy handle and performs the transfer.  The library calls
  back with the lines of the headers, the chunks of the body and, if there is a token to cancel
  with, between them; in the end it has a code, and a response code if all went well:

      header, write, header, …, write, xferInfo, …    code, responseCode

  What the library does for given options is a parameter (`Curl`).

  * `reply_of_bytes`    — of the callbacks only the header lines in their order and the bytes of the
                          body in theirs matter, up to the moment of a cancellation;
  * `outage_invisible`  — over any number of fetches, the transfers that fail, whatever was
                          delivered before, can be left out: the flags, the storage, the readiness
                          and every request to come are the same without them.
-/
import UnleashSdk.FlagUpdates
import UnleashSdk.Lib.Simulation
import UnleashSdk.ResponseHeaders

set_option linter.unusedVariables false

namespace Unleash

/-- A request of one of the classes: `HttpRequest`, or another one. -/
inductive ComRequest where
  | http (request : HttpRequest)
  | other

/-! ## The library -/

abbrev CURLcode := Nat

def CURLE_OK : CURLcode := 0
def CURLE_ABORTED_BY_CALLBACK : CURLcode := 42

/-- The options of an easy handle that `requestHttp` sets. -/
structure EasyOptions where
  url : Bytes
  followLocation : Bool
  postFields : Option Bytes
  timeoutMs : Option Int64
  httpHeader : List Bytes
  xferInfo : Bool

/-- A call back; `xferInfo` finds this value in the token. -/
inductive Callback where
  | header (buffer : Bytes)
  | write (chunk : Bytes)
  | xferInfo (cancelled : Bool)

/-- What the library does: whether there is a handle, the callbacks of a transfer that none of
    them aborts, and how it ends. -/
structure Curl where
  easyInit : Bool
  callbacks : EasyOptions → List Callback
  code : EasyOptions → CURLcode
  responseCode : EasyOptions → Option Int64
  strerror : CURLcode → Bytes

namespace HttpClient

/-! ## A request -/

/-- A string as C reads it, up to the first NUL. -/
def cStr (s : Bytes) : Bytes := s.takeWhile (· ≠ 0)

/-- The lines of a map of headers, in the order of their keys. -/
def headerList (headers : KeyMap Bytes Bytes) : List Bytes :=
  (Json.assignAll (headers.entries.map fun e => (e.1, e.2))).map fun p =>
    cStr (p.1 ++ bytes ": " ++ p.2)

def setOptions (req : HttpRequest) (cancel : Bool) : EasyOptions where
  url := cStr req.url
  followLocation := true
  postFields := if req.usePOSTrequests then some req.body else none
  timeoutMs := if 0 < req.timeoutMs then some req.timeoutMs else none
  httpHeader := headerList req.headers
  xferInfo := cancel

def writeCb (body chunk : Bytes) : Bytes := body ++ chunk

/-- The callbacks of a transfer, up to the one that aborts it. -/
def perform (cancel : Bool) : List Callback → HttpResponse → HttpResponse × Bool
  | [], resp => (resp, false)
  | .header buffer :: cs, resp =>
    perform cancel cs { resp with headers := headerCb resp.headers buffer }
  | .write chunk :: cs, resp => perform cancel cs { resp with body := writeCb resp.body chunk }
  -- without a token the progress function is not set
  | .xferInfo cancelled :: cs, resp =>
    if cancel && cancelled then (resp, true) else perform cancel cs resp

def requestHttp (curl : Curl) (req : HttpRequest) (cancel : Bool) : HttpResponse :=
  if !curl.easyInit then
    { status := -1, errorMessage := bytes "Failed to initialize CURL" }
  else
    let options := setOptions req cancel
    let (resp, aborted) := perform cancel (curl.callbacks options) {}
    let code := if aborted then CURLE_ABORTED_BY_CALLBACK else curl.code options
    if code = CURLE_OK then
      match curl.responseCode options with
      | some statusCode => { resp with status := statusCode }
      | none =>
        { resp with status := -1, errorMessage := bytes "Failed to retrieve response code" }
    else { resp with status := -1, errorMessage := curl.strerror code }

/-- `request`; `cancel` says whether there is a token. -/
def request (curl : Curl) (req : ComRequest) (cancel : Bool) : HttpReply :=
  match req with
  | .other => .error .typeMismatch (bytes "The request is not an HttpRequest type.")
  | .http httpReq => .http (requestHttp curl httpReq cancel)

/-! ## What is delivered -/

/-- The header lines among the callbacks, and the bytes of the body. -/
def lines (cs : List Callback) : List Bytes :=
  cs.filterMap fun
    | .header buffer => some buffer
    | _ => none

def content (cs : List Callback) : Bytes :=
  cs.flatMap fun
    | .write chunk => chunk
    | _ => []

/-- The callback aborts the transfer. -/
def aborts (cancel : Bool) : Callback → Bool
  | .xferInfo cancelled => cancel && cancelled
  | _ => false

/-- The callbacks before a cancellation is seen. -/
def delivered (cancel : Bool) (cs : List Callback) : List Callback :=
  cs.takeWhile fun c => !aborts cancel c

/-- **A transfer, all at once.** -/
theorem perform_eq (cancel : Bool) (cs : List Callback) (resp : HttpResponse) :
    perform cancel cs resp =
      ({ resp with
          headers := (lines (delivered cancel cs)).foldl headerCb resp.headers
          body := resp.body ++ content (delivered cancel cs) }, cs.any (aborts cancel)) := by
  induction cs generalizing resp with
  | nil => simp [perform, delivered, lines, content]
  | cons c cs ih =>
    cases c with
    | header buffer =>
      rw [perform, ih]
      rfl
    | write chunk =>
      rw [perform, ih]
      simp [writeCb, delivered, aborts, lines, content]
    | xferInfo cancelled =>
      rw [perform]
      cases hc : cancel && cancelled with
      | true => simp [delivered, aborts, hc, lines, content]
      | false =>
        rw [if_neg Bool.false_ne_true, ih]
        simp [delivered, aborts, hc, lines, content]

/-- Two libraries deliver the same bytes for these options, and end in the same way. -/
structure SameBytes (cancel : Bool) (options : EasyOptions) (curl curl' : Curl) : Prop where
  easyInit : curl.easyInit = curl'.easyInit
  lines : lines (delivered cancel (curl.callbacks options)) =
    lines (delivered cancel (curl'.callbacks options))
  content : content (delivered cancel (curl.callbacks options)) =
    content (delivered cancel (curl'.callbacks options))
  aborted : (curl.callbacks options).any (aborts cancel) =
    (curl'.callbacks options).any (aborts cancel)
  code : curl.code options = curl'.code options
  responseCode : curl.responseCode options = curl'.responseCode options
  strerror : curl.strerror = curl'.strerror

/-- **The bytes make the reply.** -/
theorem reply_of_bytes {curl curl' : Curl} {req : HttpRequest} {cancel : Bool}
    (h : SameBytes cancel (setOptions req cancel) curl curl') :
    request curl (.http req) cancel = request curl' (.http req) cancel := by
  unfold request requestHttp
  simp only [perform_eq, h.easyInit, h.lines, h.content, h.aborted, h.code, h.responseCode,
    h.strerror]

/-! ## A transfer that fails -/

/-- The transfer of a request without a token ends with a response code. -/
def completes (curl : Curl) (req : HttpRequest) : Bool :=
  let options := setOptions req false
  curl.easyInit && curl.code options == CURLE_OK && (curl.responseCode options).isSome

theorem not_aborts (c : Callback) : aborts false c = false := by
  cases c <;> rfl

/-- Otherwise the status is -1, whatever was delivered. -/
theorem status_of_failed {curl : Curl} {req : HttpRequest} (h : completes curl req = false) :
    (requestHttp curl req false).status = -1 := by
  have hnever : (curl.callbacks (setOptions req false)).any (aborts false) = false := by
    rw [List.any_eq_false]
    intro c _
    rw [not_aborts c]
    exact Bool.false_ne_true
  unfold requestHttp
  simp only [perform_eq, hnever, Bool.false_eq_true, if_false]
  split
  · rfl
  · rename_i hinit
    split
    · rename_i hcode
      split
      · rename_i statusCode hresponse
        simp only [Bool.not_eq_true', Bool.not_eq_false] at hinit
        simp [completes, hinit, hcode, hresponse] at h
      · rfl
    · rfl

theorem rejected_of_failed {J : JsonLib} {curl : Curl} {req : HttpRequest}
    (h : completes curl req = false) : accepted J (request curl (.http req) false) = none := by
  have hok : isOkStatus (requestHttp curl req false).status = false := by
    rw [status_of_failed h]
    decide
  show (if isOkStatus (requestHttp curl req false).status then _ else none) = none
  rw [hok]
  rfl

end HttpClient

/-! ## Fetches over it -/

namespace UnleashClient

variable {σ : Type}

/-- A fetch: the context, and the library that does the transfer. -/
def fetchOverHttp (J : JsonLib) (P : StorageProvider σ) (c : UnleashClient σ)
    (a : Context × Curl) : Option (UnleashClient σ) :=
  match c.toggleFetcher.prepare J a.1 with
  | none => none
  | some f => fetchStep J P c (a.1, HttpClient.request a.2 (.http f.httpRequest) false)

/-- The fetch itself, unless its transfer fails. -/
def completed (J : JsonLib) (c : UnleashClient σ) (a : Context × Curl) : List (Context × Curl) :=
  match c.toggleFetcher.prepare J a.1 with
  | none => []
  | some f => if HttpClient.completes a.2 f.httpRequest then [a] else []

/-- What a fetch leaves alone in its request, whatever its context. -/
structure SameFetcher (f g : ToggleFetcher) : Prop where
  baseUrl : f.baseUrl = g.baseUrl
  etag : f.etag = g.etag
  usePOSTrequests : f.httpRequest.usePOSTrequests = g.httpRequest.usePOSTrequests
  headers : f.httpRequest.headers = g.httpRequest.headers
  timeoutMs : f.httpRequest.timeoutMs = g.httpRequest.timeoutMs
  url : f.httpRequest.usePOSTrequests = true → f.httpRequest.url = g.httpRequest.url

/-- Two clients that nobody can tell apart, but by their last request. -/
structure Same (c d : UnleashClient σ) : Prop where
  flagStore : c.flagStore = d.flagStore
  ready : c.ready = d.ready
  storage : c.storage = d.storage
  fetcher : SameFetcher c.toggleFetcher d.toggleFetcher

theorem SameFetcher.refl (f : ToggleFetcher) : SameFetcher f f :=
  ⟨rfl, rfl, rfl, rfl, rfl, fun _ => rfl⟩

theorem Same.refl (c : UnleashClient σ) : Same c c := ⟨rfl, rfl, rfl, .refl _⟩

/-- They send the same requests. -/
theorem SameFetcher.prepare {J : JsonLib} {f g : ToggleFetcher} (h : SameFetcher f g)
    (ctx : Context) : f.prepare J ctx = g.prepare J ctx := by
  obtain ⟨⟨url, post, headers, body, timeoutMs⟩, baseUrl, etag⟩ := f
  obtain ⟨⟨url', post', headers', body', timeoutMs'⟩, baseUrl', etag'⟩ := g
  obtain ⟨hbase, hetag, hpost, hheaders, htimeout, hurl⟩ := h
  simp only at hbase hetag hpost hheaders htimeout hurl
  subst hbase hetag hpost hheaders htimeout
  unfold ToggleFetcher.prepare
  cases post with
  | true =>
    simp only [if_true, hurl rfl]
  | false => simp only [Bool.false_eq_true, if_false]

/-- A request that was prepared, and never answered. -/
theorem sameFetcher_prepare {J : JsonLib} {f g : ToggleFetcher} {ctx : Context}
    (h : f.prepare J ctx = some g) : SameFetcher g f := by
  unfold ToggleFetcher.prepare at h
  split at h
  · split at h <;> cases h
    exact ⟨rfl, rfl, rfl, rfl, rfl, fun _ => rfl⟩
  · rename_i hpost
    cases h
    exact ⟨rfl, rfl, rfl, rfl, rfl, fun hpost' => absurd hpost' hpost⟩

theorem SameFetcher.trans {f g k : ToggleFetcher} (h : SameFetcher f g) (h' : SameFetcher g k) :
    SameFetcher f k where
  baseUrl := h.baseUrl.trans h'.baseUrl
  etag := h.etag.trans h'.etag
  usePOSTrequests := h.usePOSTrequests.trans h'.usePOSTrequests
  headers := h.headers.trans h'.headers
  timeoutMs := h.timeoutMs.trans h'.timeoutMs
  url hpost := (h.url hpost).trans (h'.url (h.usePOSTrequests ▸ hpost))

/-- One reply to two clients that show the same: it does to the one what it does to the other,
    whatever the requests were. -/
theorem fetchStep_transfer {J : JsonLib} {P : StorageProvider σ} {c d c' : UnleashClient σ}
    {f g : ToggleFetcher} {ctx ctx' : Context} {resp : HttpReply}
    (hc : c.toggleFetcher.prepare J ctx = some f) (hd : d.toggleFetcher.prepare J ctx' = some g)
    (hflags : c.flagStore = d.flagStore) (hready : c.ready = d.ready)
    (hstorage : c.storage = d.storage) (hstep : fetchStep J P c (ctx, resp) = some c') :
    ∃ d' tag, fetchStep J P d (ctx', resp) = some d' ∧ c'.flagStore = d'.flagStore ∧
      c'.ready = d'.ready ∧ c'.storage = d'.storage ∧ c'.toggleFetcher = f.cacheIfAny tag ∧
      d'.toggleFetcher = g.cacheIfAny tag := by
  obtain ⟨f', events, hf, hfetched⟩ := fetchStep_fetched hstep
  obtain rfl : f = f' := Option.some.inj (hc.symm.trans hf)
  have hfetched : Fetched J P c f resp c' events := hfetched
  rcases singleFetchToggles_cases P resp hd with
    ⟨d', events', heq, hfetched'⟩ | ⟨-, r, s, storage, hacc, hsize, hsave⟩
  · have hd' : fetchStep J P d (ctx', resp) = some d' := by
      rw [fetchStep, heq]
      rfl
    cases hfetched with
    | rejected _ _ hacc _ =>
      cases hfetched' with
      | rejected _ _ _ _ => exact ⟨_, none, hd', hflags, hready, hstorage, rfl, rfl⟩
      | empty r s hacc' _ | updated r s _ hacc' _ _ => cases hacc.symm.trans hacc'
    | empty r s hacc hsize =>
      cases hfetched' with
      | rejected _ _ hacc' _ => cases hacc.symm.trans hacc'
      | empty r' s' hacc' _ =>
        cases hacc.symm.trans hacc'
        exact ⟨_, r.etag, hd', hflags, hready, hstorage, rfl, rfl⟩
      | updated r' s' _ hacc' hsize' _ =>
        cases hacc.symm.trans hacc'
        exact absurd hsize hsize'
    | updated r s storage hacc hsize hsave =>
      cases hfetched' with
      | rejected _ _ hacc' _ => cases hacc.symm.trans hacc'
      | empty r' s' hacc' hsize' =>
        cases hacc.symm.trans hacc'
        exact absurd hsize' hsize
      | updated r' s' storage' hacc' _ hsave' =>
        cases hacc.symm.trans hacc'
        rw [hstorage, hsave'] at hsave
        cases hsave
        exact ⟨_, r.etag, hd', congrArg (·.replace s) hflags, rfl, rfl, rfl, rfl⟩
  · -- the provider would have thrown at the first client, too
    cases hfetched with
    | rejected _ _ hacc' _ => cases hacc.symm.trans hacc'
    | empty r' s' hacc' hsize' =>
      cases hacc.symm.trans hacc'
      exact absurd hsize' hsize
    | updated r' s' storage' hacc' _ hsave' =>
      cases hacc.symm.trans hacc'
      rw [hstorage, hsave] at hsave'
      cases hsave'

/-- One reply, to two clients that nobody can tell apart. -/
theorem Same.fetchStep {J : JsonLib} {P : StorageProvider σ} {c d c' : UnleashClient σ}
    {a : Context × HttpReply} (h : Same c d) (hstep : fetchStep J P c a = some c') :
    ∃ d', fetchStep J P d a = some d' ∧ Same c' d' := by
  obtain ⟨f, events, hf, -⟩ := fetchStep_fetched hstep
  obtain ⟨d', tag, hd', hflags, hready, hstorage, hc, hd⟩ := fetchStep_transfer hf
    (h.fetcher.prepare a.1 ▸ hf) h.flagStore h.ready h.storage hstep
  exact ⟨d', hd', hflags, hready, hstorage, by rw [hc, hd]; exact .refl _⟩

/-- A fetch whose transfer fails changes nothing that anybody can see. -/
theorem Same.failed {J : JsonLib} {P : StorageProvider σ} {c d c' : UnleashClient σ}
    {f : ToggleFetcher} {ctx : Context} {curl : Curl} (h : Same c d)
    (hf : c.toggleFetcher.prepare J ctx = some f)
    (hfailed : HttpClient.completes curl f.httpRequest = false)
    (hstep : UnleashClient.fetchStep J P c
      (ctx, HttpClient.request curl (.http f.httpRequest) false) = some c') : Same c' d := by
  have hacc := HttpClient.rejected_of_failed (J := J) hfailed
  obtain ⟨f', events, hf', hfetched⟩ := fetchStep_fetched hstep
  obtain rfl : f = f' := Option.some.inj (hf.symm.trans hf')
  cases hfetched with
  | rejected _ _ _ _ =>
    exact ⟨h.flagStore, h.ready, h.storage, (sameFetcher_prepare hf).trans h.fetcher⟩
  | empty r s hacc' _ | updated r s _ hacc' _ _ =>
    rw [hacc] at hacc'
    cases hacc'

/-- **Step lemma.**  A fetch is answered by the same fetch, or, if its transfer fails, by none. -/
theorem outage_simulates (J : JsonLib) (P : StorageProvider σ) :
    Machine.Simulates (fetchOverHttp J P) (fetchOverHttp J P) (completed J) Same := by
  rintro c d ⟨ctx, curl⟩ c' h hstep
  unfold fetchOverHttp at hstep
  split at hstep
  · cases hstep
  · rename_i f hf
    simp only at hf hstep
    unfold completed
    simp only [hf]
    split
    · obtain ⟨d', hd', hsame⟩ := h.fetchStep hstep
      refine ⟨d', ?_, hsame⟩
      have hf' : d.toggleFetcher.prepare J ctx = some f := h.fetcher.prepare ctx ▸ hf
      have hover : fetchOverHttp J P d (ctx, curl) = some d' := by
        simp only [fetchOverHttp, hf']
        exact hd'
      exact (Machine.run_cons_of_step hover []).trans rfl
    · rename_i hfailed
      exact ⟨d, rfl, h.failed hf (Bool.eq_false_iff.mpr hfailed) hstep⟩

/-- **An outage leaves no trace.**  However the libraries and the network behave, and whatever
    part of a body was delivered: without the fetches whose transfers failed, a client comes to the
    same flags, readiness and storage, and sends the same requests from then on. -/
theorem outage_invisible (J : JsonLib) (P : StorageProvider σ) (c₀ c : UnleashClient σ)
    (as : List (Context × Curl)) (hrun : Machine.run (fetchOverHttp J P) c₀ as = some c) :
    ∃ d, Machine.run (fetchOverHttp J P) c₀
        (Machine.answers (fetchOverHttp J P) (completed J) c₀ as) = some d ∧
      c.flagStore = d.flagStore ∧ c.ready = d.ready ∧ c.storage = d.storage ∧
      ∀ ctx, c.toggleFetcher.prepare J ctx = d.toggleFetcher.prepare J ctx := by
  obtain ⟨d, hd, hsame⟩ := (outage_simulates J P).run (Same.refl c₀) hrun
  exact ⟨d, hd, hsame.flagStore, hsame.ready, hsame.storage, hsame.fetcher.prepare⟩

/-! ## A body in pieces -/

/-- A library that delivers these chunks, and ends with this code. -/
def chunkedCurl (chunks : List Bytes) (code : CURLcode) : Curl where
  easyInit := true
  callbacks _ := .header (bytes "etag: e1\r\n") :: chunks.map .write
  code _ := code
  responseCode _ := some 200
  strerror _ := bytes "Failure when receiving data from the peer"

/-- A transfer that is cut off after five bytes, and one that is not. -/
def cutOff : List (Context × Curl) :=
  [(plainContext, chunkedCurl [oneToggleText.take 5] 56),
    (plainContext, chunkedCurl [oneToggleText] CURLE_OK)]

set_option maxRecDepth 8000 in
theorem outage_invisible_cutOff :
    ∃ c d, Machine.run (fetchOverHttp JsonText.compact localStorageProvider) freshClient cutOff =
        some c ∧
      Machine.run (fetchOverHttp JsonText.compact localStorageProvider) freshClient
        (Machine.answers (fetchOverHttp JsonText.compact localStorageProvider)
          (completed JsonText.compact) freshClient cutOff) = some d ∧
      c.flagStore = d.flagStore := by
  obtain ⟨d, hd, hflags, -⟩ := outage_invisible JsonText.compact localStorageProvider freshClient _
    cutOff rfl
  exact ⟨_, d, rfl, hd, hflags⟩

/-- **Only the bytes matter.**  Over any number of fetches, libraries that deliver the same header
    lines and the same bytes, in whatever chunks and with whatever in between, bring a client to
    the same state, or to the same exception. -/
theorem bytes_decide (J : JsonLib) (P : StorageProvider σ) (c₀ : UnleashClient σ)
    (as bs : List (Context × Curl))
    (h : List.Forall₂ (fun a b => a.1 = b.1 ∧ ∀ options,
      HttpClient.SameBytes false options a.2 b.2) as bs) :
    Machine.run (fetchOverHttp J P) c₀ as = Machine.run (fetchOverHttp J P) c₀ bs := by
  induction h generalizing c₀ with
  | nil => rfl
  | @cons a b as bs hab hrest ih =>
    obtain ⟨hctx, hbytes⟩ := hab
    have hstep : fetchOverHttp J P c₀ a = fetchOverHttp J P c₀ b := by
      unfold fetchOverHttp
      rw [hctx]
      split
      · rfl
      · rw [HttpClient.reply_of_bytes (hbytes _)]
    rw [Machine.run, Machine.run, hstep]
    split
    · exact ih _
    · rfl

/-- One body in one chunk, and in two. -/
theorem bytes_decide_chunks :
    Machine.run (fetchOverHttp JsonText.compact localStorageProvider) freshClient
        [(plainContext, chunkedCurl [oneToggleText] CURLE_OK)] =
      Machine.run (fetchOverHttp JsonText.compact localStorageProvider) freshClient
        [(plainContext, chunkedCurl [oneToggleText.take 5, oneToggleText.drop 5] CURLE_OK)] := by
  refine bytes_decide JsonText.compact localStorageProvider freshClient _ _
    (.cons ⟨rfl, fun options => ?_⟩ .nil)
  exact ⟨rfl, rfl, rfl, rfl, rfl, rfl, rfl⟩

end UnleashClient

end Unleash
