/-
  A CLIENT AND ITS SERVER, over conditional requests.

  The server's flags change at any time, and what it answers to a request may depend on the
  request (`flags : HttpRequest → Bytes`, the body for it).  A fetch is an exchange of several
  steps, one exchange at a time:

      idle ──send──▶ requested ──serve──▶ answered ──deliver──▶ idle
                         │                   │ ▲
                         └───────fail────────┴─┘

  `Serves` is what the client relies on: the server answers with the body that it has for the
  request at that moment and with the tag of that body, or, to a request that carries this very
  tag, with "not modified".  Different bodies have different tags.  In place of the answer
  anything that is not accepted may arrive: no reply, an error, a text that does not decode.

  The client keeps the tag in the fetcher, the flags in the store, and the header in the request;
  `Inv` says how they belong together.  In the time of the versions the client is a replica that
  asks its source (`simulates`): it never goes back to older flags, and once the flags of the
  server stay as they are, one exchange makes it show them (`server_sync`).
-/
import UnleashSdk.EtagCoherence
import UnleashSdk.Lib.Replica
import UnleashSdk.Lib.Simulation

set_option linter.unusedVariables false

namespace Unleash

namespace ServerSync

open UnleashClient

variable {σ : Type}

/-! ## The state -/

/-- The version of the flags from which a request was answered, and the body for it. -/
structure Delivery where
  version : Nat
  request : HttpRequest
  body : Bytes

inductive Exchange where
  | idle
  | requested (ctx : Context) (request : HttpRequest)
  -- `source` is `none` if what arrives is not an answer of the server
  | answered (ctx : Context) (resp : HttpReply) (source : Option Delivery)

/-- The context of the fetch that is under way. -/
def Exchange.ctx : Exchange → Option Context
  | .idle => none
  | .requested ctx _ | .answered ctx _ _ => some ctx

/-- The client, the flags of the server, those that it had before, oldest first, and the answers
    that reached the client. -/
structure State (σ : Type) where
  client : UnleashClient σ
  flags : HttpRequest → Bytes
  past : List (HttpRequest → Bytes) := []
  exchange : Exchange := .idle
  delivered : List Delivery := []

inductive Act where
  | change (flags : HttpRequest → Bytes)
  | send (ctx : Context)
  | serve (resp : HttpReply)
  | fail (resp : HttpReply)
  | deliver

/-- The flags that the server had in this version. -/
def State.flagsAt (s : State σ) (version : Nat) : Option (HttpRequest → Bytes) :=
  (s.past ++ [s.flags])[version]?

/-- A server that has `body` for the request answers with it, or with "not modified". -/
def Serves (tagOf : Bytes → Bytes) (body : Bytes) (request : HttpRequest) (resp : HttpReply) :
    Prop :=
  match resp with
  | .http r =>
    (isOkStatus r.status = true ∧ r.body = body ∧ r.etag = some (tagOf body)) ∨
    (r.status = httpStatusNoUpdate ∧
      request.headers.lookup (bytes "if-none-match") = some (tagOf body))
  | _ => False

instance (tagOf : Bytes → Bytes) (body : Bytes) (request : HttpRequest) (resp : HttpReply) :
    Decidable (Serves tagOf body request resp) :=
  match resp with
  | .null | .error _ _ | .other => isFalse id
  | .http r => inferInstanceAs (Decidable (_ ∨ _))

/-! ## The steps -/

def step (J : JsonLib) (P : StorageProvider σ) (tagOf : Bytes → Bytes) (s : State σ) :
    Act → Option (State σ)
  | .change flags => some { s with flags := flags, past := s.past ++ [s.flags] }
  | .send ctx =>
    match s.exchange with
    | .idle =>
      match s.client.toggleFetcher.prepare J ctx with
      | none => none
      | some f => some { s with exchange := .requested ctx f.httpRequest }
    | _ => none
  | .serve resp =>
    match s.exchange with
    | .requested ctx request =>
      if Serves tagOf (s.flags request) request resp then
        some { s with
          exchange := .answered ctx resp (some ⟨s.past.length, request, s.flags request⟩) }
      else none
    | _ => none
  | .fail resp =>
    if (accepted J resp).isNone then
      match s.exchange with
      | .requested ctx _ => some { s with exchange := .answered ctx resp none }
      | .answered ctx _ _ => some { s with exchange := .answered ctx resp none }
      | .idle => none
    else none
  | .deliver =>
    match s.exchange with
    | .answered ctx resp source =>
      match fetchStep J P s.client (ctx, resp) with
      | none => none
      | some client =>
        some { s with
          client := client, exchange := .idle, delivered := s.delivered ++ source.toList }
    | _ => none

/-- A client that has just been constructed, and a server with these flags. -/
def initial (client : UnleashClient σ) (flags : HttpRequest → Bytes) : State σ :=
  { client := client, flags := flags }

/-- Everything a step can do. -/
inductive Change (J : JsonLib) (P : StorageProvider σ) (tagOf : Bytes → Bytes) (s : State σ) :
    Act → State σ → Prop where
  | change (flags : HttpRequest → Bytes) :
    Change J P tagOf s (.change flags) { s with flags := flags, past := s.past ++ [s.flags] }
  | send (ctx : Context) (f : ToggleFetcher) (hx : s.exchange = .idle)
    (hf : s.client.toggleFetcher.prepare J ctx = some f) :
    Change J P tagOf s (.send ctx) { s with exchange := .requested ctx f.httpRequest }
  | serve (resp : HttpReply) (ctx : Context) (request : HttpRequest)
    (hx : s.exchange = .requested ctx request)
    (hserves : Serves tagOf (s.flags request) request resp) :
    Change J P tagOf s (.serve resp) { s with
      exchange := .answered ctx resp (some ⟨s.past.length, request, s.flags request⟩) }
  | fail (resp : HttpReply) (ctx : Context) (hx : s.exchange.ctx = some ctx)
    (hfail : accepted J resp = none) :
    Change J P tagOf s (.fail resp) { s with exchange := .answered ctx resp none }
  | deliver (ctx : Context) (resp : HttpReply) (source : Option Delivery) (c : UnleashClient σ)
    (hx : s.exchange = .answered ctx resp source)
    (hfetch : fetchStep J P s.client (ctx, resp) = some c) :
    Change J P tagOf s .deliver
      { s with client := c, exchange := .idle, delivered := s.delivered ++ source.toList }

theorem step_change {J : JsonLib} {P : StorageProvider σ} {tagOf : Bytes → Bytes} {s s' : State σ}
    {a : Act} (h : step J P tagOf s a = some s') : Change J P tagOf s a s' := by
  cases a with
  | change flags =>
    cases h
    exact .change flags
  | send ctx =>
    simp only [step] at h
    split at h
    · rename_i hx
      split at h <;> cases h
      rename_i f hf
      exact .send ctx f hx hf
    · cases h
  | serve resp =>
    simp only [step] at h
    split at h
    · rename_i ctx request hx
      split at h <;> cases h
      rename_i hserves
      exact .serve resp ctx request hx hserves
    · cases h
  | fail resp =>
    simp only [step] at h
    split at h
    · rename_i hfail
      split at h <;> cases h
      · rename_i ctx request hx
        exact .fail resp ctx (by rw [hx]; rfl) (Option.isNone_iff_eq_none.mp hfail)
      · rename_i ctx resp' source hx
        exact .fail resp ctx (by rw [hx]; rfl) (Option.isNone_iff_eq_none.mp hfail)
    · cases h
  | deliver =>
    simp only [step] at h
    split at h
    · rename_i ctx resp source hx
      split at h <;> cases h
      rename_i c hfetch
      exact .deliver ctx resp source c hx hfetch
    · cases h

/-! ## What the client shows -/

/-- The body decodes, and to at least one flag: only then the client takes it over. -/
def decodes (J : JsonLib) (d : Delivery) : Bool :=
  match decodeClientFeaturesResponse J d.body with
  | .ok _ => true
  | .error _ => false

def hasFlags (J : JsonLib) (d : Delivery) : Bool :=
  match decodeClientFeaturesResponse J d.body with
  | .ok toggleSet => toggleSet.size ≠ 0
  | .error _ => false

/-- The last answer whose tag the client has, and the last one whose flags it shows. -/
def lastTagged (J : JsonLib) (ds : List Delivery) : Option Delivery :=
  (ds.filter (decodes J)).getLast?

def lastShown (J : JsonLib) (ds : List Delivery) : Option Delivery :=
  (ds.filter (hasFlags J)).getLast?

/-- The flags that a client shows after these answers, if it showed `initial` at first. -/
def Shows (J : JsonLib) (initial : ToggleSet) (ds : List Delivery) (snapshot : ToggleSet) : Prop :=
  match lastShown J ds with
  | none => snapshot = initial
  | some d => decodeClientFeaturesResponse J d.body = .ok snapshot

theorem decodes_of_hasFlags {J : JsonLib} {d : Delivery} (h : hasFlags J d = true) :
    decodes J d = true := by
  unfold hasFlags at h
  unfold decodes
  split at h
  · rfl
  · cases h

/-- One answer more: it counts if it passes the test. -/
theorem getLast_filter_snoc {p : Delivery → Bool} (ds : List Delivery) (d : Delivery) :
    ((ds ++ [d]).filter p).getLast? = if p d then some d else (ds.filter p).getLast? := by
  rw [List.filter_append]
  cases hp : p d with
  | true => simp [hp]
  | false => simp [hp]

/-- If the last answer that decodes has flags, then they are shown. -/
theorem lastShown_of_lastTagged {J : JsonLib} {ds : List Delivery} {d : Delivery}
    (h : lastTagged J ds = some d) (hd : hasFlags J d = true) : lastShown J ds = some d := by
  induction ds using List.reverseRecOn with
  | nil => cases h
  | append_singleton ds e ih =>
    rw [lastTagged, getLast_filter_snoc] at h
    rw [lastShown, getLast_filter_snoc]
    by_cases he : decodes J e = true
    · rw [if_pos he] at h
      cases h
      exact if_pos hd
    · rw [if_neg he] at h
      rw [if_neg fun hflags => he (decodes_of_hasFlags hflags)]
      exact ih h

/-! ## The invariant -/

/-- What is under way.  The request carries the header that the client has; an answer of the
    server is one that it had for the request, in a version that is not newer than the current
    one. -/
def Underway (J : JsonLib) (tagOf : Bytes → Bytes) (s : State σ) : Prop :=
  match s.exchange with
  | .idle => True
  | .requested _ request =>
    request.headers.lookup (bytes "if-none-match") = s.client.ifNoneMatch
  | .answered _ resp none => accepted J resp = none
  | .answered _ resp (some d) => Serves tagOf d.body d.request resp ∧
    d.request.headers.lookup (bytes "if-none-match") = s.client.ifNoneMatch ∧
    (s.flagsAt d.version).map (· d.request) = some d.body

/-- `header`: what the fetcher sends is the tag that it has; `tag`: that is the tag of the last
    answer that decoded; `shows`: the flags are those of the last one with flags in it;
    `origin`: all answers are bodies that the server had. -/
structure Inv (J : JsonLib) (tagOf : Bytes → Bytes) (initial : ToggleSet) (s : State σ) : Prop where
  header : s.client.ifNoneMatch = s.client.cachedEtag
  tag : s.client.cachedEtag = (lastTagged J s.delivered).map fun d => tagOf d.body
  shows : Shows J initial s.delivered s.client.flagStore.snapshot
  origin : ∀ d ∈ s.delivered, (s.flagsAt d.version).map (· d.request) = some d.body
  underway : Underway J tagOf s

/-- The flags of earlier versions stay what they were. -/
theorem flagsAt_change {s : State σ} {flags : HttpRequest → Bytes} {d : Delivery}
    (h : (s.flagsAt d.version).map (· d.request) = some d.body) :
    (State.flagsAt { s with flags := flags, past := s.past ++ [s.flags] } d.version).map
      (· d.request) = some d.body := by
  obtain ⟨f, hf, hbody⟩ := Option.map_eq_some_iff.mp h
  have hlt : d.version < (s.past ++ [s.flags]).length := List.getElem?_eq_some_iff.mp hf |>.1
  rw [State.flagsAt]
  show (((s.past ++ [s.flags]) ++ [flags])[d.version]?).map _ = _
  rw [List.getElem?_append_left hlt, ← hbody]
  exact congrArg (Option.map _) hf

/-- The version that the server has now. -/
theorem flagsAt_current (s : State σ) : s.flagsAt s.past.length = some s.flags := by
  rw [State.flagsAt, List.getElem?_append_right (Nat.le_refl _)]
  simp

/-- **Step lemma** for what is not an answer of the server: nothing changes. -/
theorem inv_failed {J : JsonLib} {P : StorageProvider σ} {tagOf : Bytes → Bytes}
    {initial : ToggleSet} {s : State σ} {c : UnleashClient σ} {ctx : Context} {resp : HttpReply}
    (h : Inv J tagOf initial s) (hfail : accepted J resp = none)
    (hfetch : fetchStep J P s.client (ctx, resp) = some c) :
    c.ifNoneMatch = c.cachedEtag ∧ c.cachedEtag = s.client.cachedEtag ∧
      c.flagStore.snapshot = s.client.flagStore.snapshot := by
  have hheader := ifNoneMatch_step h.header hfetch
  obtain ⟨f, events, hf, hfetched⟩ := fetchStep_fetched hfetch
  have hfetched : Fetched J P s.client f resp c events := hfetched
  cases hfetched with
  | rejected sdkState events _ _ =>
    obtain ⟨hetag, -⟩ := cachedEtag_prepare hf
      { s.client with toggleFetcher := f, sdkState := sdkState } rfl
    exact ⟨hheader, hetag, rfl⟩
  | empty r t hacc _ => cases hfail.symm.trans hacc
  | updated r t storage hacc _ _ => cases hfail.symm.trans hacc

/-- **Step lemma** for an answer with a body. -/
theorem inv_served {J : JsonLib} {P : StorageProvider σ} {tagOf : Bytes → Bytes}
    {initial : ToggleSet} {s : State σ} {c : UnleashClient σ} {ctx : Context} {r : HttpResponse}
    {d : Delivery} (h : Inv J tagOf initial s) (hok : isOkStatus r.status = true)
    (hbody : r.body = d.body) (hetag : r.etag = some (tagOf d.body))
    (hfetch : fetchStep J P s.client (ctx, .http r) = some c) :
    c.ifNoneMatch = c.cachedEtag ∧
      c.cachedEtag = (lastTagged J (s.delivered ++ [d])).map (fun d => tagOf d.body) ∧
      Shows J initial (s.delivered ++ [d]) c.flagStore.snapshot := by
  have hheader := ifNoneMatch_step h.header hfetch
  cases hdecode : decodeClientFeaturesResponse J d.body with
  | error e =>
    have hfail : accepted J (.http r) = none := by simp [accepted, hok, hbody, hdecode]
    obtain ⟨-, htag, hsame⟩ := inv_failed h hfail hfetch
    have hnot : decodes J d = false := by simp [decodes, hdecode]
    have hnone : hasFlags J d = false := by simp [hasFlags, hdecode]
    refine ⟨hheader, ?_, ?_⟩
    · rw [htag, h.tag, lastTagged, lastTagged, getLast_filter_snoc, hnot]
      rfl
    · have hlast : lastShown J (s.delivered ++ [d]) = lastShown J s.delivered := by
        rw [lastShown, getLast_filter_snoc, hnone]
        rfl
      rw [Shows, hlast, hsame]
      exact h.shows
  | ok toggleSet =>
    have hacc : accepted J (.http r) = some (r, toggleSet) := by
      simp [accepted, hok, hbody, hdecode]
    have hyes : decodes J d = true := by simp [decodes, hdecode]
    have htagged : lastTagged J (s.delivered ++ [d]) = some d := by
      rw [lastTagged, getLast_filter_snoc, if_pos hyes]
    rw [htagged]
    obtain ⟨f, events, hf, hfetched⟩ := fetchStep_fetched hfetch
    have hfetched : Fetched J P s.client f (.http r) c events := hfetched
    cases hfetched with
    | rejected sdkState events hnone _ => cases hnone.symm.trans hacc
    | empty r' t hacc' hsize =>
      obtain ⟨rfl, rfl⟩ : r' = r ∧ t = toggleSet := by
        rw [hacc'] at hacc
        cases hacc
        exact ⟨rfl, rfl⟩
      obtain ⟨htag, -⟩ := cachedEtag_cache hf r'
        { s.client with toggleFetcher := f.cacheIfAny r'.etag } rfl
      refine ⟨hheader, ?_, ?_⟩
      · rw [htag, hetag]
        rfl
      · have hnone : hasFlags J d = false := by simp [hasFlags, hdecode, hsize]
        have hlast : lastShown J (s.delivered ++ [d]) = lastShown J s.delivered := by
          rw [lastShown, getLast_filter_snoc, hnone]
          rfl
        rw [Shows, hlast]
        exact h.shows
    | updated r' t storage hacc' hsize hsave =>
      obtain ⟨rfl, rfl⟩ : r' = r ∧ t = toggleSet := by
        rw [hacc'] at hacc
        cases hacc
        exact ⟨rfl, rfl⟩
      obtain ⟨htag, -⟩ := cachedEtag_cache hf r'
        { s.client with
          toggleFetcher := f.cacheIfAny r'.etag
          storage := storage
          flagStore := s.client.flagStore.replace t
          ready := true } rfl
      refine ⟨hheader, ?_, ?_⟩
      · rw [htag, hetag]
        rfl
      · have hsome : hasFlags J d = true := by simp [hasFlags, hdecode, hsize]
        have hlast : lastShown J (s.delivered ++ [d]) = some d := by
          rw [lastShown, getLast_filter_snoc, if_pos hsome]
        rw [Shows, hlast]
        exact hdecode

/-- **Step lemma** for "not modified": the server has the body whose tag the client has. -/
theorem inv_notModified {J : JsonLib} {tagOf : Bytes → Bytes} {initial : ToggleSet} {s : State σ}
    {d : Delivery} (h : Inv J tagOf initial s)
    (htags : ∀ a b, tagOf a = tagOf b → a = b)
    (hrequest : s.client.ifNoneMatch = some (tagOf d.body)) :
    s.client.cachedEtag = (lastTagged J (s.delivered ++ [d])).map (fun d => tagOf d.body) ∧
      Shows J initial (s.delivered ++ [d]) s.client.flagStore.snapshot := by
  have htag : (lastTagged J s.delivered).map (fun d => tagOf d.body) = some (tagOf d.body) := by
    rw [← h.tag, ← h.header, hrequest]
  obtain ⟨e, he, hsame⟩ := Option.map_eq_some_iff.mp htag
  have hsame : e.body = d.body := htags _ _ hsame
  have hdecodes : decodes J d = true := by
    have hmem : e ∈ s.delivered.filter (decodes J) := List.mem_of_getLast? he
    have hyes := (List.mem_filter.mp hmem).2
    unfold decodes at hyes ⊢
    rw [← hsame]
    exact hyes
  refine ⟨?_, ?_⟩
  · rw [lastTagged, getLast_filter_snoc, if_pos hdecodes, ← h.header, hrequest]
    rfl
  · rw [Shows, lastShown, getLast_filter_snoc]
    split
    · rename_i hnone
      split at hnone
      · cases hnone
      · have hshows := h.shows
        rw [Shows, lastShown, hnone] at hshows
        exact hshows
    · rename_i e' hsome
      split at hsome
      · rename_i hflags
        cases hsome
        -- the flags are there already, from the answer with the same body
        have hflags' : hasFlags J e = true := by
          unfold hasFlags at hflags ⊢
          rw [hsame]
          exact hflags
        have hshows := h.shows
        rw [Shows, lastShown_of_lastTagged he hflags'] at hshows
        rw [← hsame]
        exact hshows
      · have hshows := h.shows
        rw [Shows, lastShown, hsome] at hshows
        exact hshows

theorem inv_step {J : JsonLib} {P : StorageProvider σ} {tagOf : Bytes → Bytes}
    {initial : ToggleSet} (htags : ∀ a b, tagOf a = tagOf b → a = b) {s s' : State σ} {a : Act}
    (h : Inv J tagOf initial s) (hstep : step J P tagOf s a = some s') :
    Inv J tagOf initial s' := by
  have hunder := h.underway
  cases step_change hstep with
  | change flags =>
    refine ⟨h.header, h.tag, h.shows, fun d hd => flagsAt_change (h.origin d hd), ?_⟩
    cases hx : s.exchange with
    | idle => simp only [Underway]
    | requested ctx request =>
      simp only [Underway, hx] at hunder ⊢
      exact hunder
    | answered ctx resp source =>
      cases source with
      | none =>
        simp only [Underway, hx] at hunder ⊢
        exact hunder
      | some d =>
        simp only [Underway, hx] at hunder ⊢
        exact ⟨hunder.1, hunder.2.1, flagsAt_change hunder.2.2⟩
  | send ctx f hx hf =>
    obtain ⟨-, hheaders, -⟩ := ToggleFetcher.prepare_frame hf
    refine ⟨h.header, h.tag, h.shows, h.origin, ?_⟩
    show f.httpRequest.headers.lookup _ = s.client.toggleFetcher.httpRequest.headers.lookup _
    rw [hheaders]
  | serve resp ctx request hx hserves =>
    rw [Underway, hx] at hunder
    refine ⟨h.header, h.tag, h.shows, h.origin, hserves, hunder, ?_⟩
    show (s.flagsAt s.past.length).map (fun f => f request) = some (s.flags request)
    rw [flagsAt_current]
    rfl
  | fail resp ctx hx hfail => exact ⟨h.header, h.tag, h.shows, h.origin, hfail⟩
  | deliver ctx resp source c hx hfetch =>
    rw [Underway, hx] at hunder
    cases source with
    | none =>
      obtain ⟨hheader, htag, hsame⟩ := inv_failed h hunder hfetch
      refine ⟨hheader, ?_, ?_, ?_, trivial⟩
      · show c.cachedEtag = (lastTagged J (s.delivered ++ [])).map _
        rw [htag, List.append_nil]
        exact h.tag
      · show Shows J initial (s.delivered ++ []) c.flagStore.snapshot
        rw [hsame, List.append_nil]
        exact h.shows
      · show ∀ d ∈ s.delivered ++ [], _
        rw [List.append_nil]
        exact h.origin
    | some d =>
      obtain ⟨hserves, hrequest, horigin⟩ := hunder
      have horigins : ∀ d' ∈ s.delivered ++ [d], (s.flagsAt d'.version).map (· d'.request) =
          some d'.body := by
        intro d' hd'
        rcases List.mem_append.mp hd' with hd' | hd'
        · exact h.origin d' hd'
        · rw [List.mem_singleton.mp hd']
          exact horigin
      cases resp with
      | null | error _ _ | other => exact hserves.elim
      | http r =>
        rcases hserves with ⟨hok, hbody, hetag⟩ | ⟨hstatus, hmatch⟩
        · obtain ⟨hheader, htag, hshows⟩ := inv_served h hok hbody hetag hfetch
          exact ⟨hheader, htag, hshows, horigins, trivial⟩
        · have hfail : accepted J (.http r) = none := by
            have hno : isOkStatus r.status = false := by rw [hstatus]; decide
            simp [accepted, hno]
          obtain ⟨hheader, htag, hsame⟩ := inv_failed h hfail hfetch
          obtain ⟨htag', hshows⟩ := inv_notModified h htags (hrequest.symm.trans hmatch)
          exact ⟨hheader, htag.trans htag', by rw [hsame]; exact hshows, horigins, trivial⟩

/-! ## The client is a replica -/

/-- What the replica does at a step. -/
def replicate (s : State σ) : Act → List Replica.Act
  | .change _ => [.publish]
  | .send _ => [.ask]
  | .deliver =>
    match s.exchange with
    | .answered _ _ (some d) => [.observe d.version]
    | _ => [.forget]
  | _ => []

/-- The question of the replica, while an exchange is under way. -/
def Asked (current : Nat) (asked : Option Nat) : Exchange → Prop
  | .idle => asked = none
  | .requested _ _ => ∃ m, asked = some m ∧ m ≤ current
  | .answered _ _ none => ∃ m, asked = some m
  | .answered _ _ (some d) => ∃ m, asked = some m ∧ m ≤ d.version ∧ d.version ≤ current

structure Replicates (s : State σ) (a : Replica.State) : Prop where
  current : a.current = s.past.length
  observed : a.observed = s.delivered.map Delivery.version
  asked : Asked a.current a.asked s.exchange

/-- An exchange under way is a question asked. -/
theorem Asked.some {current : Nat} {asked : Option Nat} {x : Exchange} {ctx : Context}
    (h : Asked current asked x) (hx : x.ctx = .some ctx) : ∃ m, asked = .some m := by
  cases x with
  | idle => cases hx
  | requested ctx request =>
    obtain ⟨m, hm, -⟩ := h
    exact ⟨m, hm⟩
  | answered ctx resp source =>
    cases source with
    | none => exact h
    | some d =>
      obtain ⟨m, hm, -⟩ := h
      exact ⟨m, hm⟩

theorem Asked.mono {current : Nat} {asked : Option Nat} {x : Exchange} (h : Asked current asked x) :
    Asked (current + 1) asked x := by
  cases x with
  | idle => exact h
  | requested ctx request =>
    obtain ⟨m, hm, hle⟩ := h
    exact ⟨m, hm, Nat.le_succ_of_le hle⟩
  | answered ctx resp source =>
    cases source with
    | none => exact h
    | some d =>
      obtain ⟨m, hm, hle, hcur⟩ := h
      exact ⟨m, hm, hle, Nat.le_succ_of_le hcur⟩

/-- **The client is a replica of its server's flags.** -/
theorem replicates (J : JsonLib) (P : StorageProvider σ) (tagOf : Bytes → Bytes) :
    Machine.Simulates (step J P tagOf) Replica.step replicate Replicates := by
  intro s r a s' h hstep
  have hasked := h.asked
  cases step_change hstep with
  | change flags =>
    refine ⟨{ r with current := r.current + 1 }, rfl, ?_, h.observed, hasked.mono⟩
    show r.current + 1 = (s.past ++ [s.flags]).length
    rw [h.current, List.length_append, List.length_singleton]
  | send ctx f hx hf =>
    rw [hx] at hasked
    have hnone : r.asked = none := hasked
    exact ⟨{ r with asked := some r.current },
      by simp [replicate, Machine.run, Replica.step, hnone], h.current, h.observed, r.current, rfl,
      Nat.le_refl _⟩
  | serve resp ctx request hx hserves =>
    rw [hx] at hasked
    obtain ⟨m, hm, hle⟩ := hasked
    refine ⟨r, rfl, h.current, h.observed, m, hm, ?_, ?_⟩
    · show m ≤ s.past.length
      rw [← h.current]
      exact hle
    · show s.past.length ≤ r.current
      rw [h.current]
  | fail resp ctx hx hfail => exact ⟨r, rfl, h.current, h.observed, hasked.some hx⟩
  | deliver ctx resp source c hx hfetch =>
    rw [hx] at hasked
    cases source with
    | none =>
      obtain ⟨m, hm⟩ := hasked
      refine ⟨{ r with asked := none },
        by simp [replicate, hx, Machine.run, Replica.step, hm], h.current, ?_, rfl⟩
      show r.observed = (s.delivered ++ []).map _
      rw [List.append_nil]
      exact h.observed
    | some d =>
      obtain ⟨m, hm, hle, hcur⟩ := hasked
      refine ⟨{ r with asked := none, observed := r.observed ++ [d.version] },
        by simp [replicate, hx, Machine.run, Replica.step, hm, hle, hcur], h.current, ?_, rfl⟩
      show r.observed ++ [d.version] = (s.delivered ++ [d]).map _
      rw [h.observed, List.map_append]
      rfl

/-! ## What holds of every run -/

theorem inv_initial {J : JsonLib} {P : StorageProvider σ} {tagOf : Bytes → Bytes}
    {config : ClientConfig} {storage : σ} {c : UnleashClient σ} (flags : HttpRequest → Bytes)
    (hmake : make P config storage = some c) (hconfig : NoIfNoneMatch config) :
    Inv J tagOf c.flagStore.snapshot (initial c flags) where
  header := (make_ifNoneMatch hconfig hmake).trans (make_paired (J := J) hmake).etag.symm
  tag := (make_paired (J := J) hmake).etag
  shows := rfl
  origin d hd := by cases hd
  underway := trivial

/-- `shows`: the client shows the flags of the last answer that had some; `origin`: that answer,
    and every other, is a body that the server had, in the version given; `order`: the versions
    never go back; `conditional`: the next request asks whether the body that decoded last is
    still the server's. -/
structure Synced (J : JsonLib) (tagOf : Bytes → Bytes) (initial : ToggleSet) (s : State σ) :
    Prop where
  shows : Shows J initial s.delivered s.client.flagStore.snapshot
  origin : ∀ d ∈ s.delivered, (s.flagsAt d.version).map (· d.request) = some d.body
  order : (s.delivered.map Delivery.version).Pairwise (· ≤ ·)
  conditional : s.client.ifNoneMatch = (lastTagged J s.delivered).map fun d => tagOf d.body

/-- Since `s₁` the client has had an answer, and its last one is the body that the server has now;
    if that has flags, then the client shows them. -/
def UpToDate (J : JsonLib) (s₁ s : State σ) : Prop :=
  s₁.delivered.length < s.delivered.length →
    ∃ d, s.delivered.getLast? = some d ∧ d.body = s.flags d.request ∧
      (hasFlags J d = true →
        decodeClientFeaturesResponse J (s.flags d.request) = .ok s.client.flagStore.snapshot)

/-- The answers since a point of a run at which no exchange was under way, if the server has not
    changed since. -/
theorem upToDate_of_quiet {J : JsonLib} {tagOf : Bytes → Bytes} {initial : ToggleSet}
    {s₁ s : State σ} {r₁ r : Replica.State} (h : Inv J tagOf initial s) (h₁ : Replicates s₁ r₁)
    (hr : Replicates s r) (hquiet : Replica.Quiet r₁ r) : UpToDate J s₁ s := by
  intro hmore
  obtain ⟨new, hnew, hcurrent⟩ := hquiet.observed
  rw [hr.observed, h₁.observed] at hnew
  -- the last answer is one of the new ones
  have hne : new ≠ [] := by
    rintro rfl
    have hlen := congrArg List.length hnew
    simp only [List.length_map, List.append_nil] at hlen
    omega
  obtain ⟨old, d, hd⟩ : ∃ old d, s.delivered = old ++ [d] := by
    rcases List.eq_nil_or_concat s.delivered with hnil | ⟨old, d, hd⟩
    · rw [hnil] at hmore
      cases hmore
    · exact ⟨old, d, by rw [hd, List.concat_eq_append]⟩
  have hversion : d.version = s.past.length := by
    obtain ⟨new', n, rfl⟩ : ∃ new' n, new = new' ++ [n] := by
      rcases List.eq_nil_or_concat new with hnil | ⟨new', n, hn⟩
      · exact absurd hnil hne
      · exact ⟨new', n, by rw [hn, List.concat_eq_append]⟩
    rw [hd, List.map_append, ← List.append_assoc] at hnew
    obtain ⟨-, hlast⟩ := List.append_inj' hnew rfl
    have hn : d.version = n := (List.cons.inj hlast).1
    rw [hn, hcurrent n (by simp), hr.current]
  have hbody : d.body = s.flags d.request := by
    have horigin := h.origin d (by rw [hd]; simp)
    rw [hversion, flagsAt_current] at horigin
    exact (Option.some.inj horigin).symm
  refine ⟨d, by rw [hd]; simp, hbody, fun hflags => ?_⟩
  have hshown : lastShown J s.delivered = some d := by
    rw [hd, lastShown, getLast_filter_snoc, if_pos hflags]
  have hshows := h.shows
  rw [Shows, hshown] at hshows
  rw [← hbody]
  exact hshows

/-- **A client keeps up with its server.**  In every run of the exchanges, whatever is lost and
    whenever the flags change: what the client shows is what the server had for the request, in
    versions that never go back; and if the server has not changed since a moment at which no
    exchange was under way, the first answer after that moment brings the client up to date. -/
theorem server_sync (J : JsonLib) (P : StorageProvider σ) (tagOf : Bytes → Bytes)
    (config : ClientConfig) (storage : σ) (c₀ : UnleashClient σ) (flags : HttpRequest → Bytes)
    (as : List Act) (s : State σ) (hmake : make P config storage = some c₀)
    (hconfig : NoIfNoneMatch config) (htags : ∀ a b, tagOf a = tagOf b → a = b)
    (hrun : Machine.run (step J P tagOf) (initial c₀ flags) as = some s) :
    Synced J tagOf c₀.flagStore.snapshot s ∧
    ∀ as₁ as₂ s₁, as = as₁ ++ as₂ →
      Machine.run (step J P tagOf) (initial c₀ flags) as₁ = some s₁ → s₁.exchange = .idle →
      (∀ flags, .change flags ∉ as₂) → UpToDate J s₁ s := by
  have hinv : Inv J tagOf c₀.flagStore.snapshot s :=
    Machine.run_inv (fun _ _ _ hu hv => inv_step htags hu hv) (inv_initial flags hmake hconfig)
      hrun
  have hinit : Replicates (initial c₀ flags) {} := ⟨rfl, rfl, rfl⟩
  have hsim := replicates J P tagOf
  constructor
  · obtain ⟨r, hr, hrep⟩ := hsim.run hinit hrun
    have hsorted := (Replica.observed_sorted hr).1
    rw [hrep.observed] at hsorted
    exact ⟨hinv.shows, hinv.origin, hsorted, hinv.header.trans hinv.tag⟩
  · rintro as₁ as₂ s₁ rfl hs₁ hidle hnochange
    obtain ⟨u, r₁, r, hu, -, hrep₁, hr, hrep⟩ := hsim.run_append hinit hrun
    obtain rfl : s₁ = u := Option.some.inj (hs₁.symm.trans hu)
    have hasked : r₁.asked = none := by
      have hasked := hrep₁.asked
      rw [hidle] at hasked
      exact hasked
    refine upToDate_of_quiet hinv hrep₁ hrep (Replica.observed_current hasked (fun hmem => ?_) hr)
    obtain ⟨a, ha, v, hpublish⟩ := Machine.mem_answers hmem
    cases a with
    | change flags => exact hnochange flags ha
    | send _ | serve _ | fail _ => simp [replicate] at hpublish
    | deliver =>
      simp only [replicate] at hpublish
      split at hpublish
      · cases List.mem_singleton.mp hpublish
      · cases List.mem_singleton.mp hpublish

/-! ## Four exchanges -/

/-- A tag that is the body in quotes. -/
def quoted (body : Bytes) : Bytes := 0x22 :: body

/-- The client has one flag when the server gets three. -/
def beforeChange : List Act :=
  [.send plainContext, .serve (okReply oneToggleText (quoted oneToggleText)), .deliver,
    .change fun _ => severalText]

/-- The first reply with them is lost on the way, the second one is not, and the third one only
    says that nothing has changed. -/
def afterChange : List Act :=
  [.send plainContext, .serve (okReply severalText (quoted severalText)), .fail .null, .deliver,
    .send plainContext, .serve (okReply severalText (quoted severalText)), .deliver,
    .send plainContext, .serve (.http { status := 304 }), .deliver]

set_option maxRecDepth 8000 in
theorem server_sync_lossy :
    ∃ s₁ s, Machine.run (step JsonText.compact localStorageProvider quoted)
        (initial freshClient fun _ => oneToggleText) beforeChange = some s₁ ∧
      Machine.run (step JsonText.compact localStorageProvider quoted)
        (initial freshClient fun _ => oneToggleText) (beforeChange ++ afterChange) = some s ∧
      s₁.client.flagStore.snapshot = oneToggleSet ∧ s.client.flagStore.snapshot = severalSet ∧
      s₁.delivered.length < s.delivered.length ∧
      Synced JsonText.compact quoted ToggleSet.empty s ∧ UpToDate JsonText.compact s₁ s := by
  obtain ⟨hsynced, hfresh⟩ := server_sync JsonText.compact localStorageProvider quoted
    (ClientConfig.make (bytes "u") (bytes "k") (bytes "app") []) () freshClient
    (fun _ => oneToggleText) (beforeChange ++ afterChange) _ make_freshClient ⟨by decide, nofun⟩
    (fun a b h => (List.cons.inj h).2) rfl
  refine ⟨_, _, rfl, rfl, rfl, rfl, by decide, hsynced,
    hfresh beforeChange afterChange _ rfl rfl rfl fun flags hmem => ?_⟩
  simp [afterChange] at hmem

end ServerSync

end Unleash
