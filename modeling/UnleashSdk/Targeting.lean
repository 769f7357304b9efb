/-
  TARGETING: from an update of the context to the flags for it.

  The polling thread and the exchanges with the server, put together.  A fetch of the thread is an
  exchange, for the copy of the context that the thread has taken:

      polling thread   ⋯ ─ take ─▶ testStoppedAgain c ─▶ fetch c ════════════════▶ testExit ─ ⋯
      exchange                                      idle ─▶ requested ─▶ answered ─▶ idle

  `updateContext` may come at any point of this, and so may a change of the server's flags.  A
  request that is on its way when the context is updated brings flags for the old context; the
  thread then has another fetch to make, for `_contextUpdated` is set.  So the question is what
  the client shows when the thread has come to rest: flags for the present context, and none that
  the server no longer had when the context was updated (`update_targeted`).
-/
import UnleashSdk.Polling
import UnleashSdk.ServerSync

set_option linter.unusedVariables false

namespace Unleash

namespace Targeting

open ServerSync (Delivery)
open UnleashClient

variable {σ : Type}

/-! ## The state -/

/-- A fetch that has returned: its context, the version that the server's flags had when the
    request was sent, and the answer of the server, if one came. -/
structure Fetch where
  ctx : Context
  sentAt : Nat
  answer : Option Delivery

/-- The polling thread and the exchange.  The records are the version at which the last request
    was sent, and the fetch that returned last. -/
structure State (σ : Type) where
  polling : Polling.State
  sync : ServerSync.State σ
  sentAt : Nat := 0
  last : Option Fetch := none

inductive Act where
  -- of the polling thread, of `updateContext` or of `stop()`
  | thread (a : Polling.Act)
  | send
  -- of the server or of the network
  | server (a : ServerSync.Act)
  | deliver

/-- The thread is in a fetch, with this context. -/
def fetching : Polling.Pc → Option Context
  | .fetch ctx => some ctx
  | _ => none

/-- The client has no part in it. -/
def isServers : ServerSync.Act → Bool
  | .change _ | .serve _ | .fail _ => true
  | .send _ | .deliver => false

/-! ## The steps -/

/-- A fetch begins with `send` and ends with `deliver`; the thread does nothing in between. -/
def step (J : JsonLib) (P : StorageProvider σ) (tagOf : Bytes → Bytes) (refreshEnabled : Bool)
    (s : State σ) : Act → Option (State σ)
  | .thread a =>
    if a.isPoll && (fetching s.polling.pc).isSome then none
    else (Polling.step refreshEnabled s.polling a).map fun p => { s with polling := p }
  | .send =>
    match fetching s.polling.pc with
    | none => none
    | some ctx =>
      (ServerSync.step J P tagOf s.sync (.send ctx)).map fun t =>
        { s with sync := t, sentAt := s.sync.past.length }
  | .server a =>
    if isServers a then
      (ServerSync.step J P tagOf s.sync a).map fun t => { s with sync := t }
    else none
  | .deliver =>
    match s.sync.exchange with
    | .answered ctx _ answer =>
      match ServerSync.step J P tagOf s.sync .deliver with
      | none => none
      | some t =>
        (Polling.step refreshEnabled s.polling .poll).map fun p =>
          { s with polling := p, sync := t, last := some ⟨ctx, s.sentAt, answer⟩ }
    | _ => none

/-- A client that has been started with this context, and a server with these flags. -/
def initial (client : UnleashClient σ) (ctx : Context) (flags : HttpRequest → Bytes) : State σ :=
  { polling := Polling.initial ctx, sync := ServerSync.initial client flags }

/-- Everything a step can do. -/
inductive Change (J : JsonLib) (P : StorageProvider σ) (tagOf : Bytes → Bytes)
    (refreshEnabled : Bool) (s : State σ) : Act → State σ → Prop where
  | thread (a : Polling.Act) (p : Polling.State)
    (hfree : a.isPoll = true → fetching s.polling.pc = none)
    (hp : Polling.step refreshEnabled s.polling a = some p) :
    Change J P tagOf refreshEnabled s (.thread a) { s with polling := p }
  | send (ctx : Context) (t : ServerSync.State σ) (hpc : s.polling.pc = .fetch ctx)
    (ht : ServerSync.step J P tagOf s.sync (.send ctx) = some t) :
    Change J P tagOf refreshEnabled s .send
      { s with sync := t, sentAt := s.sync.past.length }
  | server (a : ServerSync.Act) (t : ServerSync.State σ) (ha : isServers a = true)
    (ht : ServerSync.step J P tagOf s.sync a = some t) :
    Change J P tagOf refreshEnabled s (.server a) { s with sync := t }
  | deliver (ctx : Context) (resp : HttpReply) (answer : Option Delivery)
    (t : ServerSync.State σ) (p : Polling.State)
    (hx : s.sync.exchange = .answered ctx resp answer)
    (ht : ServerSync.step J P tagOf s.sync .deliver = some t)
    (hp : Polling.step refreshEnabled s.polling .poll = some p) :
    Change J P tagOf refreshEnabled s .deliver
      { s with polling := p, sync := t, last := some ⟨ctx, s.sentAt, answer⟩ }

theorem step_change {J : JsonLib} {P : StorageProvider σ} {tagOf : Bytes → Bytes}
    {refreshEnabled : Bool} {s s' : State σ} {a : Act}
    (h : step J P tagOf refreshEnabled s a = some s') :
    Change J P tagOf refreshEnabled s a s' := by
  cases a with
  | thread a =>
    simp only [step] at h
    split at h
    · cases h
    · rename_i hfree
      obtain ⟨p, hp, rfl⟩ := Option.map_eq_some_iff.mp h
      refine .thread a p (fun ha => ?_) hp
      rw [ha, Bool.true_and, Bool.not_eq_true, Option.isSome_eq_false_iff] at hfree
      exact Option.isNone_iff_eq_none.mp hfree
  | send =>
    simp only [step] at h
    split at h
    · cases h
    · rename_i ctx hctx
      obtain ⟨t, ht, rfl⟩ := Option.map_eq_some_iff.mp h
      refine .send ctx t ?_ ht
      cases hp : s.polling.pc with
      | fetch ctx' =>
        rw [hp] at hctx
        cases hctx
        rfl
      | _ => rw [hp] at hctx; cases hctx
  | server a =>
    simp only [step] at h
    split at h
    · rename_i ha
      obtain ⟨t, ht, rfl⟩ := Option.map_eq_some_iff.mp h
      exact .server a t ha ht
    · cases h
  | deliver =>
    simp only [step] at h
    split at h
    · rename_i ctx resp answer hx
      split at h
      · cases h
      · rename_i t ht
        obtain ⟨p, hp, rfl⟩ := Option.map_eq_some_iff.mp h
        exact .deliver ctx resp answer t p hx ht hp
    · cases h

/-! ## The request for a context -/

/-- The request with which a fetcher of this configuration asks for the flags of the context, but
    for the headers, which do not depend on it. -/
def RequestFor (J : JsonLib) (config : ClientConfig) (ctx : Context) (request : HttpRequest) :
    Prop :=
  ∃ f, (ToggleFetcher.make config).prepare J ctx = some f ∧ request.url = f.httpRequest.url ∧
    request.usePOSTrequests = f.httpRequest.usePOSTrequests ∧ request.body = f.httpRequest.body

/-- What a fetcher keeps of its configuration. -/
structure Configured (config : ClientConfig) (f : ToggleFetcher) : Prop where
  baseUrl : f.baseUrl = config.url
  usePOSTrequests : f.httpRequest.usePOSTrequests = config.usePostRequests
  url : config.usePostRequests = true → f.httpRequest.url = config.url

theorem configured_make (config : ClientConfig) : Configured config (ToggleFetcher.make config) :=
  ⟨rfl, rfl, fun _ => rfl⟩

theorem Configured.cacheIfAny {config : ClientConfig} {f : ToggleFetcher} (h : Configured config f)
    (etag : Option Bytes) : Configured config (f.cacheIfAny etag) := by
  cases etag with
  | none => exact h
  | some etag => exact ⟨h.baseUrl, h.usePOSTrequests, h.url⟩

/-- A fetcher asks as its configuration says, whatever it has asked before. -/
theorem Configured.prepare {J : JsonLib} {config : ClientConfig} {f g : ToggleFetcher}
    {ctx : Context} (h : Configured config f) (hg : f.prepare J ctx = some g) :
    Configured config g ∧ RequestFor J config ctx g.httpRequest := by
  unfold ToggleFetcher.prepare at hg
  rw [h.usePOSTrequests] at hg
  split at hg
  · rename_i hpost
    split at hg <;> cases hg
    rename_i body hbody
    refine ⟨⟨h.baseUrl, h.usePOSTrequests, h.url⟩, ?_⟩
    refine ⟨{ ToggleFetcher.make config with
      httpRequest := { (ToggleFetcher.make config).httpRequest with body := body } }, ?_,
      h.url hpost, h.usePOSTrequests, rfl⟩
    show ToggleFetcher.prepare J _ ctx = _
    unfold ToggleFetcher.prepare
    rw [(configured_make config).usePOSTrequests, if_pos hpost, hbody]
  · rename_i hpost
    cases hg
    refine ⟨⟨h.baseUrl, h.usePOSTrequests, fun hpost' => absurd hpost' hpost⟩, ?_⟩
    refine ⟨{ ToggleFetcher.make config with
      httpRequest := { (ToggleFetcher.make config).httpRequest with
        body := [], url := config.url ++ buildContextQuery ctx } }, ?_, ?_, h.usePOSTrequests, rfl⟩
    · unfold ToggleFetcher.prepare
      rw [(configured_make config).usePOSTrequests, if_neg hpost]
      rfl
    · show f.baseUrl ++ buildContextQuery ctx = config.url ++ buildContextQuery ctx
      rw [h.baseUrl]

theorem Configured.fetchStep {J : JsonLib} {P : StorageProvider σ} {config : ClientConfig}
    {c c' : UnleashClient σ} {a : Context × HttpReply} (h : Configured config c.toggleFetcher)
    (hstep : fetchStep J P c a = some c') : Configured config c'.toggleFetcher := by
  obtain ⟨f, events, hf, hfetched⟩ := fetchStep_fetched hstep
  obtain ⟨hconf, -⟩ := h.prepare hf
  cases hfetched with
  | rejected sdkState events _ _ => exact hconf
  | empty r t _ _ => exact hconf.cacheIfAny r.etag
  | updated r t storage _ _ _ => exact hconf.cacheIfAny r.etag

/-! ## The invariant -/

/-- What is under way: the thread is in the fetch, and the request is one for its context.  An
    answer is not older than the request. -/
def Underway (J : JsonLib) (config : ClientConfig) (s : State σ) : Prop :=
  match s.sync.exchange with
  | .idle => True
  | .requested ctx request => s.polling.pc = .fetch ctx ∧ RequestFor J config ctx request
  | .answered ctx _ answer => s.polling.pc = .fetch ctx ∧
    ∀ d, answer = some d → RequestFor J config ctx d.request ∧ s.sentAt ≤ d.version

/-- A fetch that has returned: an answer to it is the last one of all, it was asked for by a
    request for the context, and it is not older than that request. -/
def Returned (J : JsonLib) (config : ClientConfig) (s : State σ) (x : Fetch) : Prop :=
  ∀ d, x.answer = some d →
    RequestFor J config x.ctx d.request ∧ x.sentAt ≤ d.version ∧
      s.sync.delivered.getLast? = some d

structure Inv (J : JsonLib) (tagOf : Bytes → Bytes) (config : ClientConfig)
    (shown : ToggleSet) (s : State σ) : Prop where
  polling : Polling.Inv s.polling
  sync : ServerSync.Inv J tagOf shown s.sync
  configured : Configured config s.sync.client.toggleFetcher
  sent : s.sentAt ≤ s.sync.past.length
  underway : Underway J config s
  lastFetched : s.last.map Fetch.ctx = s.polling.lastFetched
  returned : ∀ x, s.last = some x → Returned J config s x

/-- While a fetch is under way, the thread is in it. -/
theorem Inv.fetching {J : JsonLib} {tagOf : Bytes → Bytes} {config : ClientConfig}
    {shown : ToggleSet} {s : State σ} (h : Inv J tagOf config shown s) {ctx : Context}
    (hx : s.sync.exchange.ctx = some ctx) : s.polling.pc = .fetch ctx := by
  have hunder := h.underway
  cases he : s.sync.exchange with
  | idle => rw [he] at hx; cases hx
  | requested ctx' request =>
    rw [he] at hx
    cases hx
    rw [Underway, he] at hunder
    exact hunder.1
  | answered ctx' resp answer =>
    rw [he] at hx
    cases hx
    rw [Underway, he] at hunder
    exact hunder.1

/-- Outside a fetch nothing is under way. -/
theorem Inv.idle {J : JsonLib} {tagOf : Bytes → Bytes} {config : ClientConfig}
    {shown : ToggleSet} {s : State σ} (h : Inv J tagOf config shown s)
    (hpc : Targeting.fetching s.polling.pc = none) : s.sync.exchange = .idle := by
  cases hx : s.sync.exchange.ctx with
  | some ctx =>
    rw [h.fetching hx] at hpc
    cases hpc
  | none =>
    cases he : s.sync.exchange with
    | idle => rfl
    | _ => rw [he] at hx; cases hx

/-- The thread fetches only with what `fetch` says. -/
theorem lastFetched_step {refreshEnabled : Bool} {p p' : Polling.State} {a : Polling.Act}
    (hfree : a.isPoll = true → fetching p.pc = none)
    (h : Polling.step refreshEnabled p a = some p') : p'.lastFetched = p.lastFetched := by
  cases Polling.step_change h with
  | poll _ hc =>
    have hnone := hfree rfl
    generalize p.pc = q at hc hnone
    cases hc with
    | fetch ctx => cases hnone
    | _ => rfl
  | _ => rfl

/-- Another thread leaves a fetch alone. -/
theorem fetch_step {refreshEnabled : Bool} {p p' : Polling.State} {a : Polling.Act} {ctx : Context}
    (hfree : a.isPoll = true → fetching p.pc = none)
    (h : Polling.step refreshEnabled p a = some p') (hp : p.pc = .fetch ctx) :
    p'.pc = .fetch ctx := by
  cases ha : a.isPoll with
  | true =>
    have hnone := hfree ha
    rw [hp] at hnone
    cases hnone
  | false =>
    rcases (Polling.step_other ha h).1 with hsame | ⟨hblocked, -⟩
    · exact hsame.trans hp
    · rw [hp] at hblocked
      cases hblocked

/-- The end of a fetch. -/
theorem fetch_returns {refreshEnabled : Bool} {p p' : Polling.State} {ctx : Context}
    (h : Polling.step refreshEnabled p .poll = some p') (hp : p.pc = .fetch ctx) :
    p' = { p with lastFetched := some ctx, pc := .testExit } := by
  have hc : Polling.PollChange refreshEnabled p (.fetch ctx) p' := hp ▸ Polling.pollStep_change h
  cases hc
  rfl

/-- **Step lemma** for the server and the network. -/
theorem inv_server {J : JsonLib} {P : StorageProvider σ} {tagOf : Bytes → Bytes}
    {config : ClientConfig} {shown : ToggleSet} {s : State σ} {a : ServerSync.Act}
    {t : ServerSync.State σ} (h : Inv J tagOf config shown s)
    (hsync : ServerSync.Inv J tagOf shown t) (ha : isServers a = true)
    (ht : ServerSync.Change J P tagOf s.sync a t) :
    Inv J tagOf config shown { s with sync := t } := by
  have hunder := h.underway
  cases ht with
  | change flags =>
    refine ⟨h.polling, hsync, h.configured, ?_, ?_, h.lastFetched, h.returned⟩
    · show s.sentAt ≤ (s.sync.past ++ [s.sync.flags]).length
      rw [List.length_append, List.length_singleton]
      exact Nat.le_succ_of_le h.sent
    · unfold Underway at hunder ⊢
      exact hunder
  | serve resp ctx request hx hserves =>
    rw [Underway, hx] at hunder
    refine ⟨h.polling, hsync, h.configured, h.sent, ⟨hunder.1, fun d hd => ?_⟩, h.lastFetched,
      h.returned⟩
    cases hd
    exact ⟨hunder.2, h.sent⟩
  | fail resp ctx hx hfail =>
    exact ⟨h.polling, hsync, h.configured, h.sent, ⟨h.fetching hx, nofun⟩, h.lastFetched,
      h.returned⟩
  | send ctx f hx hf => cases ha
  | deliver ctx resp answer c hx hfetch => cases ha

/-- **Step lemma.** -/
theorem inv_step {J : JsonLib} {P : StorageProvider σ} {tagOf : Bytes → Bytes}
    {config : ClientConfig} {shown : ToggleSet} {refreshEnabled : Bool}
    (htags : ∀ a b, tagOf a = tagOf b → a = b) {s s' : State σ} {a : Act}
    (h : Inv J tagOf config shown s) (hstep : step J P tagOf refreshEnabled s a = some s') :
    Inv J tagOf config shown s' := by
  have hunder := h.underway
  cases step_change hstep with
  | thread a p hfree hp =>
    refine ⟨Polling.inv_step h.polling hp, h.sync, h.configured, h.sent, ?_,
      h.lastFetched.trans (lastFetched_step hfree hp).symm, h.returned⟩
    cases hx : s.sync.exchange with
    | idle =>
      show Underway J config { s with polling := p }
      unfold Underway
      rw [hx]
      trivial
    | requested ctx request =>
      unfold Underway at hunder ⊢
      rw [hx] at hunder ⊢
      exact ⟨fetch_step hfree hp hunder.1, hunder.2⟩
    | answered ctx resp answer =>
      unfold Underway at hunder ⊢
      rw [hx] at hunder ⊢
      exact ⟨fetch_step hfree hp hunder.1, hunder.2⟩
  | send ctx t hpc ht =>
    have hsync := ServerSync.inv_step htags h.sync ht
    cases ServerSync.step_change ht with
    | send ctx f hx hf =>
      obtain ⟨-, hrequest⟩ := h.configured.prepare hf
      exact ⟨h.polling, hsync, h.configured, Nat.le_refl _, ⟨hpc, hrequest⟩, h.lastFetched,
        h.returned⟩
  | server a t ha ht =>
    exact inv_server h (ServerSync.inv_step htags h.sync ht) ha (ServerSync.step_change ht)
  | deliver ctx resp answer t p hx ht hp =>
    have hsync := ServerSync.inv_step htags h.sync ht
    rw [Underway, hx] at hunder
    obtain ⟨hpc, hanswer⟩ := hunder
    cases ServerSync.step_change ht with
    | deliver ctx' resp' answer' c hx' hfetch =>
      cases hx.symm.trans hx'
      refine ⟨Polling.inv_step h.polling hp, hsync, h.configured.fetchStep hfetch, h.sent,
        trivial, ?_, fun x hx d hd => ?_⟩
      · rw [fetch_returns hp hpc]
        rfl
      · cases hx
        have hd : answer = some d := hd
        subst hd
        obtain ⟨hrequest, hsent⟩ := hanswer d rfl
        exact ⟨hrequest, hsent, List.getLast?_concat⟩

theorem inv_initial {J : JsonLib} {P : StorageProvider σ} {tagOf : Bytes → Bytes}
    {config : ClientConfig} {storage : σ} {c : UnleashClient σ} (ctx : Context)
    (flags : HttpRequest → Bytes) (hmake : make P config storage = some c)
    (hconfig : NoIfNoneMatch config) :
    Inv J tagOf config c.flagStore.snapshot (initial c ctx flags) where
  polling := Polling.inv_initial ctx
  sync := ServerSync.inv_initial flags hmake hconfig
  configured := by
    show Configured config c.toggleFetcher
    rw [make_toggleFetcher hmake]
    exact configured_make config
  sent := Nat.le_refl _
  underway := trivial
  lastFetched := rfl
  returned x hx := by cases hx

/-! ## Since an update -/

/-- Where the thread is, after a moment at which the server had the version `v`: a copy was taken
    since that is yet to be fetched with, or the request made with it is not older than `v`. -/
def CoveredAt (v : Nat) (exchange : ServerSync.Exchange) (sentAt : Nat) (last : Option Fetch) :
    Polling.Pc → Prop
  | .testStoppedAgain _ | .returned => True
  | .fetch _ => exchange = .idle ∨ v ≤ sentAt
  | _ => ∃ x, last = some x ∧ v ≤ x.sentAt

/-- Either the flag is set, or the update has been seen to. -/
def Covered (v : Nat) (s : State σ) : Prop :=
  s.polling.contextUpdated = true ∨
    CoveredAt v s.sync.exchange s.sentAt s.last s.polling.pc

/-- The versions of the server's flags only grow. -/
theorem past_step {J : JsonLib} {P : StorageProvider σ} {tagOf : Bytes → Bytes}
    {refreshEnabled : Bool} {s s' : State σ} {a : Act}
    (h : step J P tagOf refreshEnabled s a = some s') :
    s.sync.past.length ≤ s'.sync.past.length := by
  have hsync : ∀ {b t}, ServerSync.step J P tagOf s.sync b = some t →
      s.sync.past.length ≤ t.past.length := by
    intro b t ht
    cases ServerSync.step_change ht with
    | change flags =>
      show s.sync.past.length ≤ (s.sync.past ++ [s.sync.flags]).length
      rw [List.length_append]
      exact Nat.le_add_right _ _
    | _ => exact Nat.le_refl _
  cases step_change h with
  | thread a p hfree hp => exact Nat.le_refl _
  | send ctx t hpc ht => exact hsync ht
  | server a t ha ht => exact hsync ht
  | deliver ctx resp answer t p hx ht hp => exact hsync ht

/-- The steps of the polling thread outside a fetch: it clears the flag only where it takes a
    copy. -/
theorem covered_poll {refreshEnabled : Bool} {v sentAt : Nat} {last : Option Fetch}
    {p p' : Polling.State} {pc : Polling.Pc} (hc : Polling.PollChange refreshEnabled p pc p')
    (hnone : fetching pc = none)
    (h : p.contextUpdated = true ∨ CoveredAt v .idle sentAt last pc) :
    p'.contextUpdated = true ∨ CoveredAt v .idle sentAt last p'.pc := by
  cases hc with
  | fetch ctx => cases hnone
  | take => exact Or.inr trivial
  | initialSnapshot => exact h.imp_right fun _ => Or.inl rfl
  | stopped hexit => exact Or.inr trivial
  | testStoppedAgain ctx =>
    refine Or.inr ?_
    show CoveredAt v .idle sentAt last (if p.exitThreads then .returned else .fetch ctx)
    split
    · trivial
    · exact Or.inl rfl
  | testEnabled =>
    refine h.imp_right fun h => ?_
    show CoveredAt v .idle sentAt last (if refreshEnabled then .initialSnapshot else .returned)
    split
    · exact h
    · trivial
  | testExit =>
    refine h.imp_right fun h => ?_
    show CoveredAt v .idle sentAt last (if p.exitThreads then .returned else .lock)
    split
    · trivial
    · exact h
  | predicate =>
    refine h.imp_right fun h => ?_
    show CoveredAt v .idle sentAt last
      (if p.exitThreads || p.contextUpdated then .testStopped else .block)
    split
    · exact h
    · exact h
  | woken timedOut =>
    refine h.imp_right fun h => ?_
    cases timedOut with
    | true => exact h
    | false => exact h
  | lock | block | notStopped hexit => exact h

/-- Another thread moves the polling thread at most out of its sleep. -/
theorem covered_other {v sentAt : Nat} {exchange : ServerSync.Exchange} {last : Option Fetch}
    {q q' : Polling.Pc} (hq : q' = q ∨ q = .blocked ∧ ∃ timedOut, q' = .woken timedOut)
    (h : CoveredAt v exchange sentAt last q) : CoveredAt v exchange sentAt last q' := by
  rcases hq with rfl | ⟨rfl, timedOut, rfl⟩
  · exact h
  · exact h

/-- The server and the network neither begin nor end a fetch. -/
theorem exchange_server {J : JsonLib} {P : StorageProvider σ} {tagOf : Bytes → Bytes}
    {s t : ServerSync.State σ} {a : ServerSync.Act} (ha : isServers a = true)
    (h : ServerSync.Change J P tagOf s a t) : s.exchange = .idle → t.exchange = .idle := by
  intro hidle
  cases h with
  | change flags => exact hidle
  | serve resp ctx request hx _ => cases hidle.symm.trans hx
  | fail resp ctx hx _ =>
    rw [hidle] at hx
    cases hx
  | send | deliver => cases ha

/-- **Step lemma.** -/
theorem covered_step {J : JsonLib} {P : StorageProvider σ} {tagOf : Bytes → Bytes}
    {config : ClientConfig} {shown : ToggleSet} {refreshEnabled : Bool} {v : Nat} {s s' : State σ}
    {a : Act} (hinv : Inv J tagOf config shown s) (hv : a = .send → v ≤ s.sync.past.length)
    (h : Covered v s) (hstep : step J P tagOf refreshEnabled s a = some s') : Covered v s' := by
  cases step_change hstep with
  | thread a p hfree hp =>
    cases ha : a.isPoll with
    | true =>
      obtain rfl : a = .poll := by
        cases a with
        | poll => rfl
        | _ => cases ha
      have hnone := hfree rfl
      have hidle := hinv.idle hnone
      unfold Covered at h ⊢
      rw [hidle] at h
      show p.contextUpdated = true ∨ CoveredAt v s.sync.exchange s.sentAt s.last p.pc
      rw [hidle]
      exact covered_poll (Polling.pollStep_change hp) hnone h
    | false =>
      obtain ⟨hpc, hflag, -⟩ := Polling.step_other ha hp
      exact h.imp hflag fun h => covered_other hpc h
  | send ctx t hpc ht =>
    refine h.imp_right fun _ => ?_
    show CoveredAt v t.exchange s.sync.past.length s.last s.polling.pc
    rw [hpc]
    exact Or.inr (hv rfl)
  | server a t ha ht =>
    refine h.imp_right fun h => ?_
    show CoveredAt v t.exchange s.sentAt s.last s.polling.pc
    have hidle := exchange_server ha (ServerSync.step_change ht)
    cases hp : s.polling.pc with
    | fetch ctx =>
      rw [hp] at h
      exact h.imp_left hidle
    | _ => rw [hp] at h; exact h
  | deliver ctx resp answer t p hx ht hp =>
    -- the fetch that ends here was under way
    have hpc : s.polling.pc = .fetch ctx := hinv.fetching (by rw [hx]; rfl)
    obtain rfl := fetch_returns hp hpc
    refine h.imp_right fun h => ?_
    rw [hpc, hx] at h
    rcases h with hidle | hsent
    · cases hidle
    · exact ⟨_, rfl, hsent⟩

/-- **Run lemma.** -/
theorem covered_run {J : JsonLib} {P : StorageProvider σ} {tagOf : Bytes → Bytes}
    {config : ClientConfig} {shown : ToggleSet} {refreshEnabled : Bool}
    (htags : ∀ a b, tagOf a = tagOf b → a = b) {v : Nat} {s s' : State σ} {as : List Act}
    (hinv : Inv J tagOf config shown s) (hv : .send ∈ as → v ≤ s.sync.past.length)
    (h : Covered v s) (hrun : Machine.run (step J P tagOf refreshEnabled) s as = some s') :
    Covered v s' := by
  refine (Machine.run_history (I := fun t bs => (Act.send ∈ bs → v ≤ s.sync.past.length) →
    Inv J tagOf config shown t ∧ s.sync.past.length ≤ t.sync.past.length ∧ Covered v t)
    (fun _ => ⟨hinv, Nat.le_refl _, h⟩) ?_ hrun hv).2.2
  intro bs u a w _ ih hw hbs
  obtain ⟨hu, hle, hcov⟩ := ih fun hmem => hbs (List.mem_append_left _ hmem)
  refine ⟨inv_step htags hu hw, hle.trans (past_step hw), covered_step hu (fun ha => ?_) hcov hw⟩
  exact (hbs (by rw [ha]; simp)).trans hle

/-! ## What holds of every run -/

/-- The mutable fields that a step puts into the context. -/
def Act.update : Act → Option MutableContext
  | .thread a => a.update
  | _ => none

/-- The updates of a run, in the order of their critical sections. -/
def updates (as : List Act) : List MutableContext := as.filterMap Act.update

theorem updates_snoc (as : List Act) (a : Act) :
    updates (as ++ [a]) = updates as ++ a.update.toList := by
  unfold updates
  rw [List.filterMap_append]
  cases h : a.update <;> simp [h]

/-- The context changes with its updates only. -/
theorem context_step {J : JsonLib} {P : StorageProvider σ} {tagOf : Bytes → Bytes}
    {refreshEnabled : Bool} {s s' : State σ} {a : Act}
    (h : step J P tagOf refreshEnabled s a = some s') :
    s'.polling.context =
      a.update.toList.foldl Context.updateMutableContext s.polling.context := by
  cases step_change h with
  | thread a p hfree hp => exact Polling.context_step hp
  | send | server => rfl
  | deliver ctx resp answer t p hx ht hp => exact Polling.context_step hp

/-- The thread waits, and nothing tells it to fetch. -/
def Resting (s : State σ) : Prop :=
  s.polling.pc.waiting = true ∧ s.polling.contextUpdated = false

/-- A thread that rests has fetched. -/
theorem Inv.fetched {J : JsonLib} {tagOf : Bytes → Bytes} {config : ClientConfig}
    {shown : ToggleSet} {s : State σ} (h : Inv J tagOf config shown s) (hrest : Resting s) :
    ∃ x, s.last = some x ∧ x.ctx = s.polling.context := by
  have hloc := h.polling.located
  obtain ⟨hwait, hflag⟩ := hrest
  obtain ⟨hsome, hfetched⟩ : s.polling.lastSnapshot.isSome = true ∧
      s.polling.lastFetched = s.polling.lastSnapshot := by
    cases hp : s.polling.pc with
    | predicate | block | blocked | woken => rw [hp] at hloc; exact hloc
    | _ => rw [hp] at hwait; cases hwait
  obtain ⟨c, hc⟩ := Option.isSome_iff_exists.mp hsome
  have hlast := h.lastFetched
  rw [hfetched, hc] at hlast
  obtain ⟨x, hx, hctx⟩ := Option.map_eq_some_iff.mp hlast
  refine ⟨x, hx, ?_⟩
  -- a clear flag says that the last copy is up to date
  by_contra hne
  have hset := h.polling.updated c hc fun heq => hne (hctx.trans heq.symm)
  rw [hflag] at hset
  cases hset

/-- `context`: `_context` has had every update; `resting`: a thread that rests has fetched last
    with this context; `answered`: the answer to the last fetch is the body that the server had,
    in a version that is not older than the request, for the request for that context, and if it
    has flags, then they are what the client shows. -/
structure Targeted (J : JsonLib) (config : ClientConfig) (ctx : Context) (as : List Act)
    (s : State σ) : Prop where
  context : s.polling.context = (updates as).foldl Context.updateMutableContext ctx
  resting : Resting s → ∃ x, s.last = some x ∧ x.ctx = s.polling.context
  answered : ∀ x d, s.last = some x → x.answer = some d → RequestFor J config x.ctx d.request ∧
    x.sentAt ≤ d.version ∧ (s.sync.flagsAt d.version).map (· d.request) = some d.body ∧
    (ServerSync.hasFlags J d = true →
      decodeClientFeaturesResponse J d.body = .ok s.sync.client.flagStore.snapshot)

/-- At rest the last fetch covers what is covered. -/
theorem Covered.resting {v : Nat} {s : State σ} (h : Covered v s) (hrest : Resting s) {x : Fetch}
    (hx : s.last = some x) : v ≤ x.sentAt := by
  rcases h with hflag | hat
  · rw [hrest.2] at hflag
    cases hflag
  · have hwait := hrest.1
    cases hp : s.polling.pc with
    | predicate | block | blocked | woken =>
      rw [hp] at hat
      obtain ⟨x', hx', hle⟩ := hat
      cases hx.symm.trans hx'
      exact hle
    | _ => rw [hp] at hwait; cases hwait

/-- **The flags are those of the context.**  In every run, however the updates of the context and
    of the server's flags fall: a thread that rests has asked last with the context that all
    updates have made, and the client shows the answer.  The thread has sent a request after each
    of the updates, so the answer is no older than the flags that the server had at the update. -/
theorem update_targeted (J : JsonLib) (P : StorageProvider σ) (tagOf : Bytes → Bytes)
    (config : ClientConfig) (storage : σ) (c₀ : UnleashClient σ) (ctx : Context)
    (flags : HttpRequest → Bytes) (as : List Act) (s : State σ)
    (hmake : make P config storage = some c₀) (hconfig : NoIfNoneMatch config)
    (htags : ∀ a b, tagOf a = tagOf b → a = b)
    (hrun : Machine.run (step J P tagOf config.isRefreshEnabled) (initial c₀ ctx flags) as =
      some s) :
    Targeted J config ctx as s ∧
    ∀ as₁ u mutableContext as₂ s₁, as = as₁ ++ .thread (.updateContext u mutableContext) :: as₂ →
      Machine.run (step J P tagOf config.isRefreshEnabled) (initial c₀ ctx flags) as₁ = some s₁ →
      Resting s → .send ∈ as₂ ∧ ∃ x, s.last = some x ∧ x.ctx = s.polling.context ∧
        s₁.sync.past.length ≤ x.sentAt := by
  have hinv : ∀ {bs t}, Machine.run (step J P tagOf config.isRefreshEnabled)
      (initial c₀ ctx flags) bs = some t → Inv J tagOf config c₀.flagStore.snapshot t :=
    Machine.run_inv (fun _ _ _ hu hv => inv_step htags hu hv) (inv_initial ctx flags hmake hconfig)
  have hs := hinv hrun
  constructor
  · refine ⟨?_, hs.fetched, fun x d hx hd => ?_⟩
    · refine Machine.run_history (I := fun s as => s.polling.context =
        (updates as).foldl Context.updateMutableContext ctx) rfl ?_ hrun
      intro as s a s' _ ih h
      rw [context_step h, ih, updates_snoc, List.foldl_append]
    · obtain ⟨hrequest, hsent, hlast⟩ := hs.returned x hx d hd
      refine ⟨hrequest, hsent, hs.sync.origin d (List.mem_of_getLast? hlast), fun hflags => ?_⟩
      have hshown : ServerSync.lastShown J s.sync.delivered = some d := by
        obtain ⟨ds, hds⟩ := List.getLast?_eq_some_iff.mp hlast
        rw [hds, ServerSync.lastShown, ServerSync.getLast_filter_snoc, if_pos hflags]
      have hshows := hs.sync.shows
      rw [ServerSync.Shows, hshown] at hshows
      exact hshows
  · rintro as₁ u mutableContext as₂ s₁ rfl hs₁ hrest
    obtain ⟨s₁', hs₁', hrun'⟩ := Machine.run_append.mp hrun
    obtain rfl : s₁ = s₁' := Option.some.inj (hs₁.symm.trans hs₁')
    obtain ⟨t, ht, hrun''⟩ := Machine.run_cons_some hrun'
    obtain ⟨x, hx, hctx⟩ := hs.fetched hrest
    -- the update sets the flag, so every version is covered until the next request is sent
    have hcovered : ∀ v, (.send ∈ as₂ → v ≤ t.sync.past.length) → v ≤ x.sentAt := by
      intro v hv
      have hflag : Covered v t := by
        refine Or.inl ?_
        cases step_change ht with
        | thread a p hfree hp =>
          cases Polling.step_change hp with
          | updateContext => rfl
      exact (covered_run htags (inv_step htags (hinv hs₁) ht) hv hflag hrun'').resting hrest hx
    refine ⟨?_, x, hx, hctx, hcovered _ fun _ => past_step ht⟩
    by_contra hnever
    exact absurd (hcovered (x.sentAt + 1) fun hsend => absurd hsend hnever)
      (Nat.not_succ_le_self _)

/-! ## An update during a fetch -/

/-- The first request is on its way when the server's flags change and the user logs in; the thread
    asks again. -/
def loginRun : List Act :=
  [.thread .poll, .thread .poll, .send, .server (.change fun _ => severalText)] ++
  .thread (.updateContext 0 (plainContext.mutableContext.setUserId (bytes "u"))) ::
  ([.server (.serve (okReply severalText (ServerSync.quoted severalText))), .deliver] ++
    List.replicate 6 (.thread .poll) ++
    [.send, .server (.serve (.http { status := 304 })), .deliver, .thread .poll, .thread .poll])

set_option maxRecDepth 8000 in
/-- The last request was sent when the server had the changed flags. -/
theorem update_targeted_login :
    ∃ s, Machine.run (step JsonText.compact localStorageProvider ServerSync.quoted true)
        (initial freshClient plainContext fun _ => oneToggleText) loginRun = some s ∧
      Targeted JsonText.compact (ClientConfig.make (bytes "u") (bytes "k") (bytes "app") [])
        plainContext loginRun s ∧
      ∃ x, s.last = some x ∧ x.ctx = s.polling.context ∧ 1 ≤ x.sentAt := by
  obtain ⟨htargeted, hupdate⟩ := update_targeted JsonText.compact localStorageProvider
    ServerSync.quoted (ClientConfig.make (bytes "u") (bytes "k") (bytes "app") []) () freshClient
    plainContext (fun _ => oneToggleText) loginRun _ make_freshClient ⟨by decide, nofun⟩
    (fun a b h => (List.cons.inj h).2) rfl
  exact ⟨_, rfl, htargeted, (hupdate _ _ _ _ _ rfl rfl ⟨rfl, rfl⟩).2⟩

end Targeting

end Unleash
