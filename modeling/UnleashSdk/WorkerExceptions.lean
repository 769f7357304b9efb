/-
  EXCEPTIONS OF THE WORKERS.

  Neither worker catches anything, so an exception ends the program.  The printer of JSON throws
  on a string that is not UTF-8, and two encoders run on the workers:

    * a POST fetch prints the context that the polling thread has copied;
    * a report prints the application name, the instance id and every flag and variant name that
      was recorded.

  The setters accept all bytes, and so does a GET fetch, which percent-encodes them.  `Encodable`
  says of a step that what it prints is UTF-8; a run ends without an exception exactly if all its
  steps are (`no_exception_iff`).  The HTTP client and the storage provider do not throw.
-/
import Mathlib.Logic.Function.Basic
import UnleashSdk.FlagUpdates
import UnleashSdk.MetricsThread

set_option linter.unusedVariables false

namespace Unleash

/-- A provider that does not throw. -/
def StorageProvider.NeverThrows {σ : Type} (P : StorageProvider σ) : Prop :=
  ∀ storage s, ∃ storage', P.save storage s = .ok storage'

/-! ## Evaluations -/

namespace UnleashClient

variable {σ : Type}

/-- `start()` declares a client ready that has flags. -/
def startReady (c : UnleashClient σ) : UnleashClient σ :=
  { c with ready := c.ready || c.flagStore.ready }

/-- The metric that `isEnabled` records, if it records one. -/
def isEnabledMetric (c : UnleashClient σ) (flagName : Bytes) : Option Evaluation :=
  if !c.ready then none
  else
    let toggleSet := c.flagStore.snapshot
    if !toggleSet.contains flagName then none
    else some (.enable flagName (toggleSet.isEnabled flagName))

/-- The metric that `getVariant` records, if it records one. -/
def getVariantMetric (c : UnleashClient σ) (flagName : Bytes) : Option Evaluation :=
  if !c.ready then none
  else
    let toggleSet := c.flagStore.snapshot
    if !toggleSet.contains flagName then none
    else
      some (.variant flagName (toggleSet.isEnabled flagName) (toggleSet.getVariant flagName).name)

end UnleashClient

/-! ## The machine -/

namespace Workers

variable {σ : Type}

/-- Where the polling thread is: between two fetches, or with a copy of the context. -/
inductive PollPc where
  | idle
  | fetching (ctx : Context)
  | threw

def PollPc.isThrew : PollPc → Bool
  | .threw => true
  | _ => false

/-- Both workers with what they share with the application: `recording t` is the metric that the
    call of thread `t` has computed and not yet recorded. -/
structure State (σ : Type) where
  client : UnleashClient σ
  context : Context
  polling : PollPc := .idle
  metrics : MetricsThread.State
  recording : Nat → Option Evaluation := fun _ => none

inductive Act where
  | updateContext (mutableContext : MutableContext)
  | isEnabled (t : Nat) (flagName : Bytes)
  | getVariant (t : Nat) (flagName : Bytes)
  | record (t : Nat)
  | snapshot
  | fetch (resp : HttpReply)
  | metrics (a : MetricsThread.Act)

/-- An exception has left a worker. -/
def State.threw (s : State σ) : Bool :=
  s.polling.isThrew || match s.metrics.pc with | .threw => true | _ => false

/-- The polling thread fetches with its copy. -/
def fetch (J : JsonLib) (P : StorageProvider σ) (s : State σ) (resp : HttpReply) :
    Option (State σ) :=
  match s.polling with
  | .fetching ctx =>
    match s.client.singleFetchToggles J P ctx resp with
    | none => some { s with polling := .threw }
    | some (client, _) => some { s with client := client, polling := .idle }
  | _ => none

/-- One step; after an exception there are none. -/
def step (J : JsonLib) (P : StorageProvider σ) (config : ClientConfig) (s : State σ) (a : Act) :
    Option (State σ) :=
  if s.threw then none
  else
    match a with
    | .updateContext mutableContext =>
      some { s with context := s.context.updateMutableContext mutableContext }
    | .isEnabled t flagName =>
      if (s.recording t).isSome then none
      else
        some { s with
          recording := Function.update s.recording t (s.client.isEnabledMetric flagName) }
    | .getVariant t flagName =>
      if (s.recording t).isSome then none
      else
        some { s with
          recording := Function.update s.recording t (s.client.getVariantMetric flagName) }
    | .record t =>
      match s.recording t with
      | none => none
      | some e =>
        (MetricsThread.step J s.metrics (.add e)).map fun metrics =>
          { s with metrics := metrics, recording := Function.update s.recording t none }
    | .snapshot =>
      match s.polling with
      | .idle =>
        if config.isRefreshEnabled then some { s with polling := .fetching s.context } else none
      | _ => none
    | .fetch resp => fetch J P s resp
    | .metrics a =>
      if config.isMetricsEnabled && a.evaluation.isNone then
        (MetricsThread.step J s.metrics a).map fun metrics => { s with metrics := metrics }
      else none

/-- A client that has been started with this context. -/
def initial (config : ClientConfig) (client : UnleashClient σ) (ctx : Context) (nowMs : Int64) :
    State σ :=
  { client := client.startReady, context := ctx,
    metrics := MetricsThread.initial config.appName config.instanceId nowMs }

/-- What the step prints is UTF-8: the copy of a POST fetch, the names of a report. -/
def Encodable (config : ClientConfig) (s : State σ) : Act → Prop
  | .fetch _ =>
    ∀ ctx, s.polling = .fetching ctx → config.usePostRequests = true → ctx.utf8 = true
  | .metrics (.toJsonMetricsPayload _) => s.metrics.store.utf8 = true
  | _ => True

/-! ## One step -/

/-- A report is built only from a store that holds something, and the fetcher posts if the
    configuration says so. -/
structure Sound (config : ClientConfig) (s : State σ) : Prop where
  post : s.client.toggleFetcher.httpRequest.usePOSTrequests = config.usePostRequests
  report : s.metrics.pc = .toPayload → s.metrics.store.empty = false

/-- A fetch keeps its method. -/
theorem fetched_post {J : JsonLib} {P : StorageProvider σ} {c c' : UnleashClient σ}
    {ctx : Context} {resp : HttpReply} {events : List ClientEvent}
    (h : c.singleFetchToggles J P ctx resp = some (c', events)) :
    c'.toggleFetcher.httpRequest.usePOSTrequests =
      c.toggleFetcher.httpRequest.usePOSTrequests := by
  obtain ⟨f, hf, hfetched⟩ := UnleashClient.singleFetchToggles_fetched h
  obtain ⟨-, -, hpost⟩ := ToggleFetcher.prepare_frame hf
  rw [← hpost]
  cases hfetched with
  | rejected _ _ _ _ => rfl
  | empty r _ _ _ => cases hr : r.etag <;> rfl
  | updated r _ _ _ _ _ => cases hr : r.etag <;> rfl

/-- A fetch throws exactly if it posts a context that is not UTF-8. -/
theorem fetch_none_iff (J : JsonLib) {P : StorageProvider σ} (hP : P.NeverThrows)
    (c : UnleashClient σ) (ctx : Context) (resp : HttpReply) :
    c.singleFetchToggles J P ctx resp = none ↔
      c.toggleFetcher.httpRequest.usePOSTrequests = true ∧ ctx.utf8 = false := by
  constructor
  · intro h
    rcases UnleashClient.singleFetchToggles_none h with hpost | ⟨toggles, storage, hsave⟩
    · exact hpost
    · obtain ⟨storage', hok⟩ := hP c.storage toggles
      rw [hok] at hsave
      cases hsave
  · rintro ⟨hpost, hutf8⟩
    have hiff := c.toggleFetcher.prepare_isSome J ctx
    rw [hpost, hutf8] at hiff
    have hprepare : c.toggleFetcher.prepare J ctx = none := by simpa using hiff
    simp only [UnleashClient.singleFetchToggles, ToggleFetcher.fetch, hprepare]

/-- What the metrics thread and the recording calls do: only the printing of a report throws, and
    only for a name that is not UTF-8. -/
theorem metrics_change {J : JsonLib} {s t : MetricsThread.State} {a : MetricsThread.Act}
    (hpc : s.pc = .toPayload → s.store.empty = false) (hs : s.pc ≠ .threw)
    (h : MetricsThread.Change J s a t) :
    (t.pc = .toPayload → t.store.empty = false) ∧
      (t.pc = .threw ↔ ∃ nowMs, a = .toJsonMetricsPayload nowMs ∧ s.store.utf8 = false) := by
  -- every other step leaves the thread where it has not thrown
  have hquiet : (∀ nowMs, a ≠ .toJsonMetricsPayload nowMs) → t.pc ≠ .threw →
      (t.pc = .threw ↔ ∃ nowMs, a = .toJsonMetricsPayload nowMs ∧ s.store.utf8 = false) := by
    intro ha ht
    refine ⟨fun h => absurd h ht, ?_⟩
    rintro ⟨nowMs, h, -⟩
    exact absurd h (ha nowMs)
  cases h with
  | add e =>
    exact ⟨fun _ => s.store.list.add_not_empty e, hquiet (fun _ h => (by cases h)) hs⟩
  | testEmpty hidle he =>
    exact ⟨fun h => (by cases h), hquiet (fun _ h => (by cases h)) (fun h => (by cases h))⟩
  | testFull hidle he =>
    exact ⟨fun _ => he, hquiet (fun _ h => (by cases h)) (fun h => (by cases h))⟩
  | resetEmpty nowMs hpc' =>
    exact ⟨fun h => (by cases h), hquiet (fun _ h => (by cases h)) (fun h => (by cases h))⟩
  | payload nowMs body hpayload hbody =>
    refine ⟨fun h => (by cases h), fun h => (by cases h), ?_⟩
    rintro ⟨nowMs', ha, hutf8⟩
    rcases MetricsStore.toJsonMetricsPayload_cases J nowMs (hpc hpayload) with ⟨hu, -⟩ | ⟨-, hnone⟩
    · rw [hu] at hutf8
      cases hutf8
    · rw [hnone] at hbody
      cases hbody
  | threw nowMs hpayload hbody =>
    refine ⟨fun h => (by cases h), fun _ => ⟨nowMs, rfl, ?_⟩, fun _ => rfl⟩
    rcases MetricsStore.toJsonMetricsPayload_cases J nowMs (hpc hpayload) with
      ⟨-, body, heq⟩ | ⟨hu, -⟩
    · exact absurd heq (hbody body)
    · exact hu
  | send resp payload hpc' =>
    exact ⟨fun h => (by cases h), hquiet (fun _ h => (by cases h)) (fun h => (by cases h))⟩
  | reset nowMs hpc' =>
    exact ⟨fun h => (by cases h), hquiet (fun _ h => (by cases h)) (fun h => (by cases h))⟩

theorem threw_eq_false {s : State σ} :
    s.threw = false ↔ s.polling.isThrew = false ∧ s.metrics.pc ≠ .threw := by
  unfold State.threw
  rw [Bool.or_eq_false_iff]
  refine and_congr_right fun _ => ?_
  cases s.metrics.pc with
  | threw => exact ⟨fun h => (by cases h), fun h => absurd rfl h⟩
  | _ => exact ⟨fun _ h => (by cases h), fun _ => rfl⟩

/-- A fetch throws exactly if the copy that was taken for it is posted and is not UTF-8. -/
theorem sound_fetch {J : JsonLib} {P : StorageProvider σ} {config : ClientConfig}
    {s s' : State σ} {resp : HttpReply} (hP : P.NeverThrows) (hs : Sound config s)
    (hmetrics : s.metrics.pc ≠ .threw) (h : fetch J P s resp = some s') :
    Sound config s' ∧ (s'.threw = false ↔ Encodable config s (.fetch resp)) := by
  unfold fetch at h
  split at h
  · rename_i ctx hctx
    have hiff : Encodable config s (.fetch resp) ↔
        (config.usePostRequests = true → ctx.utf8 = true) := by
      refine ⟨fun he => he ctx hctx, fun he ctx' hctx' => ?_⟩
      rw [hctx] at hctx'
      cases hctx'
      exact he
    have hfetch := fetch_none_iff J hP s.client ctx resp
    rw [hs.post] at hfetch
    rw [hiff]
    split at h <;> cases h
    · rename_i hnone
      obtain ⟨hpost, hutf8⟩ := hfetch.mp hnone
      refine ⟨⟨hs.post, hs.report⟩, fun ht => (by cases ht), fun he => ?_⟩
      rw [he hpost] at hutf8
      cases hutf8
    · rename_i client events hsome
      refine ⟨⟨(fetched_post hsome).trans hs.post, hs.report⟩, fun _ hpost => ?_,
        fun _ => threw_eq_false.mpr ⟨rfl, hmetrics⟩⟩
      cases hutf8 : ctx.utf8 with
      | true => rfl
      | false =>
        rw [hfetch.mpr ⟨hpost, hutf8⟩] at hsome
        cases hsome
  · cases h

/-- What the metrics thread does is encodable exactly if it does not throw. -/
theorem encodable_metrics_iff {config : ClientConfig} {s : State σ} {a : MetricsThread.Act}
    {metrics : MetricsThread.State}
    (hthrew : metrics.pc = .threw ↔
      ∃ nowMs, a = .toJsonMetricsPayload nowMs ∧ s.metrics.store.utf8 = false) :
    Encodable config s (.metrics a) ↔ metrics.pc ≠ .threw := by
  rw [Ne, hthrew]
  cases a with
  | toJsonMetricsPayload nowMs =>
    refine ⟨fun he => ?_, fun he => ?_⟩
    · rintro ⟨nowMs', ha, hutf8⟩
      rw [show s.metrics.store.utf8 = true from he] at hutf8
      cases hutf8
    · show s.metrics.store.utf8 = true
      cases hutf8 : s.metrics.store.utf8 with
      | true => rfl
      | false => exact absurd ⟨nowMs, rfl, hutf8⟩ he
  | _ =>
    refine ⟨fun _ => ?_, fun _ => trivial⟩
    rintro ⟨nowMs, ha, -⟩
    cases ha

/-- **Step lemma.**  From a state without an exception, a step throws exactly if what it prints
    is not UTF-8. -/
theorem sound_step {J : JsonLib} {P : StorageProvider σ} {config : ClientConfig} {s s' : State σ}
    {a : Act} (hP : P.NeverThrows) (hs : Sound config s) (h : step J P config s a = some s') :
    s.threw = false ∧ Sound config s' ∧ (s'.threw = false ↔ Encodable config s a) := by
  unfold step at h
  split at h
  · cases h
  rename_i hno
  have hno : s.threw = false := Bool.eq_false_iff.mpr hno
  obtain ⟨hpoll, hmetrics⟩ := threw_eq_false.mp hno
  refine ⟨hno, ?_⟩
  cases a with
  | updateContext mutableContext =>
    cases h
    exact ⟨⟨hs.post, hs.report⟩, fun _ => trivial, fun _ => hno⟩
  | isEnabled t flagName =>
    simp only at h
    split at h <;> cases h
    exact ⟨⟨hs.post, hs.report⟩, fun _ => trivial, fun _ => hno⟩
  | getVariant t flagName =>
    simp only at h
    split at h <;> cases h
    exact ⟨⟨hs.post, hs.report⟩, fun _ => trivial, fun _ => hno⟩
  | record t =>
    simp only at h
    split at h
    · cases h
    · obtain ⟨metrics, hm, rfl⟩ := Option.map_eq_some_iff.mp h
      obtain ⟨hreport, hthrew⟩ := metrics_change hs.report hmetrics (MetricsThread.step_change hm)
      refine ⟨⟨hs.post, hreport⟩, fun _ => trivial,
        fun _ => threw_eq_false.mpr ⟨hpoll, fun ht => ?_⟩⟩
      obtain ⟨nowMs, ha, -⟩ := hthrew.mp ht
      cases ha
  | snapshot =>
    simp only at h
    split at h
    · split at h <;> cases h
      exact ⟨⟨hs.post, hs.report⟩, fun _ => trivial, fun _ => threw_eq_false.mpr ⟨rfl, hmetrics⟩⟩
    · cases h
  | fetch resp => exact sound_fetch hP hs hmetrics h
  | metrics a =>
    simp only at h
    split at h
    · rename_i hallowed
      obtain ⟨metrics, hm, rfl⟩ := Option.map_eq_some_iff.mp h
      obtain ⟨hreport, hthrew⟩ := metrics_change hs.report hmetrics (MetricsThread.step_change hm)
      refine ⟨⟨hs.post, hreport⟩, ?_⟩
      rw [encodable_metrics_iff hthrew, threw_eq_false]
      exact ⟨fun ht => ht.2, fun ht => ⟨hpoll, ht⟩⟩
    · cases h

/-- **No exception leaves a worker, exactly if all is UTF-8.**  For every configuration and every
    run of both workers with any updates of the context and any evaluations. -/
theorem no_exception_iff (J : JsonLib) (P : StorageProvider σ) (hP : P.NeverThrows)
    (config : ClientConfig) (storage : σ) (client : UnleashClient σ)
    (hmake : UnleashClient.make P config storage = some client) (ctx : Context) (nowMs : Int64)
    (as : List Act) (s : State σ)
    (hrun : Machine.run (step J P config) (initial config client ctx nowMs) as = some s) :
    s.threw = false ↔
      Machine.Meets (step J P config) (Encodable config) (initial config client ctx nowMs) as := by
  have h₀ : Sound config (initial config client ctx nowMs) :=
    ⟨congrArg (fun f => f.httpRequest.usePOSTrequests) (UnleashClient.make_toggleFetcher hmake),
      fun hpc => by cases hpc⟩
  have h : Sound config s ∧ (s.threw = false ↔ Machine.Meets (step J P config) (Encodable config)
      (initial config client ctx nowMs) as) := by
    refine Machine.run_history (I := fun s as => Sound config s ∧ (s.threw = false ↔
      Machine.Meets (step J P config) (Encodable config) (initial config client ctx nowMs) as))
      ⟨h₀, fun _ => trivial, fun _ => rfl⟩ ?_ hrun
    intro as s a s' hs ⟨hsound, ih⟩ ha
    obtain ⟨hno, hsound', hiff⟩ := sound_step hP hsound ha
    rw [Machine.meets_snoc hs]
    exact ⟨hsound', fun ht => ⟨ih.mp hno, hiff.mp ht⟩, fun hm => hiff.mpr hm.2⟩
  exact h.2

/-! ## Bytes that are not UTF-8 -/

/-- A byte that no UTF-8 string contains. -/
def badByte : Bytes := [0xFF]

def getConfig : ClientConfig := ClientConfig.make (bytes "u") (bytes "k") (bytes "app") []

def postConfig : ClientConfig := { getConfig with usePostRequests := true }

/-- A context whose user id is not UTF-8, and the fetch that follows. -/
def badUserRun : List Act :=
  [.updateContext (UnleashClient.plainContext.mutableContext.setUserId badByte), .snapshot,
    .fetch .null]

/-- The client of a configuration without a bootstrap. -/
def clientOf (config : ClientConfig) : UnleashClient Unit :=
  { toggleFetcher := ToggleFetcher.make config, storage := () }

/-- A GET fetch takes the user id as it is, and nothing is thrown. -/
theorem no_exception_iff_get :
    ∃ s, Machine.run (step JsonText.compact localStorageProvider getConfig)
        (initial getConfig (clientOf getConfig) UnleashClient.plainContext 0) badUserRun = some s ∧
      s.context.utf8 = false ∧ s.threw = false := by
  have hiff := no_exception_iff JsonText.compact localStorageProvider (fun _ _ => ⟨(), rfl⟩)
    getConfig () (clientOf getConfig) rfl UnleashClient.plainContext 0 badUserRun _ rfl
  refine ⟨_, rfl, by decide, hiff.mpr ?_⟩
  exact ⟨trivial, trivial, fun ctx _ hpost => absurd hpost (by decide), trivial⟩

/-- A client whose application name is not UTF-8, with one flag `a`. -/
def badNameConfig : ClientConfig :=
  { ClientConfig.make (bytes "u") (bytes "k") badByte [] with
    bootstrap := some ⟨KeyMap.ofPairs [(bytes "a", { name := bytes "a" })]⟩ }

def bootstrappedClient : UnleashClient Unit :=
  { clientOf badNameConfig with
    flagStore := { snapshot := badNameConfig.overridingBootstrap.getD ToggleSet.empty,
                   ready := true } }

/-- The flag is evaluated once, and reported. -/
def reportRun : List Act :=
  [.isEnabled 0 (bytes "a"), .record 0, .metrics .testEmpty, .metrics (.toJsonMetricsPayload 0)]

/-- By POST the printer throws on the polling thread, and a report of the second client makes it
    throw on the metrics thread. -/
theorem workers_throw :
    (∃ s, Machine.run (step JsonText.compact localStorageProvider postConfig)
        (initial postConfig (clientOf postConfig) UnleashClient.plainContext 0) badUserRun =
          some s ∧
      s.threw = true) ∧
    UnleashClient.make localStorageProvider badNameConfig () = some bootstrappedClient ∧
    ∃ s, Machine.run (step JsonText.compact localStorageProvider badNameConfig)
        (initial badNameConfig bootstrappedClient UnleashClient.plainContext 0) reportRun = some s ∧
      s.threw = true :=
  ⟨⟨_, rfl, rfl⟩, rfl, ⟨_, rfl, rfl⟩⟩

end Workers

end Unleash
