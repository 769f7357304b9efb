/-
  THE CLIENT AS A MACHINE: one thread that starts and stops it, the polling thread, and any
  number of evaluations.

  `isEnabled` and `getVariant` test `_ready`, load the pointer to the current toggle set once, and
  do all their lookups on what it points to:

      new ─▶ load ─▶ contains ─▶ enabled ─▶ (variant) ─▶ record ─▶ impression ─▶ returned
                                                                       │            ▲
                                                                       ▼            │
                                                                  copyContext ─▶  emit

  Two of these are critical sections, each of them one step here: `record` has the mutex of the
  metrics store, and `copyContext` has `_mutexPolling`, as the copies of the polling thread and
  `updateContext` have.  That a call may have to wait for a mutex is the subject of another module.

  The polling thread publishes a new set in three steps, the snapshot, the store's flag and the
  client's flag (`storeSnapshot`, `storeReady`, `exchangeReady`); taken without a step of anybody
  else, its steps from `fetch` on are `singleFetchToggles` (`fetch_alone`).  What wakes it between
  two fetches, and the metrics thread, are the subject of other modules.
-/
import Mathlib.Logic.Function.Basic
import UnleashSdk.FlagUpdates
import UnleashSdk.Metrics

set_option linter.unusedVariables false

namespace Unleash

namespace ClientMachine

variable {σ : Type}

/-! ## Evaluations -/

inductive Kind where
  | isEnabled
  | getVariant
  deriving DecidableEq

/-- A call of `isEnabled` or of `getVariant`. -/
structure Query where
  kind : Kind
  flagName : Bytes

inductive Answer where
  | enabled (enabled : Bool)
  | variant (variant : Variant)
  deriving DecidableEq

/-- What a call returns for a client that is not ready, or for an unknown flag. -/
def Kind.refusal : Kind → Answer
  | .isEnabled => .enabled false
  | .getVariant => .variant Variant.disabledFactory

/-- What a call has in its local variables determines what it records, emits and returns; there
    is a variant only in `getVariant`. -/
def metricOf (q : Query) (enabled : Bool) : Option Variant → Evaluation
  | none => .enable q.flagName enabled
  | some variant => .variant q.flagName enabled variant.name

def impressionOf (q : Query) (enabled : Bool) (variant : Option Variant) (impression : Bool)
    (ctx : Context) : ClientImpression :=
  match variant with
  | none =>
    { ctx := ctx, flagName := q.flagName, enabled := enabled, eventType := bytes "isEnabled",
      impressionData := impression }
  | some variant =>
    { ctx := ctx, flagName := q.flagName, enabled := enabled, eventType := bytes "getVariant",
      impressionData := impression, variant := variant.name }

def answerOf (enabled : Bool) : Option Variant → Answer
  | none => .enabled enabled
  | some variant => .variant variant

/-- Where an evaluation is, with its local variables. -/
inductive CallPc where
  | new
  | load
  | contains (toggleSet : ToggleSet)
  | enabled (toggleSet : ToggleSet)
  | variant (toggleSet : ToggleSet) (enabled : Bool)
  | record (toggleSet : ToggleSet) (enabled : Bool) (variant : Option Variant)
  | impression (toggleSet : ToggleSet) (enabled : Bool) (variant : Option Variant)
  | copyContext (toggleSet : ToggleSet) (enabled : Bool) (variant : Option Variant)
    (impression : Bool)
  | emit (toggleSet : ToggleSet) (enabled : Bool) (variant : Option Variant) (impression : Bool)
    (ctx : Context)
  | returned (answer : Answer)

/-! ## The state -/

/-- Where the thread that calls `start()` and `stop()` is. -/
inductive Control where
  | idle
  | testStore
  | storeReady
  | clearExit
  | spawn
  | setExit
  | join
  deriving DecidableEq

/-- Where the polling thread is. -/
inductive PollPc where
  | absent
  | testEnabled
  | copy
  | fetch (ctx : Context)
  | handle (result : FetchResult)
  | persist (toggles : ToggleSet)
  | storeSnapshot (toggles : ToggleSet)
  | storeReady
  | exchangeReady
  | testExit
  | wait
  | testExitAgain (ctx : Context)
  | ended
  | threw

/-- The thread is in `singleFetchToggles`. -/
def PollPc.fetching : PollPc → Bool
  | .fetch _ | .handle _ | .persist _ | .storeSnapshot _ | .storeReady | .exchangeReady => true
  | _ => false

def PollPc.isThrew : PollPc → Bool
  | .threw => true
  | _ => false

structure State (σ : Type) where
  client : UnleashClient σ
  context : Context
  running : Bool := false
  exitThreads : Bool := false
  control : Control := .idle
  polling : PollPc := .absent
  calls : Nat → CallPc := fun _ => .new
  -- the records: whether a `start()` has returned, the metrics that the evaluations recorded and
  -- the impressions that they attempted to emit
  startReturned : Bool := false
  metrics : List (Nat × Evaluation) := []
  impressions : List (Nat × ClientImpression) := []

inductive Act where
  | start
  | stop
  | control
  | poll
  | reply (resp : HttpReply)
  | updateContext (mutableContext : MutableContext)
  | call (t : Nat)

def State.goto (s : State σ) (t : Nat) (p : CallPc) : State σ :=
  { s with calls := Function.update s.calls t p }

@[simp] theorem State.goto_calls_self (s : State σ) (t : Nat) (p : CallPc) :
    (s.goto t p).calls t = p := by
  simp only [State.goto, Function.update_self]

theorem State.goto_calls_of_ne (s : State σ) {t t' : Nat} (h : t' ≠ t) (p : CallPc) :
    (s.goto t p).calls t' = s.calls t' := by
  simp only [State.goto, Function.update_of_ne h]

/-! ## The steps -/

/-- The next step of evaluation `t`. -/
def callStep (config : ClientConfig) (q : Query) (s : State σ) (t : Nat) :
    CallPc → Option (State σ)
  | .new => some (s.goto t (if s.client.ready then .load else .returned q.kind.refusal))
  | .load => some (s.goto t (.contains s.client.flagStore.snapshot))
  | .contains toggleSet =>
    some (s.goto t
      (if toggleSet.contains q.flagName then .enabled toggleSet else .returned q.kind.refusal))
  | .enabled toggleSet =>
    let enabled := toggleSet.isEnabled q.flagName
    match q.kind with
    | .isEnabled => some (s.goto t (.record toggleSet enabled none))
    | .getVariant => some (s.goto t (.variant toggleSet enabled))
  | .variant toggleSet enabled =>
    some (s.goto t (.record toggleSet enabled (some (toggleSet.getVariant q.flagName))))
  | .record toggleSet enabled variant =>
    some (State.goto { s with metrics := s.metrics ++ [(t, metricOf q enabled variant)] } t
      (.impression toggleSet enabled variant))
  | .impression toggleSet enabled variant =>
    -- `getVariant` looks the impression data up twice, in the same set
    let impression := toggleSet.impressionData q.flagName
    some (s.goto t (if config.impressionDataAll || impression
      then .copyContext toggleSet enabled variant impression
      else .returned (answerOf enabled variant)))
  | .copyContext toggleSet enabled variant impression =>
    some (s.goto t (.emit toggleSet enabled variant impression s.context))
  | .emit toggleSet enabled variant impression ctx =>
    some (State.goto { s with
      impressions := s.impressions ++ [(t, impressionOf q enabled variant impression ctx)] } t
      (.returned (answerOf enabled variant)))
  | .returned _ => none

/-- The next step of `start()` or `stop()` past their exchange of `_running`. -/
def controlStep (s : State σ) : Control → Option (State σ)
  | .idle => none
  | .testStore =>
    some { s with control := if s.client.flagStore.ready then .storeReady else .clearExit }
  | .storeReady => some { s with client := { s.client with ready := true }, control := .clearExit }
  | .clearExit => some { s with exitThreads := false, control := .spawn }
  | .spawn =>
    match s.polling with
    | .absent =>
      some { s with polling := .testEnabled, control := .idle, running := true
                    startReturned := true }
    | _ => none
  | .setExit => some { s with exitThreads := true, control := .join }
  | .join =>
    match s.polling with
    | .ended => some { s with polling := .absent, control := .idle, running := false }
    | _ => none

/-- What `singleFetchToggles` does with the result of the fetch, up to the new toggles. -/
def handleResult (s : State σ) (result : FetchResult) : State σ :=
  match result.error with
  | some _ =>
    let sdkState := if s.client.sdkState = .started ∨ s.client.sdkState = .healthy then .error
      else s.client.sdkState
    { s with client := { s.client with sdkState := sdkState }, polling := .testExit }
  | none =>
    if result.status = 304 then { s with polling := .testExit }
    else if 200 ≤ result.status ∧ result.status < 300 then
      match result.toggles with
      | none => { s with polling := .testExit }
      | some toggles => { s with polling := .persist toggles }
    -- `error.value()` of a result without an error
    else { s with polling := .threw }

/-- The next step of the polling thread. -/
def pollStep (P : StorageProvider σ) (config : ClientConfig) (s : State σ) :
    PollPc → Option (State σ)
  | .absent => none
  | .testEnabled => some { s with polling := if config.isRefreshEnabled then .copy else .ended }
  | .copy => some { s with polling := .fetch s.context }
  -- the thread waits for the reply
  | .fetch _ => none
  | .handle result => some (handleResult s result)
  | .persist toggles =>
    match P.save s.client.storage toggles with
    | .error _ => some { s with polling := .threw }
    | .ok storage =>
      some { s with
        client := { s.client with storage := storage }, polling := .storeSnapshot toggles }
  | .storeSnapshot toggles =>
    some { s with
      client := { s.client with flagStore := { s.client.flagStore with snapshot := toggles } }
      polling := .storeReady }
  | .storeReady =>
    some { s with
      client := { s.client with flagStore := { s.client.flagStore with ready := true } }
      polling := .exchangeReady }
  | .exchangeReady =>
    some { s with client := { s.client with ready := true }, polling := .testExit }
  | .testExit => some { s with polling := if s.exitThreads then .ended else .wait }
  | .wait => some { s with polling := .testExitAgain s.context }
  | .testExitAgain ctx => some { s with polling := if s.exitThreads then .ended else .fetch ctx }
  | .ended => none
  | .threw => none

/-- One step; evaluation `t` is the call `query t`.  After an exception there are none. -/
def step (J : JsonLib) (P : StorageProvider σ) (config : ClientConfig) (query : Nat → Query)
    (s : State σ) (a : Act) : Option (State σ) :=
  if s.polling.isThrew then none
  else
    match a with
    | .start =>
      if s.control = .idle then
        if s.running then some s else some { s with running := true, control := .testStore }
      else none
    | .stop =>
      if s.control = .idle then
        if s.running then some { s with running := false, control := .setExit } else some s
      else none
    | .control => controlStep s s.control
    | .poll => pollStep P config s s.polling
    | .reply resp =>
      match s.polling with
      | .fetch ctx =>
        match s.client.toggleFetcher.fetch J ctx resp with
        -- the printer threw
        | none => some { s with polling := .threw }
        | some (result, fetcher) =>
          some { s with
            client := { s.client with toggleFetcher := fetcher }, polling := .handle result }
      | _ => none
    | .updateContext mutableContext =>
      some { s with context := s.context.updateMutableContext mutableContext }
    | .call t => callStep config (query t) s t (s.calls t)

/-- A client that has just been constructed. -/
def initial (client : UnleashClient σ) (ctx : Context) : State σ :=
  { client := client, context := ctx }

/-! ## Everything a step can do -/

/-- The step of evaluation `t`, the call `q`, from where it is. -/
inductive CallChange (config : ClientConfig) (q : Query) (s : State σ) (t : Nat) :
    CallPc → State σ → Prop where
  | ready (h : s.client.ready = true) : CallChange config q s t .new (s.goto t .load)
  | notReady (h : s.client.ready = false) :
    CallChange config q s t .new (s.goto t (.returned q.kind.refusal))
  | load : CallChange config q s t .load (s.goto t (.contains s.client.flagStore.snapshot))
  | known (toggleSet : ToggleSet) (h : toggleSet.contains q.flagName = true) :
    CallChange config q s t (.contains toggleSet) (s.goto t (.enabled toggleSet))
  | unknown (toggleSet : ToggleSet) (h : toggleSet.contains q.flagName = false) :
    CallChange config q s t (.contains toggleSet) (s.goto t (.returned q.kind.refusal))
  | isEnabled (toggleSet : ToggleSet) (h : q.kind = .isEnabled) :
    CallChange config q s t (.enabled toggleSet)
      (s.goto t (.record toggleSet (toggleSet.isEnabled q.flagName) none))
  | getVariant (toggleSet : ToggleSet) (h : q.kind = .getVariant) :
    CallChange config q s t (.enabled toggleSet)
      (s.goto t (.variant toggleSet (toggleSet.isEnabled q.flagName)))
  | variant (toggleSet : ToggleSet) (enabled : Bool) :
    CallChange config q s t (.variant toggleSet enabled)
      (s.goto t (.record toggleSet enabled (some (toggleSet.getVariant q.flagName))))
  | record (toggleSet : ToggleSet) (enabled : Bool) (variant : Option Variant) :
    CallChange config q s t (.record toggleSet enabled variant)
      (State.goto { s with metrics := s.metrics ++ [(t, metricOf q enabled variant)] } t
        (.impression toggleSet enabled variant))
  | impression (toggleSet : ToggleSet) (enabled : Bool) (variant : Option Variant)
    (h : (config.impressionDataAll || toggleSet.impressionData q.flagName) = true) :
    CallChange config q s t (.impression toggleSet enabled variant)
      (s.goto t (.copyContext toggleSet enabled variant (toggleSet.impressionData q.flagName)))
  | noImpression (toggleSet : ToggleSet) (enabled : Bool) (variant : Option Variant)
    (h : (config.impressionDataAll || toggleSet.impressionData q.flagName) = false) :
    CallChange config q s t (.impression toggleSet enabled variant)
      (s.goto t (.returned (answerOf enabled variant)))
  | copyContext (toggleSet : ToggleSet) (enabled : Bool) (variant : Option Variant)
    (impression : Bool) :
    CallChange config q s t (.copyContext toggleSet enabled variant impression)
      (s.goto t (.emit toggleSet enabled variant impression s.context))
  | emit (toggleSet : ToggleSet) (enabled : Bool) (variant : Option Variant) (impression : Bool)
    (ctx : Context) :
    CallChange config q s t (.emit toggleSet enabled variant impression ctx)
      (State.goto { s with
        impressions := s.impressions ++ [(t, impressionOf q enabled variant impression ctx)] } t
        (.returned (answerOf enabled variant)))

theorem callStep_change {config : ClientConfig} {q : Query} {s s' : State σ} {t : Nat} {p : CallPc}
    (h : callStep config q s t p = some s') : CallChange config q s t p s' := by
  cases p with
  | new =>
    cases h
    split
    · rename_i hready
      exact .ready hready
    · rename_i hready
      exact .notReady (Bool.eq_false_iff.mpr hready)
  | load =>
    cases h
    exact .load
  | contains toggleSet =>
    cases h
    split
    · rename_i hknown
      exact .known toggleSet hknown
    · rename_i hknown
      exact .unknown toggleSet (Bool.eq_false_iff.mpr hknown)
  | enabled toggleSet =>
    simp only [callStep] at h
    split at h <;> cases h
    · rename_i hkind
      exact .isEnabled toggleSet hkind
    · rename_i hkind
      exact .getVariant toggleSet hkind
  | variant toggleSet enabled =>
    cases h
    exact .variant toggleSet enabled
  | record toggleSet enabled variant =>
    cases h
    exact .record toggleSet enabled variant
  | impression toggleSet enabled variant =>
    cases h
    split
    · rename_i himpression
      exact .impression toggleSet enabled variant himpression
    · rename_i himpression
      exact .noImpression toggleSet enabled variant (Bool.eq_false_iff.mpr himpression)
  | copyContext toggleSet enabled variant impression =>
    cases h
    exact .copyContext toggleSet enabled variant impression
  | emit toggleSet enabled variant impression ctx =>
    cases h
    exact .emit toggleSet enabled variant impression ctx
  | returned answer => cases h

/-- An evaluation touches nothing but its own variables and the records. -/
structure CallFrame (s s' : State σ) (t : Nat) : Prop where
  client : s'.client = s.client
  control : s'.control = s.control
  polling : s'.polling = s.polling
  running : s'.running = s.running
  startReturned : s'.startReturned = s.startReturned
  calls : ∀ t', t' ≠ t → s'.calls t' = s.calls t'
  metrics : ∀ t', t' ≠ t → s'.metrics.filter (·.1 = t') = s.metrics.filter (·.1 = t')
  impressions : ∀ t', t' ≠ t →
    s'.impressions.filter (·.1 = t') = s.impressions.filter (·.1 = t')

theorem goto_frame (s : State σ) (t : Nat) (p : CallPc) : CallFrame s (s.goto t p) t where
  client := rfl
  control := rfl
  polling := rfl
  running := rfl
  startReturned := rfl
  calls t' ht' := s.goto_calls_of_ne ht' p
  metrics _ _ := rfl
  impressions _ _ := rfl

theorem callChange_frame {config : ClientConfig} {q : Query} {s s' : State σ} {t : Nat}
    {p : CallPc} (h : CallChange config q s t p s') : CallFrame s s' t := by
  cases h with
  | record toggleSet enabled variant =>
    refine { goto_frame s t _ with metrics := fun t' ht' => ?_ }
    simp [State.goto, List.filter_append, ht'.symm]
  | emit toggleSet enabled variant impression ctx =>
    refine { goto_frame s t _ with impressions := fun t' ht' => ?_ }
    simp [State.goto, List.filter_append, ht'.symm]
  | _ => exact goto_frame s t _

/-- The step of the thread that is in `start()` or `stop()`. -/
inductive ControlChange (s : State σ) : Control → State σ → Prop where
  | testStore : ControlChange s .testStore
      { s with control := if s.client.flagStore.ready then .storeReady else .clearExit }
  | storeReady : ControlChange s .storeReady
      { s with client := { s.client with ready := true }, control := .clearExit }
  | clearExit : ControlChange s .clearExit { s with exitThreads := false, control := .spawn }
  | spawn (h : s.polling = .absent) : ControlChange s .spawn
      { s with polling := .testEnabled, control := .idle, running := true, startReturned := true }
  | setExit : ControlChange s .setExit { s with exitThreads := true, control := .join }
  | join (h : s.polling = .ended) : ControlChange s .join
      { s with polling := .absent, control := .idle, running := false }

theorem controlStep_change {s s' : State σ} {c : Control} (h : controlStep s c = some s') :
    ControlChange s c s' := by
  cases c with
  | idle => cases h
  | testStore =>
    cases h
    exact .testStore
  | storeReady =>
    cases h
    exact .storeReady
  | clearExit =>
    cases h
    exact .clearExit
  | spawn =>
    simp only [controlStep] at h
    split at h <;> cases h
    rename_i habsent
    exact .spawn habsent
  | setExit =>
    cases h
    exact .setExit
  | join =>
    simp only [controlStep] at h
    split at h <;> cases h
    rename_i hended
    exact .join hended

/-- The step of the polling thread, from where it is. -/
inductive PollChange (P : StorageProvider σ) (config : ClientConfig) (s : State σ) :
    PollPc → State σ → Prop where
  | testEnabled : PollChange P config s .testEnabled
      { s with polling := if config.isRefreshEnabled then .copy else .ended }
  | copy : PollChange P config s .copy { s with polling := .fetch s.context }
  | handle (result : FetchResult) :
    PollChange P config s (.handle result) (handleResult s result)
  | notSaved (toggles : ToggleSet) : PollChange P config s (.persist toggles)
      { s with polling := .threw }
  | saved (toggles : ToggleSet) (storage : σ) : PollChange P config s (.persist toggles)
      { s with
        client := { s.client with storage := storage }, polling := .storeSnapshot toggles }
  | storeSnapshot (toggles : ToggleSet) : PollChange P config s (.storeSnapshot toggles)
      { s with
        client := { s.client with flagStore := { s.client.flagStore with snapshot := toggles } }
        polling := .storeReady }
  | storeReady : PollChange P config s .storeReady
      { s with
        client := { s.client with flagStore := { s.client.flagStore with ready := true } }
        polling := .exchangeReady }
  | exchangeReady : PollChange P config s .exchangeReady
      { s with client := { s.client with ready := true }, polling := .testExit }
  | testExit : PollChange P config s .testExit
      { s with polling := if s.exitThreads then .ended else .wait }
  | wait : PollChange P config s .wait { s with polling := .testExitAgain s.context }
  | testExitAgain (ctx : Context) : PollChange P config s (.testExitAgain ctx)
      { s with polling := if s.exitThreads then .ended else .fetch ctx }

theorem pollStep_change {P : StorageProvider σ} {config : ClientConfig} {s s' : State σ}
    {p : PollPc} (h : pollStep P config s p = some s') : PollChange P config s p s' := by
  cases p with
  | absent | fetch ctx | ended | threw => cases h
  | testEnabled =>
    cases h
    exact .testEnabled
  | copy =>
    cases h
    exact .copy
  | handle result =>
    cases h
    exact .handle result
  | persist toggles =>
    simp only [pollStep] at h
    split at h <;> cases h
    · exact .notSaved toggles
    · exact .saved toggles _
  | storeSnapshot toggles =>
    cases h
    exact .storeSnapshot toggles
  | storeReady =>
    cases h
    exact .storeReady
  | exchangeReady =>
    cases h
    exact .exchangeReady
  | testExit =>
    cases h
    exact .testExit
  | wait =>
    cases h
    exact .wait
  | testExitAgain ctx =>
    cases h
    exact .testExitAgain ctx

/-- What becomes of a result: an error is noted, new toggles are taken, or nothing is to do. -/
@[elab_as_elim]
theorem handleResult_cases (s : State σ) (result : FetchResult) {motive : State σ → Prop}
    (failed : ∀ sdkState,
      motive { s with client := { s.client with sdkState := sdkState }, polling := .testExit })
    (unchanged : motive { s with polling := .testExit })
    (updated : ∀ toggles, result.toggles = some toggles →
      motive { s with polling := .persist toggles })
    (threw : motive { s with polling := .threw }) : motive (handleResult s result) := by
  unfold handleResult
  split
  · exact failed _
  · split
    · exact unchanged
    · split
      · split
        · exact unchanged
        · rename_i toggles htoggles
          exact updated toggles htoggles
      · exact threw

inductive Change (J : JsonLib) (P : StorageProvider σ) (config : ClientConfig)
    (query : Nat → Query) (s : State σ) : Act → State σ → Prop where
  | startedAlready (hc : s.control = .idle) (hr : s.running = true) :
    Change J P config query s .start s
  | start (hc : s.control = .idle) (hr : s.running = false) :
    Change J P config query s .start { s with running := true, control := .testStore }
  | stoppedAlready (hc : s.control = .idle) (hr : s.running = false) :
    Change J P config query s .stop s
  | stop (hc : s.control = .idle) (hr : s.running = true) :
    Change J P config query s .stop { s with running := false, control := .setExit }
  | control (s' : State σ) (h : controlStep s s.control = some s') :
    Change J P config query s .control s'
  | poll (s' : State σ) (h : pollStep P config s s.polling = some s') :
    Change J P config query s .poll s'
  | printerThrew (resp : HttpReply) (ctx : Context) (hp : s.polling = .fetch ctx)
    (h : s.client.toggleFetcher.fetch J ctx resp = none) :
    Change J P config query s (.reply resp) { s with polling := .threw }
  | replied (resp : HttpReply) (ctx : Context) (result : FetchResult) (fetcher : ToggleFetcher)
    (hp : s.polling = .fetch ctx)
    (h : s.client.toggleFetcher.fetch J ctx resp = some (result, fetcher)) :
    Change J P config query s (.reply resp)
      { s with client := { s.client with toggleFetcher := fetcher }, polling := .handle result }
  | updateContext (mutableContext : MutableContext) :
    Change J P config query s (.updateContext mutableContext)
      { s with context := s.context.updateMutableContext mutableContext }
  | call (t : Nat) (s' : State σ) (h : CallChange config (query t) s t (s.calls t) s') :
    Change J P config query s (.call t) s'

theorem step_change {J : JsonLib} {P : StorageProvider σ} {config : ClientConfig}
    {query : Nat → Query} {s s' : State σ} {a : Act} (h : step J P config query s a = some s') :
    Change J P config query s a s' := by
  unfold step at h
  split at h
  · cases h
  cases a with
  | start =>
    simp only at h
    split at h
    · rename_i hc
      split at h <;> cases h
      · rename_i hr
        exact .startedAlready hc hr
      · rename_i hr
        exact .start hc (Bool.eq_false_iff.mpr hr)
    · cases h
  | stop =>
    simp only at h
    split at h
    · rename_i hc
      split at h <;> cases h
      · rename_i hr
        exact .stop hc hr
      · rename_i hr
        exact .stoppedAlready hc (Bool.eq_false_iff.mpr hr)
    · cases h
  | control => exact .control s' h
  | poll => exact .poll s' h
  | reply resp =>
    simp only at h
    split at h
    · rename_i ctx hp
      split at h <;> cases h
      · rename_i hfetch
        exact .printerThrew resp ctx hp hfetch
      · rename_i result fetcher hfetch
        exact .replied resp ctx result fetcher hp hfetch
    · cases h
  | updateContext mutableContext =>
    cases h
    exact .updateContext mutableContext
  | call t => exact .call t s' (callStep_change h)

/-- Only an evaluation itself moves it and adds to the records. -/
theorem change_calls {J : JsonLib} {P : StorageProvider σ} {config : ClientConfig}
    {query : Nat → Query} {s s' : State σ} {a : Act} (h : Change J P config query s a s')
    (ha : ∀ t, a ≠ .call t) :
    s'.calls = s.calls ∧ s'.metrics = s.metrics ∧ s'.impressions = s.impressions := by
  cases h with
  | control s' h =>
    generalize s.control = c at h
    cases controlStep_change h <;> exact ⟨rfl, rfl, rfl⟩
  | poll s' h =>
    generalize s.polling = p at h
    cases pollStep_change h with
    | handle result =>
      refine handleResult_cases s result ?_ ?_ ?_ ?_ <;> intros <;> exact ⟨rfl, rfl, rfl⟩
    | _ => exact ⟨rfl, rfl, rfl⟩
  | call t s' h => exact absurd rfl (ha t)
  | _ => exact ⟨rfl, rfl, rfl⟩

/-! ## The steps of a fetch, taken together -/

/-- The polling thread saves new toggles and publishes them, or the storage provider throws. -/
theorem persist_alone (J : JsonLib) (P : StorageProvider σ) (config : ClientConfig)
    (query : Nat → Query) {s : State σ} {toggles : ToggleSet} (hp : s.polling = .persist toggles) :
    ∃ n t, Machine.run (step J P config query) s (List.replicate n .poll) = some t ∧
      match P.save s.client.storage toggles with
      | .error _ => t = { s with polling := .threw }
      | .ok storage => t = { s with
          client := { s.client with
            storage := storage
            flagStore := s.client.flagStore.replace toggles
            ready := true }
          polling := .testExit } := by
  have hstep : step J P config query s .poll = pollStep P config s (.persist toggles) := by
    simp [step, hp, PollPc.isThrew]
  cases hsave : P.save s.client.storage toggles with
  | error storage =>
    refine ⟨1, { s with polling := .threw }, ?_, rfl⟩
    simp only [List.replicate_one, Machine.run, hstep, pollStep, hsave]
  | ok storage =>
    refine ⟨4, _, ?_, rfl⟩
    have hsaved : step J P config query s .poll = some { s with
        client := { s.client with storage := storage }, polling := .storeSnapshot toggles } := by
      simp only [hstep, pollStep, hsave]
    rw [show List.replicate 4 Act.poll = [.poll, .poll, .poll, .poll] from rfl,
      Machine.run_cons_of_step hsaved]
    rfl

/-- **A fetch alone.**  From the reply on, the polling thread takes some steps, and if nobody else
    takes one in between they are `singleFetchToggles`. -/
theorem fetch_alone (J : JsonLib) (P : StorageProvider σ) (config : ClientConfig)
    (query : Nat → Query) {s : State σ} {ctx : Context} (hp : s.polling = .fetch ctx)
    (resp : HttpReply) :
    ∃ n t, Machine.run (step J P config query) s (.reply resp :: List.replicate n .poll) = some t ∧
      match s.client.singleFetchToggles J P ctx resp with
      | none => t.polling = .threw
      | some (client, _) => t = { s with client := client, polling := .testExit } := by
  unfold UnleashClient.singleFetchToggles
  cases hfetch : s.client.toggleFetcher.fetch J ctx resp with
  | none =>
    refine ⟨0, { s with polling := .threw }, ?_, rfl⟩
    simp only [List.replicate_zero, Machine.run, step, hp, hfetch, PollPc.isThrew,
      Bool.false_eq_true, if_false]
  | some r =>
    obtain ⟨result, fetcher⟩ := r
    -- the reply has arrived, and its result is handled
    let s₁ : State σ := { s with
      client := { s.client with toggleFetcher := fetcher }, polling := .handle result }
    have hreply : step J P config query s (.reply resp) = some s₁ := by
      simp only [step, hp, hfetch, PollPc.isThrew, Bool.false_eq_true, if_false, s₁]
    have hhandle : step J P config query s₁ .poll = some (handleResult s₁ result) := rfl
    have hdone : Machine.run (step J P config query) s (.reply resp :: List.replicate 1 .poll) =
        some (handleResult s₁ result) := by
      rw [Machine.run_cons_of_step hreply, List.replicate_one, Machine.run_cons_of_step hhandle,
        Machine.run_nil]
    cases herr : result.error with
    | some error =>
      refine ⟨1, _, hdone, ?_⟩
      simp only [handleResult, herr, s₁]
    | none =>
      by_cases h304 : result.status = 304
      · refine ⟨1, _, hdone, ?_⟩
        simp only [handleResult, herr, h304, if_true, s₁]
      by_cases hok : 200 ≤ result.status ∧ result.status < 300
      · cases htoggles : result.toggles with
        | none =>
          refine ⟨1, _, hdone, ?_⟩
          simp only [handleResult, herr, h304, if_false, hok, and_self, if_true, htoggles, s₁]
        | some toggles =>
          have hpersist : handleResult s₁ result = { s₁ with polling := .persist toggles } := by
            simp only [handleResult, herr, h304, if_false, hok, and_self, if_true, htoggles]
          obtain ⟨n, t, hrun, ht⟩ := persist_alone J P config query
            (s := { s₁ with polling := .persist toggles }) rfl
          refine ⟨n + 1, t, ?_, ?_⟩
          · rw [Machine.run_cons_of_step hreply, List.replicate_succ,
              Machine.run_cons_of_step hhandle, hpersist]
            exact hrun
          · simp only [herr, h304, if_false, hok, and_self, if_true, htoggles]
            cases hsave : P.save s.client.storage toggles with
            | error storage =>
              simp only [s₁, hsave] at ht
              rw [ht]
            | ok storage =>
              simp only [s₁, hsave] at ht
              exact ht
      · refine ⟨1, _, hdone, ?_⟩
        simp only [handleResult, herr, h304, if_false, hok]

end ClientMachine

end Unleash
