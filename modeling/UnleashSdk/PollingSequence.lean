/-
  THE POLLING THREAD AS A SEQUENTIAL PROGRAM.

  `singleFetchToggles` takes many steps, between which evaluations run, the context changes, the
  client is started and stopped, and the event thread executes callbacks.  None of that matters to
  it.  `SequentialClient` is the client with all of it at once: a fetch is one call of
  `singleFetchToggles`, and the only thing besides is the `start()` that finds toggles in the store
  and declares the client ready.

  A fetch counts from the moment of its reply.  What is then still to do is `finish`, and what is
  still to emit is owed or in the emissions of `finish`; so at every point of a run

      the sequential client     =   the client with `finish` done
      its events                =   emitted ++ owed ++ those of `finish`

  and between two fetches the two are the same.  A fetch that throws is not answered: it ends the
  thread.
-/
import UnleashSdk.ClientEvents
import UnleashSdk.Readiness

set_option linter.unusedVariables false

namespace Unleash

namespace SequentialClient

variable {σ : Type}

structure State (σ : Type) where
  client : UnleashClient σ
  events : List ClientEvent := []

inductive Act where
  | fetch (ctx : Context) (resp : HttpReply)
  | ready

def step (J : JsonLib) (P : StorageProvider σ) (s : State σ) : Act → Option (State σ)
  | .fetch ctx resp =>
    (s.client.singleFetchToggles J P ctx resp).map fun r =>
      { client := r.1, events := s.events ++ r.2 }
  | .ready => some { s with client := { s.client with ready := true } }

end SequentialClient

namespace ClientEvents

open ClientMachine (PollPc Query)

variable {σ C : Type}

/-! ## What is left of a fetch -/

/-- The events of new toggles. -/
def announcement (ready : Bool) : List ClientEvent := (if ready then [] else [.ready]) ++ [.update]

/-- What is left from `persistToggles` on. -/
def finishPersist (P : StorageProvider σ) (c : UnleashClient σ) (toggles : ToggleSet) :
    Option (UnleashClient σ × List ClientEvent) :=
  match P.save c.storage toggles with
  | .error _ => none
  | .ok storage =>
    some ({ c with storage := storage, flagStore := c.flagStore.replace toggles, ready := true },
      announcement c.ready)

/-- What is left once the fetcher has returned. -/
def finishHandle (P : StorageProvider σ) (c : UnleashClient σ) (result : FetchResult) :
    Option (UnleashClient σ × List ClientEvent) :=
  match result.error with
  | some error =>
    let sdkState := if c.sdkState = .started ∨ c.sdkState = .healthy then .error else c.sdkState
    some ({ c with sdkState := sdkState }, [UnleashClient.fetchFailed error])
  | none =>
    if result.status = 304 then some (c, [])
    else if 200 ≤ result.status ∧ result.status < 300 then
      match result.toggles with
      | none => some (c, [])
      | some toggles => finishPersist P c toggles
    else none

/-- The client when the polling thread has come to the end of its fetch, and what it emits until
    then; `none` if it throws. -/
def finish (P : StorageProvider σ) (c : UnleashClient σ) :
    PollPc → Option (UnleashClient σ × List ClientEvent)
  | .handle result => finishHandle P c result
  | .persist toggles => finishPersist P c toggles
  | .storeSnapshot toggles =>
    some ({ c with flagStore := c.flagStore.replace toggles, ready := true }, announcement c.ready)
  | .storeReady =>
    some ({ c with flagStore := { c.flagStore with ready := true }, ready := true },
      announcement c.ready)
  | .exchangeReady => some ({ c with ready := true }, announcement c.ready)
  | .threw => none
  | _ => some (c, [])

/-- `singleFetchToggles` is the fetcher, and what is left after it. -/
theorem singleFetchToggles_eq (J : JsonLib) (P : StorageProvider σ) (c : UnleashClient σ)
    (ctx : Context) (resp : HttpReply) :
    c.singleFetchToggles J P ctx resp =
      match c.toggleFetcher.fetch J ctx resp with
      | none => none
      | some (result, fetcher) => finishHandle P { c with toggleFetcher := fetcher } result := by
  unfold UnleashClient.singleFetchToggles finishHandle finishPersist
  cases c.toggleFetcher.fetch J ctx resp with
  | none => rfl
  | some r =>
    obtain ⟨result, fetcher⟩ := r
    cases herr : result.error with
    | some error => simp only [herr]
    | none =>
      simp only [herr]
      cases result.toggles with
      | none => rfl
      | some toggles => rfl

/-- **One step less to do.**  A step of the polling thread takes from `finish` what it does. -/
theorem finish_step {P : StorageProvider σ} {config : ClientConfig}
    {s s' : ClientMachine.State σ} {p : PollPc}
    (hc : ClientMachine.pollStep P config s p = some s') :
    finish P s.client p = (finish P s'.client s'.polling).map fun r =>
      (r.1, emitsAfter s.client.ready p ++ r.2) := by
  cases p with
  | absent | fetch ctx | ended | threw => cases hc
  | testEnabled =>
    cases hc
    cases config.isRefreshEnabled <;> rfl
  | copy | wait =>
    cases hc
    rfl
  | testExit | testExitAgain ctx =>
    cases hc
    cases s.exitThreads <;> rfl
  | handle result =>
    cases hc
    show finishHandle P s.client result = _
    unfold finishHandle
    cases herr : result.error with
    | some error =>
      have hnext : ClientMachine.handleResult s result =
          { s with
            client := { s.client with sdkState :=
              if s.client.sdkState = .started ∨ s.client.sdkState = .healthy then .error
              else s.client.sdkState }
            polling := .testExit } := by
        simp only [ClientMachine.handleResult, herr]
      rw [hnext, emitsAfter, herr]
      rfl
    | none =>
      have hnone : emitsAfter s.client.ready (.handle result) = [] := by rw [emitsAfter, herr]; rfl
      rw [hnone]
      by_cases h304 : result.status = 304
      · have hnext : ClientMachine.handleResult s result = { s with polling := .testExit } := by
          simp only [ClientMachine.handleResult, herr, h304, if_true]
        rw [hnext, if_pos h304]
        rfl
      by_cases hok : 200 ≤ result.status ∧ result.status < 300
      · rw [if_neg h304, if_pos hok]
        cases htoggles : result.toggles with
        | none =>
          have hnext : ClientMachine.handleResult s result = { s with polling := .testExit } := by
            simp only [ClientMachine.handleResult, herr, h304, hok, htoggles, and_self, if_true,
              if_false]
          rw [hnext]
          rfl
        | some toggles =>
          have hnext : ClientMachine.handleResult s result =
              { s with polling := .persist toggles } := by
            simp only [ClientMachine.handleResult, herr, h304, hok, htoggles, and_self, if_true,
              if_false]
          rw [hnext]
          show finishPersist P s.client toggles = (finishPersist P s.client toggles).map _
          cases finishPersist P s.client toggles <;> rfl
      · have hnext : ClientMachine.handleResult s result = { s with polling := .threw } := by
          simp only [ClientMachine.handleResult, herr, h304, hok, if_false]
        rw [hnext, if_neg h304, if_neg hok]
        rfl
  | persist toggles =>
    cases hsave : P.save s.client.storage toggles with
    | error _ =>
      simp only [ClientMachine.pollStep, hsave] at hc
      cases hc
      show finishPersist P s.client toggles = none
      rw [finishPersist, hsave]
    | ok storage =>
      simp only [ClientMachine.pollStep, hsave] at hc
      cases hc
      show finishPersist P s.client toggles = _
      rw [finishPersist, hsave]
      rfl
  | storeSnapshot toggles =>
    cases hc
    rfl
  | storeReady =>
    cases hc
    rfl
  | exchangeReady =>
    cases hc
    cases hready : s.client.ready <;> simp [finish, announcement, emitsAfter, hready]

/-! ## The simulation -/

/-- The events that the polling thread has emitted. -/
def emittedEvents (event : Nat → ClientEvent) (s : State σ C) : List ClientEvent :=
  (List.range s.emitted).map fun n => event (pollingCall n)

/-- What the sequential client does at a step. -/
def sequentially (J : JsonLib) (P : StorageProvider σ) (s : State σ C) :
    Act C → List SequentialClient.Act
  | .client (.reply resp) =>
    match s.client.polling with
    | .fetch ctx =>
      if (s.client.client.singleFetchToggles J P ctx resp).isSome then [.fetch ctx resp] else []
    | _ => []
  | .client .control =>
    match s.client.control with
    | .storeReady => [.ready]
    | _ => []
  | _ => []

/-- The sequential client is where the client will be at the end of its fetch. -/
def Finishes (P : StorageProvider σ) (event : Nat → ClientEvent) (s : State σ C)
    (a : SequentialClient.State σ) : Prop :=
  ∀ c es, finish P s.client.client s.client.polling = some (c, es) →
    a.client = c ∧ a.events = emittedEvents event s ++ s.owed ++ es

structure Related (P : StorageProvider σ) (event : Nat → ClientEvent) (s : State σ C)
    (a : SequentialClient.State σ) : Prop where
  inv : ClientMachine.Inv s.client
  emits : Emits event s
  finishes : Finishes P event s a

/-- A step that leaves the polling thread and what it works on alone. -/
theorem Finishes.frame {P : StorageProvider σ} {event : Nat → ClientEvent} {s s' : State σ C}
    {a : SequentialClient.State σ} (h : Finishes P event s a)
    (hclient : s'.client.client = s.client.client) (hpolling : s'.client.polling = s.client.polling)
    (howed : s'.owed = s.owed) (hemitted : s'.emitted = s.emitted) : Finishes P event s' a := by
  intro c es hfinish
  rw [hclient, hpolling] at hfinish
  obtain ⟨hc, hevents⟩ := h c es hfinish
  refine ⟨hc, ?_⟩
  rw [hevents, emittedEvents, emittedEvents, howed, hemitted]

/-- A step of `start()` or `stop()`: the polling thread is away, or is not concerned. -/
theorem finishes_control {J : JsonLib} {P : StorageProvider σ} {event : Nat → ClientEvent}
    {s : State σ C} {c : ClientMachine.State σ} {a : SequentialClient.State σ}
    (h : Related P event s a) (hc : ClientMachine.controlStep s.client s.client.control = some c) :
    ∃ a', Machine.run (SequentialClient.step J P) a (sequentially J P s (.client .control)) =
        some a' ∧ Finishes P event { s with client := c } a' := by
  have hstarting := h.inv.starting
  generalize hcontrol : s.client.control = control at hc hstarting
  have hquiet : control ≠ .storeReady → sequentially J P s (.client .control) = [] := by
    intro hne
    show (match s.client.control with
      | .storeReady => [SequentialClient.Act.ready]
      | _ => []) = []
    rw [hcontrol]
    cases control <;> first | rfl | exact absurd rfl hne
  cases ClientMachine.controlStep_change hc with
  | storeReady =>
    have habsent := hstarting rfl
    have hready : sequentially J P s (.client .control) = [.ready] := by
      show (match s.client.control with
        | .storeReady => [SequentialClient.Act.ready]
        | _ => []) = _
      rw [hcontrol]
    rw [hready]
    refine ⟨_, rfl, fun c es hfinish => ?_⟩
    obtain ⟨hclient, hevents⟩ := h.finishes s.client.client [] (by rw [habsent]; rfl)
    have hfinish : finish P { s.client.client with ready := true } s.client.polling = _ := hfinish
    rw [habsent] at hfinish
    cases hfinish
    exact ⟨by rw [hclient], hevents⟩
  | spawn habsent =>
    rw [hquiet (by simp)]
    refine ⟨a, rfl, fun c es hfinish => ?_⟩
    cases hfinish
    exact h.finishes _ _ (by rw [habsent]; rfl)
  | join hended =>
    rw [hquiet (by simp)]
    refine ⟨a, rfl, fun c es hfinish => ?_⟩
    cases hfinish
    exact h.finishes _ _ (by rw [hended]; rfl)
  | testStore | clearExit | setExit =>
    rw [hquiet (by simp)]
    exact ⟨a, rfl, h.finishes.frame rfl rfl rfl rfl⟩

/-- The reply: from here on the fetch counts. -/
theorem finishes_reply {J : JsonLib} {P : StorageProvider σ} {config : ClientConfig}
    {query : Nat → Query} {event : Nat → ClientEvent} {s : State σ C}
    {c : ClientMachine.State σ} {a : SequentialClient.State σ} {resp : HttpReply}
    (h : Related P event s a)
    (hc : ClientMachine.Change J P config query s.client (.reply resp) c) :
    ∃ a', Machine.run (SequentialClient.step J P) a (sequentially J P s (.client (.reply resp))) =
        some a' ∧ Finishes P event { s with client := c } a' := by
  have hanswer : ∀ ctx, s.client.polling = .fetch ctx →
      sequentially J P s (.client (.reply resp)) =
        if (s.client.client.singleFetchToggles J P ctx resp).isSome then [.fetch ctx resp]
        else [] := by
    intro ctx hp
    simp only [sequentially, hp]
  cases hc with
  | printerThrew _ ctx hp hfetch =>
    have hnone : s.client.client.singleFetchToggles J P ctx resp = none := by
      rw [singleFetchToggles_eq, hfetch]
    rw [hanswer ctx hp, hnone]
    refine ⟨a, rfl, fun c es hfinish => ?_⟩
    cases hfinish
  | replied _ ctx result fetcher hp hfetch =>
    obtain ⟨hclient, hevents⟩ := h.finishes s.client.client [] (by rw [hp]; rfl)
    have heq := singleFetchToggles_eq J P s.client.client ctx resp
    rw [hfetch] at heq
    rw [hanswer ctx hp]
    cases hsequential : s.client.client.singleFetchToggles J P ctx resp with
    | none =>
      refine ⟨a, rfl, fun c es hfinish => ?_⟩
      have hfinish : s.client.client.singleFetchToggles J P ctx resp = some (c, es) :=
        heq.trans hfinish
      rw [hsequential] at hfinish
      cases hfinish
    | some r =>
      refine ⟨{ client := r.1, events := a.events ++ r.2 }, ?_, fun c es hfinish => ?_⟩
      · simp only [Option.isSome_some, if_true, Machine.run, SequentialClient.step, hclient,
          hsequential, Option.map_some]
      · have hfinish : s.client.client.singleFetchToggles J P ctx resp = some (c, es) :=
          heq.trans hfinish
        rw [hsequential] at hfinish
        cases hfinish
        refine ⟨rfl, ?_⟩
        rw [hevents, List.append_nil]
        rfl

theorem related_initial {P : StorageProvider σ} {config : ClientConfig} {storage : σ}
    {client : UnleashClient σ} (event : Nat → ClientEvent) (ctx : Context)
    (hmake : UnleashClient.make P config storage = some client) :
    Related P event (initial client ctx : State σ C) { client := client } := by
  refine ⟨ClientMachine.inv_initial hmake ctx, emits_initial event client ctx, ?_⟩
  intro c es hfinish
  cases hfinish
  exact ⟨rfl, rfl⟩

/-- **The sequential client simulates the polling thread.** -/
theorem simulates_sequentially (J : JsonLib) (P : StorageProvider σ) (config : ClientConfig)
    (query : Nat → Query) (event : Nat → ClientEvent) :
    Machine.Simulates (step (C := C) J P config query event) (SequentialClient.step J P)
      (sequentially J P) (Related P event) := by
  intro s a act s' h hstep
  have hchange := step_change hstep
  have hemits := emits_change h.emits hchange
  cases hchange with
  | client act c hfree hc =>
    have hclient := ClientMachine.step_change hc
    have hinv := ClientMachine.inv_change h.inv hclient
    have hothers : ∀ act', act = act' → owes s.client act' = [] →
        sequentially J P s (.client act') = [] → c.client = s.client.client →
        c.polling = s.client.polling → ∃ a', Machine.run (SequentialClient.step J P) a
          (sequentially J P s (.client act)) = some a' ∧ Related P event
            { s with client := c, owed := s.owed ++ owes s.client act } a' := by
      rintro act' rfl howes hanswer hsame hpolling
      rw [hanswer]
      refine ⟨a, rfl, hinv, hemits, h.finishes.frame hsame hpolling ?_ rfl⟩
      show s.owed ++ owes s.client act = s.owed
      rw [howes, List.append_nil]
    have hnothing : s.owed ++ [] = s.owed := List.append_nil _
    cases act with
    | start =>
      refine hothers .start rfl rfl rfl ?_ ?_ <;> cases hclient <;> rfl
    | stop =>
      refine hothers .stop rfl rfl rfl ?_ ?_ <;> cases hclient <;> rfl
    | updateContext mutableContext =>
      refine hothers (.updateContext mutableContext) rfl rfl rfl ?_ ?_ <;> cases hclient <;> rfl
    | call t =>
      cases hclient with
      | call _ c hcall =>
        have hframe := ClientMachine.callChange_frame hcall
        exact hothers (.call t) rfl rfl rfl hframe.client hframe.polling
    | control =>
      cases hclient with
      | control c hcontrol =>
        obtain ⟨a', hrun, hfinishes⟩ := finishes_control (J := J) h hcontrol
        exact ⟨a', hrun, hinv, hemits, hfinishes.frame rfl rfl hnothing rfl⟩
    | reply resp =>
      obtain ⟨a', hrun, hfinishes⟩ := finishes_reply h hclient
      exact ⟨a', hrun, hinv, hemits, hfinishes.frame rfl rfl hnothing rfl⟩
    | poll =>
      cases hclient with
      | poll c hpoll =>
        refine ⟨a, rfl, hinv, hemits, fun c' es hfinish => ?_⟩
        have hbefore := finish_step hpoll
        have hfinish : finish P c.client c.polling = some (c', es) := hfinish
        rw [hfinish] at hbefore
        obtain ⟨hclient, hevents⟩ := h.finishes _ _ hbefore
        refine ⟨hclient, ?_⟩
        rw [hevents]
        show _ = emittedEvents event s ++ (s.owed ++ owes s.client .poll) ++ es
        simp only [owes, List.append_assoc]
  | events act e hmay he => exact ⟨a, rfl, h.inv, hemits, h.finishes.frame rfl rfl rfl rfl⟩
  | emitted e rest howed hreturned =>
    refine ⟨a, rfl, h.inv, hemits, fun c es hfinish => ?_⟩
    obtain ⟨hclient, hevents⟩ := h.finishes c es hfinish
    refine ⟨hclient, ?_⟩
    have hhead := h.emits.head_returned howed hreturned
    rw [hevents, howed]
    show _ = (List.range (s.emitted + 1)).map _ ++ rest ++ es
    rw [List.range_succ, List.map_append, List.map_singleton, hhead]
    simp [emittedEvents]

end ClientEvents

end Unleash
