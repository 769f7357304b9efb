/-
  READINESS: two flags and a snapshot.

  The store's flag is set after the first snapshot, the client's flag after that, by whoever finds
  the store filled: `start()`, for a client that was constructed with toggles, and the polling
  thread.  Three tests keep empty sets out, and each is on another thing: the bootstrap's map, the
  set from the storage, and the set that the fetcher has decoded.  `Inv` says what this comes to:

      client ready  →  store ready  →  snapshot not empty

  and, once a `start()` is past its test, that the first arrow can be turned around except while
  the polling thread stands between the two flags (`exchangeReady`).
-/
import UnleashSdk.ClientMachine

set_option linter.unusedVariables false

namespace Unleash

/-! ## What comes from where is not empty -/

/-- The result of a fetch has toggles only if there are some. -/
theorem ToggleFetcher.fetch_toggles {J : JsonLib} {f f' : ToggleFetcher} {ctx : Context}
    {resp : HttpReply} {result : FetchResult} {toggles : ToggleSet}
    (h : f.fetch J ctx resp = some (result, f')) (htoggles : result.toggles = some toggles) :
    toggles.size ≠ 0 := by
  unfold ToggleFetcher.fetch at h
  split at h
  · cases h
  rename_i g hg
  have hresult : (g.handle J resp).1 = result := congrArg Prod.fst (Option.some.inj h)
  cases hacc : accepted J resp with
  | none =>
    have hnone := (g.handle_rejected hacc).2.1
    rw [hresult, htoggles] at hnone
    cases hnone
  | some p =>
    obtain ⟨r, s⟩ := p
    rw [g.handle_accepted hacc] at hresult
    rw [← hresult] at htoggles
    simp only at htoggles
    split at htoggles <;> cases htoggles
    assumption

/-- An overriding bootstrap has toggles. -/
theorem ClientConfig.overridingBootstrap_size {config : ClientConfig} {s : ToggleSet}
    (h : config.overridingBootstrap = some s) : s.size ≠ 0 := by
  unfold ClientConfig.overridingBootstrap at h
  split at h
  · cases h
  rename_i b hb
  split at h <;> cases h
  rename_i hcond
  rw [Bool.and_eq_true, Bool.not_eq_true', List.isEmpty_eq_false_iff] at hcond
  exact fun hsize => hcond.2 (List.length_eq_zero_iff.mp hsize)

/-- A constructed client is not ready, and its store is ready only with toggles. -/
theorem UnleashClient.make_ready {σ : Type} {P : StorageProvider σ} {config : ClientConfig}
    {storage : σ} {c : UnleashClient σ} (h : UnleashClient.make P config storage = some c) :
    c.ready = false ∧ (c.flagStore.ready = true → c.flagStore.snapshot.size ≠ 0) := by
  rw [UnleashClient.make_eq] at h
  split at h
  · rename_i s hs
    cases h
    refine ⟨rfl, fun _ => ?_⟩
    have hsize := (Option.filter_eq_some_iff.mp hs).2
    simpa using hsize
  · cases h
    refine ⟨rfl, fun hready => ?_⟩
    cases hready
  · rename_i b _ hb
    split at h <;> cases h
    exact ⟨rfl, fun _ => ClientConfig.overridingBootstrap_size hb⟩

namespace ClientMachine

variable {σ : Type}

/-! ## The invariant -/

/-- `start()` is past its gate and has not created the threads. -/
def Control.starting : Control → Bool
  | .testStore | .storeReady | .clearExit | .spawn => true
  | _ => false

/-- What the polling thread holds in its hands is not empty, and what it has stored is there. -/
def Holding (p : PollPc) (store : FlagStore) : Prop :=
  match p with
  | .handle result => ∀ toggles, result.toggles = some toggles → toggles.size ≠ 0
  | .persist toggles | .storeSnapshot toggles => toggles.size ≠ 0
  | .storeReady => store.snapshot.size ≠ 0
  | .exchangeReady => store.ready = true
  | _ => True

structure Inv (s : State σ) : Prop where
  nonempty : s.client.flagStore.ready = true → s.client.flagStore.snapshot.size ≠ 0
  ready : s.client.ready = true → s.client.flagStore.ready = true
  holding : Holding s.polling s.client.flagStore
  -- one polling thread at a time
  starting : s.control.starting = true → s.polling = .absent
  resting : s.control = .idle → s.running = false → s.polling = .absent
  -- `start()` has found the store ready, and declares the client ready
  tested : s.control = .storeReady → s.client.flagStore.ready = true
  announced : s.startReturned = true ∨ s.control = .clearExit ∨ s.control = .spawn →
    s.polling ≠ .exchangeReady → s.client.flagStore.ready = true → s.client.ready = true

theorem inv_initial {P : StorageProvider σ} {config : ClientConfig} {storage : σ}
    {client : UnleashClient σ} (h : UnleashClient.make P config storage = some client)
    (ctx : Context) : Inv (initial client ctx) := by
  obtain ⟨hready, hstore⟩ := UnleashClient.make_ready h
  refine ⟨hstore, fun hr => ?_, trivial, fun _ => rfl, fun _ _ => rfl, fun hc => ?_, fun hs => ?_⟩
  · exact absurd (hready.symm.trans hr) (by decide)
  · cases hc
  · rcases hs with hs | hs | hs <;> cases hs

/-- A step that leaves everything alone that the invariant is about. -/
theorem Inv.frame {s s' : State σ} (h : Inv s) (hstore : s'.client.flagStore = s.client.flagStore)
    (hready : s'.client.ready = s.client.ready) (hcontrol : s'.control = s.control)
    (hpolling : s'.polling = s.polling) (hrunning : s'.running = s.running)
    (hreturned : s'.startReturned = s.startReturned) : Inv s' := by
  obtain ⟨h₁, h₂, h₃, h₄, h₅, h₆, h₇⟩ := h
  constructor
  all_goals simp only [hstore, hready, hcontrol, hpolling, hrunning, hreturned]
  all_goals assumption

/-- The polling thread moves on and changes no flag. -/
theorem Inv.move {s s' : State σ} (h : Inv s) (habsent : s.polling ≠ .absent)
    (hexchange : s.polling ≠ .exchangeReady)
    (hstore : s'.client.flagStore = s.client.flagStore)
    (hready : s'.client.ready = s.client.ready) (hcontrol : s'.control = s.control)
    (hrunning : s'.running = s.running) (hreturned : s'.startReturned = s.startReturned)
    (hholding : Holding s'.polling s.client.flagStore) : Inv s' where
  nonempty := by
    rw [hstore]
    exact h.nonempty
  ready := by
    rw [hready, hstore]
    exact h.ready
  holding := by
    rw [hstore]
    exact hholding
  starting hc := absurd (h.starting (by rw [← hcontrol]; exact hc)) habsent
  resting hc hr := absurd (h.resting (hcontrol.symm.trans hc) (hrunning.symm.trans hr)) habsent
  tested := by
    rw [hcontrol, hstore]
    exact h.tested
  announced hs _ := by
    rw [hreturned, hcontrol] at hs
    rw [hstore, hready]
    exact h.announced hs hexchange

/-- The same for a thread that does nothing else. -/
theorem Inv.goto {s : State σ} {p q : PollPc} (h : Inv s) (hp : s.polling = p)
    (habsent : p ≠ .absent) (hexchange : p ≠ .exchangeReady)
    (hholding : Holding q s.client.flagStore) : Inv { s with polling := q } :=
  h.move (by rwa [hp]) (by rwa [hp]) rfl rfl rfl rfl rfl hholding

/-- While the polling thread is on its way nobody starts the client. -/
theorem Inv.alone {s : State σ} (h : Inv s) (habsent : s.polling ≠ .absent) :
    s.control.starting = false ∧ ¬ (s.control = .idle ∧ s.running = false) :=
  ⟨Bool.eq_false_iff.mpr fun hc => habsent (h.starting hc),
    fun hidle => habsent (h.resting hidle.1 hidle.2)⟩

theorem inv_poll {P : StorageProvider σ} {config : ClientConfig} {s s' : State σ} {p : PollPc}
    (h : Inv s) (hp : s.polling = p) (hc : PollChange P config s p s') : Inv s' := by
  have hholding : Holding p s.client.flagStore := hp ▸ h.holding
  cases hc with
  | testEnabled =>
    refine h.goto hp (by simp) (by simp) ?_
    split <;> trivial
  | copy => exact h.goto hp (by simp) (by simp) trivial
  | handle result =>
    refine handleResult_cases s result (fun sdkState => ?_) ?_ (fun toggles htoggles => ?_) ?_
    · exact h.move (by rw [hp]; simp) (by rw [hp]; simp) rfl rfl rfl rfl rfl trivial
    · exact h.goto hp (by simp) (by simp) trivial
    · exact h.goto hp (by simp) (by simp) (hholding toggles htoggles)
    · exact h.goto hp (by simp) (by simp) trivial
  | notSaved toggles => exact h.goto hp (by simp) (by simp) trivial
  | saved toggles storage =>
    exact h.move (by rw [hp]; simp) (by rw [hp]; simp) rfl rfl rfl rfl rfl hholding
  | storeSnapshot toggles =>
    -- the snapshot changes before the flag does
    obtain ⟨hstarting, hresting⟩ := h.alone (by rw [hp]; simp)
    exact ⟨fun _ => hholding, h.ready, hholding, fun hc => absurd hc (by rw [hstarting]; simp),
      fun hc hr => absurd ⟨hc, hr⟩ hresting, h.tested,
      fun hs _ => h.announced hs (by rw [hp]; simp)⟩
  | storeReady =>
    obtain ⟨hstarting, hresting⟩ := h.alone (by rw [hp]; simp)
    exact ⟨fun _ => hholding, fun _ => rfl, rfl, fun hc => absurd hc (by rw [hstarting]; simp),
      fun hc hr => absurd ⟨hc, hr⟩ hresting, fun _ => rfl, fun _ hexchange => absurd rfl hexchange⟩
  | exchangeReady =>
    obtain ⟨hstarting, hresting⟩ := h.alone (by rw [hp]; simp)
    exact ⟨h.nonempty, fun _ => hholding, trivial, fun hc => absurd hc (by rw [hstarting]; simp),
      fun hc hr => absurd ⟨hc, hr⟩ hresting, h.tested, fun _ _ _ => rfl⟩
  | testExit =>
    refine h.goto hp (by simp) (by simp) ?_
    split <;> trivial
  | wait => exact h.goto hp (by simp) (by simp) trivial
  | testExitAgain ctx =>
    refine h.goto hp (by simp) (by simp) ?_
    split <;> trivial

/-- A `start()` has returned, unless one is about to. -/
theorem returned_of {returned : Prop} {c : Control}
    (h : returned ∨ c = .clearExit ∨ c = .spawn) (hclear : c ≠ .clearExit) (hspawn : c ≠ .spawn) :
    returned := by
  rcases h with h | h | h
  · exact h
  · exact absurd h hclear
  · exact absurd h hspawn

theorem inv_control {s s' : State σ} {c : Control} (h : Inv s) (hs : s.control = c)
    (hc : ControlChange s c s') : Inv s' := by
  have habsent : c.starting = true → s.polling = .absent := by
    intro hstarting
    exact h.starting (by rw [hs]; exact hstarting)
  cases hc with
  | testStore =>
    have habsent := habsent rfl
    refine ⟨h.nonempty, h.ready, h.holding, fun _ => habsent, fun _ _ => habsent, fun ht => ?_,
      fun hreturned hexchange hstore => ?_⟩
    · by_contra hnot
      have ht : (if s.client.flagStore.ready then Control.storeReady else .clearExit) =
        .storeReady := ht
      rw [if_neg hnot] at ht
      cases ht
    · -- a store that is ready sends `start()` to the other branch
      have hstore : s.client.flagStore.ready = true := hstore
      have hbranch : (if s.client.flagStore.ready then Control.storeReady else .clearExit) =
        .storeReady := if_pos hstore
      have hreturned := returned_of hreturned (by rw [hbranch]; simp) (by rw [hbranch]; simp)
      exact h.announced (Or.inl hreturned) hexchange hstore
  | storeReady =>
    have habsent := habsent rfl
    exact ⟨h.nonempty, fun _ => h.tested hs, h.holding, fun _ => habsent, fun _ _ => habsent,
      fun _ => h.tested hs, fun _ _ _ => rfl⟩
  | clearExit =>
    have habsent := habsent rfl
    refine ⟨h.nonempty, h.ready, h.holding, fun _ => habsent, fun _ _ => habsent, fun ht => ?_,
      fun _ => h.announced (Or.inr (Or.inl hs))⟩
    cases ht
  | spawn hpolling =>
    refine ⟨h.nonempty, h.ready, trivial, fun hs => ?_, fun _ hr => ?_, fun ht => ?_, fun _ _ => ?_⟩
    · cases hs
    · cases hr
    · cases ht
    · exact h.announced (Or.inr (Or.inr hs)) (by rw [hpolling]; simp)
  | setExit =>
    refine ⟨h.nonempty, h.ready, h.holding, fun hs => ?_, fun hi => ?_, fun ht => ?_, fun hs => ?_⟩
    · cases hs
    · cases hi
    · cases ht
    · exact h.announced (Or.inl (returned_of hs (by simp) (by simp)))
  | join hended =>
    refine ⟨h.nonempty, h.ready, trivial, fun _ => rfl, fun _ _ => rfl, fun ht => ?_,
      fun hs _ => ?_⟩
    · cases ht
    · exact h.announced (Or.inl (returned_of hs (by simp) (by simp))) (by rw [hended]; simp)

/-- **Step lemma.** -/
theorem inv_change {J : JsonLib} {P : StorageProvider σ} {config : ClientConfig}
    {query : Nat → Query} {s s' : State σ} {a : Act} (h : Inv s)
    (hc : Change J P config query s a s') : Inv s' := by
  cases hc with
  | startedAlready hc hr => exact h
  | start hc hr =>
    have habsent : s.polling = .absent := h.resting hc hr
    refine ⟨h.nonempty, h.ready, h.holding, fun _ => habsent, fun _ _ => habsent, fun ht => ?_,
      fun hs => ?_⟩
    · cases ht
    · exact h.announced (Or.inl (returned_of hs (by simp) (by simp)))
  | stoppedAlready hc hr => exact h
  | stop hc hr =>
    refine ⟨h.nonempty, h.ready, h.holding, fun hs => ?_, fun hi => ?_, fun ht => ?_, fun hs => ?_⟩
    · cases hs
    · cases hi
    · cases ht
    · exact h.announced (Or.inl (returned_of hs (by simp) (by simp)))
  | control s' hstep => exact inv_control h rfl (controlStep_change hstep)
  | poll s' hstep => exact inv_poll h rfl (pollStep_change hstep)
  | printerThrew resp ctx hp hfetch =>
    exact h.move (by rw [hp]; simp) (by rw [hp]; simp) rfl rfl rfl rfl rfl trivial
  | replied resp ctx result fetcher hp hfetch =>
    refine h.move (by rw [hp]; simp) (by rw [hp]; simp) rfl rfl rfl rfl rfl ?_
    exact fun toggles htoggles => ToggleFetcher.fetch_toggles hfetch htoggles
  | updateContext mutableContext => exact h.frame rfl rfl rfl rfl rfl rfl
  | call t s' hstep =>
    have hframe := callChange_frame hstep
    exact h.frame (by rw [hframe.client]) (by rw [hframe.client]) hframe.control hframe.polling
      hframe.running hframe.startReturned

/-! ## No flag is cleared -/

theorem flags_change {J : JsonLib} {P : StorageProvider σ} {config : ClientConfig}
    {query : Nat → Query} {s s' : State σ} {a : Act} (hc : Change J P config query s a s') :
    (s.client.ready = true → s'.client.ready = true) ∧
    (s.client.flagStore.ready = true → s'.client.flagStore.ready = true) := by
  cases hc with
  | control s' h =>
    generalize s.control = c at h
    cases controlStep_change h with
    | storeReady => exact ⟨fun _ => rfl, fun hr => hr⟩
    | _ => exact ⟨fun hr => hr, fun hr => hr⟩
  | poll s' h =>
    generalize s.polling = p at h
    cases pollStep_change h with
    | handle result =>
      refine handleResult_cases s result ?_ ?_ ?_ ?_ <;> intros <;>
        exact ⟨fun hr => hr, fun hr => hr⟩
    | storeReady => exact ⟨fun hr => hr, fun _ => rfl⟩
    | exchangeReady => exact ⟨fun _ => rfl, fun hr => hr⟩
    | _ => exact ⟨fun hr => hr, fun hr => hr⟩
  | call t s' h =>
    rw [(callChange_frame h).client]
    exact ⟨fun hr => hr, fun hr => hr⟩
  | _ => exact ⟨fun hr => hr, fun hr => hr⟩

/-- **Readiness.**  In every state that a constructed client can reach: a ready client has a ready
    store and a snapshot with toggles, a ready store has such a snapshot, whatever happens next
    neither flag is cleared, and once a `start()` has returned the client is ready with its store
    whenever no fetch is in progress. -/
theorem readiness (J : JsonLib) (P : StorageProvider σ) (config : ClientConfig)
    (query : Nat → Query) (storage : σ) (client : UnleashClient σ)
    (hmake : UnleashClient.make P config storage = some client) (ctx : Context) (as : List Act)
    (s : State σ)
    (hrun : Machine.run (step J P config query) (initial client ctx) as = some s) :
    (s.client.ready = true →
      s.client.flagStore.ready = true ∧ s.client.flagStore.snapshot.size ≠ 0) ∧
    (s.client.flagStore.ready = true → s.client.flagStore.snapshot.size ≠ 0) ∧
    (∀ bs t, Machine.run (step J P config query) s bs = some t →
      (s.client.ready = true → t.client.ready = true) ∧
      (s.client.flagStore.ready = true → t.client.flagStore.ready = true)) ∧
    (s.startReturned = true → s.polling.fetching = false →
      s.client.flagStore.ready = true → s.client.ready = true) := by
  have h : Inv s := Machine.run_inv (I := Inv) (fun _ _ _ hs hstep => inv_change hs
    (step_change hstep)) (inv_initial hmake ctx) hrun
  refine ⟨fun hr => ⟨h.ready hr, h.nonempty (h.ready hr)⟩, h.nonempty, fun bs t hbs => ?_,
    fun hs hfetching => h.announced (Or.inl hs) fun hexchange => ?_⟩
  · refine Machine.run_inv (I := fun t => (s.client.ready = true → t.client.ready = true) ∧
      (s.client.flagStore.ready = true → t.client.flagStore.ready = true)) ?_
      ⟨fun hr => hr, fun hr => hr⟩ hbs
    intro u a v hu hstep
    have hv := flags_change (step_change hstep)
    exact ⟨fun hr => hv.1 (hu.1 hr), fun hr => hv.2 (hu.2 hr)⟩
  · rw [hexchange] at hfetching
    cases hfetching

/-- A configuration with one flag in its bootstrap. -/
def bootstrapped : ClientConfig :=
  { ClientConfig.make (bytes "u") (bytes "k") (bytes "app") [] with
    bootstrap := some ⟨(∅ : KeyMap Bytes Toggle).insert (bytes "a") { name := bytes "a" }⟩ }

/-- Its client is started once, and is ready. -/
theorem readiness_bootstrapped :
    ∃ client s, UnleashClient.make localStorageProvider bootstrapped () = some client ∧
      Machine.run (step JsonText.compact localStorageProvider bootstrapped
        fun _ => ⟨.isEnabled, bytes "a"⟩) (initial client UnleashClient.plainContext)
        [.start, .control, .control, .control, .control] = some s ∧
      s.startReturned = true ∧ s.client.ready = true ∧
      s.client.flagStore.ready = true ∧ s.client.flagStore.snapshot.size ≠ 0 :=
  ⟨_, _, rfl, rfl, rfl, rfl, (readiness JsonText.compact localStorageProvider bootstrapped
    (fun _ => ⟨.isEnabled, bytes "a"⟩) () _ rfl UnleashClient.plainContext
    [.start, .control, .control, .control, .control] _ rfl).1 rfl⟩

end ClientMachine

end Unleash
