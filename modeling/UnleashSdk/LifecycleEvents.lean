/-
  THE EVENTS OF START, and why nobody hears them.

  `start()` emits Init, and Ready if the store is ready, before it starts the event handler, and
  a handler that is not started drops what is emitted.  Only a `start()` that is past its
  emission starts the handler, so the first Init of a client is always dropped:

    * as long as no `start()` has executed `emitInit()`, nothing has been emitted (`Untouched`);
    * the first one to execute it loses its Init for good (`Lost`).

  So the events are kept on a run exactly if no `start()` gets that far.
-/
import UnleashSdk.ReadyEvents

set_option linter.unusedVariables false

namespace Unleash

namespace Lifecycle

/-! ## What is kept -/

def Act.isStartOf (t : Nat) : Act → Bool
  | .start u => u = t
  | _ => false

/-- How often thread `t` has passed the gate of `start()`. -/
def starts (as : List Act) (t : Nat) : Nat := as.countP (Act.isStartOf t)

/-- A `start()` that has its Init still to emit. -/
def Pc.pending : Pc → Nat
  | .emitInit => 1
  | .pushInit => 1
  | _ => 0

/-- Every `start()` past its emission has enqueued one Init. -/
def InitKept (as : List Act) (s : State) : Prop :=
  ∀ t, s.events.log.count ⟨.init, .call t, true⟩ + (s.calls t).pending = starts as t

structure EventsKept (as : List Act) (s : State) : Prop where
  init : InitKept as s
  ready : ReadyKept s

/-- The step does not execute the `emitInit()` of a `start()`. -/
def NoInitEmission (s : State) : Act → Prop
  | .next t => s.calls t ≠ .emitInit
  | _ => True

/-! ## Every start() emits one Init -/

def Emission.isInitOf (t : Nat) (e : Emission) : Bool := e.kind = .init && e.emitter = .call t

/-- The Inits that thread `t` has emitted, enqueued or not, or has still to emit. -/
def inits (s : State) (t : Nat) : Nat :=
  s.events.log.countP (Emission.isInitOf t) + (s.calls t).pending

/-- A step of thread `t`'s call: it goes to `q`, and what it adds to the log is its own. -/
structure Logs (s s' : State) (t : Nat) (q : Pc) (es : List Emission) : Prop where
  calls : s'.calls = Function.update s.calls t q
  log : s'.events.log = s.events.log ++ es
  own : ∀ e ∈ es, e.emitter = .call t
  pending : es.countP (Emission.isInitOf t) + q.pending = (s.calls t).pending

theorem Logs.quiet {s s' : State} {t : Nat} {q : Pc}
    (hcalls : s'.calls = Function.update s.calls t q) (hlog : s'.events.log = s.events.log)
    (hq : q.pending = (s.calls t).pending) : ∃ q es, Logs s s' t q es :=
  ⟨q, [], hcalls, by rw [hlog, List.append_nil], fun e he => (by cases he), by simpa using hq⟩

theorem Logs.note {s s' : State} {t : Nat} {q : Pc} {kind : EventKind} {enqueued : Bool}
    (hcalls : s'.calls = Function.update s.calls t q)
    (hlog : s'.events.log = s.events.log ++ [⟨kind, .call t, enqueued⟩])
    (hq : (if kind = .init then 1 else 0) + q.pending = (s.calls t).pending) :
    ∃ q es, Logs s s' t q es := by
  refine ⟨q, _, hcalls, hlog, fun e he => ?_, ?_⟩
  · rw [List.mem_singleton.mp he]
  · rw [List.countP_singleton, ← hq]
    simp [Emission.isInitOf]

/-- What a call adds to the log is its own, and once emitted an Init is no longer pending. -/
theorem callStep_log {c : Setting} {s s' : State} {t : Nat}
    (h : callStep c s t (s.calls t) = some s') : ∃ q es, Logs s s' t q es := by
  generalize hp : s.calls t = p at h
  cases p with
  | idle => cases h
  | emitInit =>
    simp only [callStep, emit] at h
    split at h <;> cases h
    · exact Logs.quiet rfl rfl (by rw [hp]; rfl)
    · exact Logs.note rfl rfl (by rw [hp]; rfl)
  | pushInit => cases h; exact Logs.note rfl rfl (by rw [hp]; rfl)
  | testStore =>
    cases h
    refine Logs.quiet rfl rfl ?_
    rw [hp]
    split <;> rfl
  | emitReady =>
    simp only [callStep, emit] at h
    split at h <;> cases h
    · exact Logs.quiet rfl rfl (by rw [hp]; rfl)
    · exact Logs.note rfl rfl (by rw [hp]; rfl)
  | pushReady => cases h; exact Logs.note rfl rfl (by rw [hp]; rfl)
  | storeReady => cases h; exact Logs.quiet rfl rfl (by rw [hp]; rfl)
  | clearExit => cases h; exact Logs.quiet rfl rfl (by rw [hp]; rfl)
  | startHandler => cases h; exact Logs.quiet rfl rfl (by rw [hp]; rfl)
  | spawn k => cases k <;> cases h <;> exact Logs.quiet rfl rfl (by rw [hp]; rfl)
  | storeRunning => cases h; exact Logs.quiet rfl rfl (by rw [hp]; rfl)
  | setExit => cases h; exact Logs.quiet rfl rfl (by rw [hp]; rfl)
  | notify k => cases k <;> cases h <;> exact Logs.quiet rfl rfl (by rw [hp]; rfl)
  | testJoinable k =>
    cases h
    refine Logs.quiet rfl rfl ?_
    rw [hp]
    cases k <;> split <;> rfl
  | join k =>
    simp only [callStep] at h
    split at h
    · cases h
      exact Logs.quiet (Function.update_eq_self t s.calls).symm rfl rfl
    · split at h <;> cases h
      refine Logs.quiet rfl rfl ?_
      rw [hp]
      cases k <;> rfl
  | stopHandler => cases h; exact Logs.quiet rfl rfl (by rw [hp]; rfl)
  | storeStopped => cases h; exact Logs.quiet rfl rfl (by rw [hp]; rfl)

/-- What a worker adds to the log is its own. -/
theorem workerStep_log {c : Setting} {s s' : State} {w : Nat} {p : WorkerPc}
    (h : workerStep c s w p = some s') :
    ∃ es, s'.events.log = s.events.log ++ es ∧ ∀ e ∈ es, e.emitter = .worker w := by
  have hquiet : s'.events.log = s.events.log →
      ∃ es, s'.events.log = s.events.log ++ es ∧ ∀ e ∈ es, e.emitter = .worker w :=
    fun hlog => ⟨[], by rw [hlog, List.append_nil], fun e he => by cases he⟩
  have hnote : ∀ (kind : EventKind) (enqueued : Bool),
      s'.events.log = s.events.log ++ [⟨kind, .worker w, enqueued⟩] →
      ∃ es, s'.events.log = s.events.log ++ es ∧ ∀ e ∈ es, e.emitter = .worker w :=
    fun kind enqueued hlog => ⟨_, hlog, fun e he => by rw [List.mem_singleton.mp he]⟩
  have hemit : ∀ kind push next,
      emit s kind (.worker w) (·.gotoWorker w push) (·.gotoWorker w next) = s' →
      ∃ es, s'.events.log = s.events.log ++ es ∧ ∀ e ∈ es, e.emitter = .worker w := by
    intro kind push next he
    unfold emit at he
    split at he
    · exact hquiet (by rw [← he]; rfl)
    · exact hnote kind false (by rw [← he]; rfl)
  cases p with
  | waiting => cases h
  | exchangeReady => cases h; exact hquiet rfl
  | emitReady => exact hemit .ready .pushReady .emitUpdate (Option.some.inj h)
  | pushReady => cases h; exact hnote .ready _ rfl
  | emitUpdate => exact hemit .update .pushUpdate .waiting (Option.some.inj h)
  | pushUpdate => cases h; exact hnote .update _ rfl
  | emitError => exact hemit .error .pushError .waiting (Option.some.inj h)
  | pushError => cases h; exact hnote .error _ rfl

/-- Emissions of others are no Inits of thread `t`. -/
theorem countP_isInitOf {es : List Emission} {emitter : Emitter} {t : Nat}
    (hes : ∀ e ∈ es, e.emitter = emitter) (ht : emitter ≠ .call t) :
    es.countP (Emission.isInitOf t) = 0 := by
  refine List.countP_eq_zero.mpr fun e he => ?_
  simp [Emission.isInitOf, hes e he, ht]

/-- A call that passes its gate: what it has to emit is pending. -/
theorem inits_gate {s : State} {t : Nat} (ht : s.calls t = .idle) (threads : Threads) (q : Pc)
    (u : Nat) :
    inits ((s.withThreads threads).goto t q) u = inits s u + if u = t then q.pending else 0 := by
  show s.events.log.countP (Emission.isInitOf u) + (Function.update s.calls t q u).pending = _
  unfold inits
  by_cases hut : u = t
  · subst hut
    rw [Function.update_self, ht, if_pos rfl]
    rfl
  · rw [Function.update_of_ne hut, if_neg hut]
    rfl

/-- **Step lemma.**  The log only grows, and only a passed gate adds an Init to the books. -/
theorem inits_step {c : Setting} {s s' : State} {a : Act} (hchange : Change c s a s') :
    s.events.log <+: s'.events.log ∧
      ∀ t, inits s' t = inits s t + if a.isStartOf t then 1 else 0 := by
  cases hchange with
  | start t ht hr =>
    refine ⟨List.prefix_rfl, fun u => ?_⟩
    rw [inits_gate ht]
    by_cases hut : u = t
    · rw [if_pos hut, hut]
      simp [Act.isStartOf, Pc.pending]
    · have hne : ¬ t = u := fun h => hut h.symm
      rw [if_neg hut]
      simp [Act.isStartOf, hne]
  | startRefused t ht hr => exact ⟨List.prefix_rfl, fun u => rfl⟩
  | stop t ht hr =>
    refine ⟨List.prefix_rfl, fun u => ?_⟩
    rw [inits_gate ht]
    simp [Act.isStartOf, Pc.pending]
  | stopRefused t ht hr => exact ⟨List.prefix_rfl, fun u => rfl⟩
  | next t s' h =>
    obtain ⟨q, es, hcalls, hlog, hown, hpending⟩ := callStep_log h
    refine ⟨hlog ▸ List.prefix_append _ _, fun u => ?_⟩
    unfold inits
    rw [hlog, hcalls, List.countP_append]
    by_cases hut : u = t
    · subst hut
      rw [Function.update_self]
      simp only [Act.isStartOf, Bool.false_eq_true, if_false]
      omega
    · have hnone := countP_isInitOf (t := u) hown fun h => hut (Emitter.call.inj h).symm
      rw [Function.update_of_ne hut, hnone]
      rfl
  | fetched w hw hp => exact ⟨List.prefix_rfl, fun u => rfl⟩
  | fetchFailed w hw hp => exact ⟨List.prefix_rfl, fun u => rfl⟩
  | sendFailed w hw hp => exact ⟨List.prefix_rfl, fun u => rfl⟩
  | nextWorker w s' h =>
    obtain ⟨es, hlog, hown⟩ := workerStep_log h
    refine ⟨hlog ▸ List.prefix_append _ _, fun u => ?_⟩
    have hnone := countP_isInitOf (t := u) hown (by simp)
    unfold inits
    rw [hlog, (workerStep_frame h).2, List.countP_append, hnone]
    rfl
  | workerReturn k w hw hp => exact ⟨List.prefix_rfl, fun u => rfl⟩

/-- **Run lemma.**  Every `start()` past its gate has emitted one Init, or is about to. -/
theorem inits_run {c : Setting} {storeReady : Bool} {as : List Act} {s : State}
    (hrun : Machine.run (step c) (initial storeReady) as = some s) (t : Nat) :
    inits s t = starts as t := by
  refine Machine.run_history (I := fun s as => inits s t = starts as t) rfl ?_ hrun
  intro as s a s' _ ih ha
  rw [(inits_step (step_change ha)).2 t, ih, starts, starts, List.countP_append,
    List.countP_singleton]

/-! ## The first one is lost -/

/-- An Init was dropped. -/
def Lost (s : State) : Prop := ∃ t, ⟨.init, .call t, false⟩ ∈ s.events.log

/-- The Inits of a thread reached the queue, or were dropped. -/
theorem countP_isInitOf_eq (log : List Emission) (t : Nat) :
    log.countP (Emission.isInitOf t) =
      log.count ⟨.init, .call t, true⟩ + log.count ⟨.init, .call t, false⟩ := by
  induction log with
  | nil => rfl
  | cons e es ih =>
    obtain ⟨kind, emitter, enqueued⟩ := e
    rw [List.countP_cons, List.count_cons, List.count_cons, ih]
    cases enqueued <;> by_cases hk : kind = .init <;> by_cases he : emitter = .call t <;>
      simp [Emission.isInitOf, hk, he] <;> omega

/-- A lost Init is missing in the books. -/
theorem Lost.not_initKept {as : List Act} {s : State} (h : Lost s)
    (hinits : ∀ t, inits s t = starts as t) : ¬ InitKept as s := by
  intro hkept
  obtain ⟨t, ht⟩ := h
  have hpos := List.count_pos_iff.mpr ht
  have hsplit := countP_isInitOf_eq s.events.log t
  have hk := hkept t
  have hi := hinits t
  unfold inits at hi
  omega

/-- Before any `start()` has executed `emitInit()` nothing is emitted, and there is no worker. -/
structure Untouched (s : State) : Prop where
  log : s.events.log = []
  ready : s.events.ready = false
  started : s.events.started = false
  calls : ∀ t, (s.calls t).isStart = true → s.calls t = .emitInit
  live : ∀ k, s.threads.live k = []
  workers : ∀ w, s.workers w = .waiting

theorem untouched_initial (storeReady : Bool) : Untouched (initial storeReady) :=
  ⟨rfl, rfl, rfl, fun t h => (by cases h), fun k => rfl, fun w => rfl⟩

/-- A call that moves without an emission. -/
theorem Untouched.goto {s : State} (h : Untouched s) (t : Nat) {q : Pc}
    (hq : q.isStart = false ∨ q = .emitInit) : Untouched (s.goto t q) := by
  refine ⟨h.log, h.ready, h.started, fun u hu => ?_, h.live, h.workers⟩
  show Function.update s.calls t q u = .emitInit
  have hu : (Function.update s.calls t q u).isStart = true := hu
  by_cases hut : u = t
  · subst hut
    rw [Function.update_self] at hu ⊢
    exact hq.resolve_left (by rw [hu]; decide)
  · rw [Function.update_of_ne hut] at hu ⊢
    exact h.calls u hu

theorem Untouched.withThreads {s : State} (h : Untouched s) {th : Threads}
    (hlive : ∀ k, th.live k = []) : Untouched (s.withThreads th) :=
  ⟨h.log, h.ready, h.started, h.calls, hlive, h.workers⟩

/-- A call that has emitted nothing yet either emits its Init, which is lost, or is on its way
    out of `stop()`. -/
theorem untouched_callStep {c : Setting} {s s' : State} {t : Nat} (hs : Untouched s)
    (h : callStep c s t (s.calls t) = some s') :
    (s.calls t ≠ .emitInit ∧ Untouched s') ∨ (s.calls t = .emitInit ∧ Lost s') := by
  by_cases hp : s.calls t = .emitInit
  · right
    refine ⟨hp, t, ?_⟩
    rw [hp] at h
    simp only [callStep, emit, hs.started] at h
    cases h
    show _ ∈ s.events.log ++ [_]
    simp
  · left
    refine ⟨hp, ?_⟩
    have hstart : (s.calls t).isStart = false := by
      cases hb : (s.calls t).isStart with
      | false => rfl
      | true => exact absurd (hs.calls t hb) hp
    generalize s.calls t = p at h hstart
    cases p with
    | idle => cases h
    | setExit =>
      cases h
      refine (hs.withThreads ?_).goto t (Or.inl rfl)
      exact hs.live
    | notify k => cases k <;> cases h <;> exact hs.goto t (Or.inl rfl)
    | testJoinable k =>
      cases h
      refine hs.goto t (Or.inl ?_)
      cases k <;> split <;> rfl
    | join k =>
      simp only [callStep] at h
      split at h
      · cases h
        exact hs.withThreads hs.live
      · split at h <;> cases h
        refine (hs.withThreads ?_).goto t (Or.inl ?_)
        · exact hs.live
        · cases k <;> rfl
    | stopHandler =>
      cases h
      have hstopped : Untouched { s with events := { s.events with started := false } } :=
        ⟨hs.log, hs.ready, rfl, hs.calls, hs.live, hs.workers⟩
      exact hstopped.goto t (Or.inl rfl)
    | storeStopped =>
      cases h
      refine (hs.withThreads ?_).goto t (Or.inl rfl)
      exact hs.live
    | _ => cases hstart

/-- **Step lemma.**  Nothing has been emitted, until the first `emitInit()` loses its event. -/
theorem untouched_step {c : Setting} {s s' : State} {a : Act} (hs : Untouched s)
    (hchange : Change c s a s') :
    (NoInitEmission s a ∧ Untouched s') ∨ (¬ NoInitEmission s a ∧ Lost s') := by
  have hnoWorker : ∀ w k, w ∉ s.threads.live k := by
    intro w k hw
    rw [hs.live k] at hw
    cases hw
  cases hchange with
  | start t ht hr =>
    refine Or.inl ⟨trivial, (hs.withThreads ?_).goto t (Or.inr rfl)⟩
    exact hs.live
  | startRefused t ht hr => exact Or.inl ⟨trivial, hs⟩
  | stop t ht hr =>
    refine Or.inl ⟨trivial, (hs.withThreads ?_).goto t (Or.inl rfl)⟩
    exact hs.live
  | stopRefused t ht hr => exact Or.inl ⟨trivial, hs⟩
  | next t s' h =>
    rcases untouched_callStep hs h with ⟨hp, hs'⟩ | ⟨hp, hlost⟩
    · exact Or.inl ⟨hp, hs'⟩
    · exact Or.inr ⟨fun hne => hne hp, hlost⟩
  | fetched w hw hp => exact absurd hw (hnoWorker w .polling)
  | fetchFailed w hw hp => exact absurd hw (hnoWorker w .polling)
  | sendFailed w hw hp => exact absurd hw (hnoWorker w .metrics)
  | nextWorker w s' h =>
    rw [hs.workers w] at h
    cases h
  | workerReturn k w hw hp => exact absurd hw (hnoWorker w k)

/-- **Run lemma.**  Either no `start()` has executed `emitInit()`, or an Init is lost. -/
theorem untouched_or_lost {c : Setting} {storeReady : Bool} {as : List Act} {s : State}
    (hrun : Machine.run (step c) (initial storeReady) as = some s) :
    (Machine.Meets (step c) NoInitEmission (initial storeReady) as ∧ Untouched s) ∨
      (¬ Machine.Meets (step c) NoInitEmission (initial storeReady) as ∧ Lost s) := by
  refine Machine.run_history (I := fun s as =>
    (Machine.Meets (step c) NoInitEmission (initial storeReady) as ∧ Untouched s) ∨
      (¬ Machine.Meets (step c) NoInitEmission (initial storeReady) as ∧ Lost s))
    (Or.inl ⟨trivial, untouched_initial storeReady⟩) ?_ hrun
  intro as s a s' hs ih ha
  rw [Machine.meets_snoc hs]
  rcases ih with ⟨hmeets, hun⟩ | ⟨hmeets, t, hlost⟩
  · rcases untouched_step hun (step_change ha) with ⟨hok, hun'⟩ | ⟨hbad, hlost⟩
    · exact Or.inl ⟨⟨hmeets, hok⟩, hun'⟩
    · exact Or.inr ⟨fun h => hbad h.2, hlost⟩
  · exact Or.inr ⟨fun h => hmeets h.1, t, (inits_step (step_change ha)).1.subset hlost⟩

/-- **Lifecycle events, exactly.**  On every run, whatever the store holds at the start and
    whatever is registered, the events of the lifecycle are kept if and only if no `start()` has
    executed its `emitInit()`.  The Ready alone is kept where readiness comes from a fetch. -/
theorem lifecycle_events_iff (c : Setting) (storeReady : Bool) (as : List Act) (s : State)
    (hrun : Machine.run (step c) (initial storeReady) as = some s) :
    (EventsKept as s ↔ Machine.Meets (step c) NoInitEmission (initial storeReady) as) ∧
      (c.registered .ready = true → storeReady = false →
        Machine.Meets (step c) NoOverlap (initial storeReady) as → ReadyKept s) := by
  refine ⟨?_, fun hreg hstore hmeets => ?_⟩
  · rcases untouched_or_lost hrun with ⟨hmeets, hun⟩ | ⟨hmeets, hlost⟩
    · refine ⟨fun _ => hmeets, fun _ => ⟨fun t => ?_, fun hready => ?_⟩⟩
      · rw [← inits_run hrun t, inits, hun.log]
        rfl
      · rw [hun.ready] at hready
        cases hready
    · exact ⟨fun h => absurd h.init (hlost.not_initKept (inits_run hrun)),
        fun h => absurd h hmeets⟩
  · subst hstore
    exact ready_kept hreg hrun hmeets

/-- `start()`, and a first fetch with toggles up to its Update. -/
def fetchRun : List Act := startRun 0 ++ .fetched 1 true :: List.replicate 5 (.nextWorker 1)

/-- The Ready comes from the fetch and is kept; the Init of the `start()` is not. -/
theorem lifecycle_events_iff_fetch :
    ∃ s, Machine.run (step everything) (initial false) fetchRun = some s ∧
      s.events.ready = true ∧ ReadyKept s ∧ ¬ EventsKept fetchRun s := by
  obtain ⟨hevents, hready⟩ := lifecycle_events_iff everything false fetchRun _ rfl
  refine ⟨_, rfl, rfl, hready rfl rfl ?_, fun h => ?_⟩
  · exact ⟨fun u => rfl, trivial, trivial, trivial, trivial, trivial, trivial, trivial, trivial,
      trivial, trivial, trivial, trivial, trivial, trivial⟩
  · exact (hevents.mp h).2.1 rfl

/-- `start()` of thread `t`, from its gate to its return, with flags in the store. -/
def readyRun (t : Nat) : List Act := .start t :: List.replicate 9 (.next t)

/-- The client is started and ready, and neither Init nor Ready has reached the queue. -/
theorem start_loses_events :
    ∃ s, Machine.run (step everything) (initial true) (readyRun 0) = some s ∧
      s.calls 0 = .idle ∧ s.events.ready = true ∧ ¬ InitKept (readyRun 0) s ∧ ¬ ReadyKept s := by
  refine ⟨_, rfl, rfl, rfl, fun h => absurd (h 0) (by decide), fun h => ?_⟩
  have hkept := h rfl (fun t => by cases t <;> rfl) fun w => rfl
  obtain ⟨first, rest, hlog, -⟩ := hkept
  cases hlog

end Lifecycle

end Unleash
