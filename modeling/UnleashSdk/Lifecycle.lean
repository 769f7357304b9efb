/-
  START AND STOP, from any number of application threads.

  Every atomic operation, thread creation and join of `start()` and `stop()` is one step of the
  calling thread; the polling worker's fetches run between them.  One exchange of `_running` is
  the gate of both calls, and it says nothing about whether a call that passed it has returned:
  a `start()` may pass while a `stop()` is still joining, and the other way round.  `NoOverlap`
  says that this does not happen.

  On such runs at most one call is past its gate at any time, and where it stands decides
  everything (`Stage`): what `_running` is, which handles are joinable, and that the exit flag is
  set while a worker is joined.  What is said about safety is read off from that invariant.
-/
import Mathlib.Logic.Function.Basic
import UnleashSdk.Events
import UnleashSdk.Lib.Machine

set_option linter.unusedVariables false

namespace Unleash

namespace Lifecycle

/-! ## The state -/

/-- The two workers of a client. -/
inductive Kind where
  | metrics
  | polling
  deriving DecidableEq

/-- Where a call is; `idle` is outside of both functions. -/
inductive Pc where
  | idle
  -- `start()`, past its gate
  | emitInit
  | pushInit
  | testStore
  | emitReady
  | pushReady
  | storeReady
  | clearExit
  | startHandler
  | spawn (k : Kind)
  | storeRunning
  -- `stop()`, past its gate
  | setExit
  | notify (k : Kind)
  | testJoinable (k : Kind)
  | join (k : Kind)
  | stopHandler
  | storeStopped
  deriving DecidableEq

def Pc.isStart : Pc → Bool
  | .emitInit | .pushInit | .testStore | .emitReady | .pushReady | .storeReady | .clearExit
  | .startHandler | .spawn _ | .storeRunning => true
  | _ => false

def Pc.isStop : Pc → Bool
  | .setExit | .notify _ | .testJoinable _ | .join _ | .stopHandler | .storeStopped => true
  | _ => false

/-- Where a worker is: waiting, or past the reply to a request, with its events to emit. -/
inductive WorkerPc where
  | waiting
  | exchangeReady
  | emitReady
  | pushReady
  | emitUpdate
  | pushUpdate
  | emitError
  | pushError
  deriving DecidableEq

/-- What ends the program, or a call, in the middle. -/
inductive Fault where
  | assignedJoinable
  | joinedNotJoinable
  deriving DecidableEq

/-- The flags and thread handles of a client.  `handle k` is the worker that the member refers
    to, if it is joinable; `live k` are the workers that have not returned. -/
structure Threads where
  running : Bool := false
  exitThreads : Bool := false
  handle : Kind → Option Nat := fun _ => none
  live : Kind → List Nat := fun _ => []
  created : Nat := 0
  fault : Option Fault := none

/-- Who emits an event: a call of `start()` on thread `t`, or a worker. -/
inductive Emitter where
  | call (t : Nat)
  | worker (w : Nat)
  deriving DecidableEq

/-- An emission, and whether it reached the queue. -/
structure Emission where
  kind : EventKind
  emitter : Emitter
  enqueued : Bool
  deriving DecidableEq

/-- What the events depend on, and all emissions so far. -/
structure Events where
  storeReady : Bool
  ready : Bool := false
  started : Bool := false
  log : List Emission := []

structure State where
  threads : Threads := {}
  events : Events
  calls : Nat → Pc := fun _ => .idle
  workers : Nat → WorkerPc := fun _ => .waiting

/-- Which workers the configuration enables, and which callbacks are registered. -/
structure Setting where
  enabled : Kind → Bool
  registered : EventKind → Bool

inductive Act where
  | start (t : Nat)
  | startRefused (t : Nat)
  | stop (t : Nat)
  | stopRefused (t : Nat)
  | next (t : Nat)
  | fetched (w : Nat) (hasToggles : Bool)
  | sendFailed (w : Nat)
  | nextWorker (w : Nat)
  | workerReturn (k : Kind) (w : Nat)

/-! ## The steps -/

namespace State

def goto (s : State) (t : Nat) (p : Pc) : State := { s with calls := Function.update s.calls t p }

def gotoWorker (s : State) (w : Nat) (p : WorkerPc) : State :=
  { s with workers := Function.update s.workers w p }

/-- Record an emission. -/
def note (s : State) (kind : EventKind) (emitter : Emitter) (enqueued : Bool) : State :=
  { s with events := { s.events with log := s.events.log ++ [⟨kind, emitter, enqueued⟩] } }

def withThreads (s : State) (threads : Threads) : State := { s with threads := threads }

end State

/-- The first half of an emission: a handler that is not started drops the event. -/
def emit (s : State) (kind : EventKind) (emitter : Emitter) (push next : State → State) : State :=
  if s.events.started then push s else next (s.note kind emitter false)

/-- The handle of worker `k` is assigned a new thread. -/
def spawn (th : Threads) (k : Kind) : Threads :=
  match th.handle k with
  | some _ => { th with fault := some .assignedJoinable }
  | none =>
    { th with
      handle := Function.update th.handle k (some th.created)
      live := Function.update th.live k (th.created :: th.live k)
      created := th.created + 1 }

/-- What follows worker `k` in `stop()`. -/
def afterJoin : Kind → Pc
  | .metrics => .testJoinable .polling
  | .polling => .stopHandler

/-- The next step of a call that is at `p`. -/
def callStep (c : Setting) (s : State) (t : Nat) : Pc → Option State
  | .idle => none
  | .emitInit => some (emit s .init (.call t) (·.goto t .pushInit) (·.goto t .testStore))
  | .pushInit => some ((s.note .init (.call t) (c.registered .init)).goto t .testStore)
  | .testStore => some (s.goto t (if s.events.storeReady then .emitReady else .clearExit))
  | .emitReady => some (emit s .ready (.call t) (·.goto t .pushReady) (·.goto t .storeReady))
  | .pushReady => some ((s.note .ready (.call t) (c.registered .ready)).goto t .storeReady)
  | .storeReady =>
    some (State.goto { s with events := { s.events with ready := true } } t .clearExit)
  | .clearExit =>
    some ((s.withThreads { s.threads with exitThreads := false }).goto t .startHandler)
  | .startHandler =>
    some (State.goto { s with events := { s.events with started := true } } t (.spawn .metrics))
  | .spawn .metrics => some ((s.withThreads (spawn s.threads .metrics)).goto t (.spawn .polling))
  | .spawn .polling => some ((s.withThreads (spawn s.threads .polling)).goto t .storeRunning)
  | .storeRunning => some ((s.withThreads { s.threads with running := true }).goto t .idle)
  | .setExit =>
    some ((s.withThreads { s.threads with exitThreads := true }).goto t (.notify .metrics))
  | .notify .metrics => some (s.goto t (.notify .polling))
  | .notify .polling => some (s.goto t (.testJoinable .metrics))
  | .testJoinable k =>
    some (s.goto t (if (s.threads.handle k).isSome then .join k else afterJoin k))
  | .join k =>
    match s.threads.handle k with
    | none => some (s.withThreads { s.threads with fault := some .joinedNotJoinable })
    | some w =>
      if w ∈ s.threads.live k then none
      else
        some ((s.withThreads { s.threads with
          handle := Function.update s.threads.handle k none }).goto t (afterJoin k))
  | .stopHandler =>
    some (State.goto { s with events := { s.events with started := false } } t .storeStopped)
  | .storeStopped => some ((s.withThreads { s.threads with running := false }).goto t .idle)

/-- The next step of a worker that has a reply. -/
def workerStep (c : Setting) (s : State) (w : Nat) : WorkerPc → Option State
  | .waiting => none
  | .exchangeReady =>
    some (State.gotoWorker { s with events := { s.events with ready := true } } w
      (if s.events.ready then .emitUpdate else .emitReady))
  | .emitReady =>
    some (emit s .ready (.worker w) (·.gotoWorker w .pushReady) (·.gotoWorker w .emitUpdate))
  | .pushReady => some ((s.note .ready (.worker w) (c.registered .ready)).gotoWorker w .emitUpdate)
  | .emitUpdate =>
    some (emit s .update (.worker w) (·.gotoWorker w .pushUpdate) (·.gotoWorker w .waiting))
  | .pushUpdate => some ((s.note .update (.worker w) (c.registered .update)).gotoWorker w .waiting)
  | .emitError =>
    some (emit s .error (.worker w) (·.gotoWorker w .pushError) (·.gotoWorker w .waiting))
  | .pushError => some ((s.note .error (.worker w) (c.registered .error)).gotoWorker w .waiting)

/-- One step; after a fault there are none. -/
def step (c : Setting) (s : State) (a : Act) : Option State :=
  if s.threads.fault ≠ none then none
  else
    match a with
    -- the exchange of `_running` lets a call pass, or sends it back
    | .start t =>
      if s.calls t = .idle ∧ s.threads.running = false then
        some ((s.withThreads { s.threads with running := true }).goto t .emitInit)
      else none
    | .startRefused t =>
      if s.calls t = .idle ∧ s.threads.running = true then some s else none
    | .stop t =>
      if s.calls t = .idle ∧ s.threads.running = true then
        some ((s.withThreads { s.threads with running := false }).goto t .setExit)
      else none
    | .stopRefused t =>
      if s.calls t = .idle ∧ s.threads.running = false then some s else none
    | .next t => callStep c s t (s.calls t)
    | .fetched w hasToggles =>
      -- a reply with toggles has replaced the snapshot, any other one is an error
      if w ∈ s.threads.live .polling ∧ s.workers w = .waiting ∧ c.enabled .polling then
        if hasToggles then
          some (State.gotoWorker { s with events := { s.events with storeReady := true } } w
            .exchangeReady)
        else some (s.gotoWorker w .emitError)
      else none
    | .sendFailed w =>
      if w ∈ s.threads.live .metrics ∧ s.workers w = .waiting ∧ c.enabled .metrics then
        some (s.gotoWorker w .emitError)
      else none
    | .nextWorker w => workerStep c s w (s.workers w)
    | .workerReturn k w =>
      -- a worker returns at once if it is disabled, else when it sees the exit flag
      if w ∈ s.threads.live k ∧ s.workers w = .waiting ∧
          (c.enabled k = false ∨ s.threads.exitThreads = true) then
        some (s.withThreads { s.threads with
          live := Function.update s.threads.live k ((s.threads.live k).erase w) })
      else none

/-- Everything a step can do. -/
inductive Change (c : Setting) (s : State) : Act → State → Prop where
  | start (t : Nat) (ht : s.calls t = .idle) (hr : s.threads.running = false) :
    Change c s (.start t)
      ((s.withThreads { s.threads with running := true }).goto t .emitInit)
  | startRefused (t : Nat) (ht : s.calls t = .idle) (hr : s.threads.running = true) :
    Change c s (.startRefused t) s
  | stop (t : Nat) (ht : s.calls t = .idle) (hr : s.threads.running = true) :
    Change c s (.stop t)
      ((s.withThreads { s.threads with running := false }).goto t .setExit)
  | stopRefused (t : Nat) (ht : s.calls t = .idle) (hr : s.threads.running = false) :
    Change c s (.stopRefused t) s
  | next (t : Nat) (s' : State) (h : callStep c s t (s.calls t) = some s') :
    Change c s (.next t) s'
  | fetched (w : Nat) (hw : w ∈ s.threads.live .polling) (hp : s.workers w = .waiting) :
    Change c s (.fetched w true)
      (State.gotoWorker { s with events := { s.events with storeReady := true } } w .exchangeReady)
  | fetchFailed (w : Nat) (hw : w ∈ s.threads.live .polling) (hp : s.workers w = .waiting) :
    Change c s (.fetched w false) (s.gotoWorker w .emitError)
  | sendFailed (w : Nat) (hw : w ∈ s.threads.live .metrics) (hp : s.workers w = .waiting) :
    Change c s (.sendFailed w) (s.gotoWorker w .emitError)
  | nextWorker (w : Nat) (s' : State) (h : workerStep c s w (s.workers w) = some s') :
    Change c s (.nextWorker w) s'
  | workerReturn (k : Kind) (w : Nat) (hw : w ∈ s.threads.live k) (hp : s.workers w = .waiting) :
    Change c s (.workerReturn k w) (s.withThreads { s.threads with
      live := Function.update s.threads.live k ((s.threads.live k).erase w) })

theorem step_change {c : Setting} {s s' : State} {a : Act} (h : step c s a = some s') :
    Change c s a s' := by
  unfold step at h
  split at h
  · cases h
  cases a with
  | start t =>
    simp only at h
    split at h <;> cases h
    rename_i hgate
    exact .start t hgate.1 hgate.2
  | startRefused t =>
    simp only at h
    split at h <;> cases h
    rename_i hgate
    exact .startRefused t hgate.1 hgate.2
  | stop t =>
    simp only at h
    split at h <;> cases h
    rename_i hgate
    exact .stop t hgate.1 hgate.2
  | stopRefused t =>
    simp only at h
    split at h <;> cases h
    rename_i hgate
    exact .stopRefused t hgate.1 hgate.2
  | next t => exact .next t s' h
  | fetched w hasToggles =>
    simp only at h
    split at h
    · rename_i hw
      cases hasToggles with
      | true => cases h; exact .fetched w hw.1 hw.2.1
      | false => cases h; exact .fetchFailed w hw.1 hw.2.1
    · cases h
  | sendFailed w =>
    simp only at h
    split at h <;> cases h
    rename_i hw
    exact .sendFailed w hw.1 hw.2.1
  | nextWorker w => exact .nextWorker w s' h
  | workerReturn k w =>
    simp only at h
    split at h <;> cases h
    rename_i hw
    exact .workerReturn k w hw.1 hw.2.1

/-- A client that has been constructed, its flag store ready or not. -/
def initial (storeReady : Bool) : State := { events := { storeReady := storeReady } }

/-! ## Where one call stands -/

/-- Which handles are joinable while a call is at this point. -/
def Pc.holds : Pc → Kind → Bool
  | .spawn .polling, k => k = .metrics
  | .storeRunning, _ => true
  | .setExit, _ => true
  | .notify _, _ => true
  | .testJoinable .metrics, _ => true
  | .join .metrics, _ => true
  | .testJoinable .polling, k => k = .polling
  | .join .polling, k => k = .polling
  | _, _ => false

/-- A `stop()` past its store of the exit flag. -/
def Pc.exiting (p : Pc) : Bool := p.isStop && p ≠ .setExit

/-- The handle of worker `k` is joinable, and there is no other worker; or there is none. -/
def Owned (th : Threads) (k : Kind) : Bool → Prop
  | true => ∃ w, th.handle k = some w ∧ (th.live k = [] ∨ th.live k = [w])
  | false => th.handle k = none ∧ th.live k = []

/-- What holds while the one call past its gate is at `p`. -/
structure Stage (th : Threads) (p : Pc) : Prop where
  fault : th.fault = none
  running : th.running = p.isStart
  exit : p.exiting = true → th.exitThreads = true
  handles : ∀ k, Owned th k (p.holds k)

/-- What holds while no call is past its gate. -/
structure Quiet (th : Threads) : Prop where
  fault : th.fault = none
  handles : ∀ k, Owned th k th.running

/-- At most one call is past its gate. -/
inductive Inv (th : Threads) (calls : Nat → Pc) : Prop where
  | quiet (hth : Quiet th) (hcalls : ∀ u, calls u = .idle)
  | active (t : Nat) (ht : calls t ≠ .idle) (hth : Stage th (calls t))
    (hcalls : ∀ u, u ≠ t → calls u = .idle)

/-- No call passes its gate while one of the other kind is past its own. -/
def NoOverlap (s : State) : Act → Prop
  | .start _ => ∀ u, (s.calls u).isStop = false
  | .stop _ => ∀ u, (s.calls u).isStart = false
  | _ => True

theorem Stage.move {th : Threads} {p q : Pc} (h : Stage th p) (hstart : p.isStart = q.isStart)
    (hexit : q.exiting = true → p.exiting = true) (hholds : p.holds = q.holds) : Stage th q :=
  ⟨h.fault, h.running.trans hstart, fun hq => h.exit (hexit hq), fun k => hholds ▸ h.handles k⟩

theorem Owned.congr {th th' : Threads} {k : Kind} {b : Bool} (h : Owned th k b)
    (hhandle : th'.handle k = th.handle k) (hlive : th'.live k = th.live k) : Owned th' k b := by
  cases b with
  | true =>
    obtain ⟨w, hw, hl⟩ := h
    exact ⟨w, hhandle.trans hw, by rw [hlive]; exact hl⟩
  | false => exact ⟨hhandle.trans h.1, hlive.trans h.2⟩

/-- A worker that returns leaves its handle joinable. -/
theorem Owned.erase {th : Threads} {k k' : Kind} {b : Bool} (h : Owned th k b) (w : Nat) :
    Owned { th with live := Function.update th.live k' ((th.live k').erase w) } k b := by
  by_cases hk : k = k'
  · subst hk
    cases b with
    | true =>
      obtain ⟨v, hv, hl⟩ := h
      refine ⟨v, hv, ?_⟩
      simp only [Function.update_self]
      rcases hl with hl | hl
      · exact Or.inl (by rw [hl]; rfl)
      · by_cases hvw : v = w
        · exact Or.inl (by rw [hl, hvw]; simp)
        · exact Or.inr (by rw [hl, List.erase_of_not_mem (by simpa using fun h => hvw h.symm)])
    | false =>
      refine ⟨h.1, ?_⟩
      simp only [Function.update_self]
      rw [h.2]
      rfl
  · exact h.congr rfl (Function.update_of_ne hk _ _)

/-- A thread is created where there was none. -/
theorem owned_spawn {th : Threads} {k : Kind} (h : Owned th k false) :
    (spawn th k).fault = th.fault ∧ Owned (spawn th k) k true ∧
      ∀ k', k' ≠ k → ∀ b, Owned th k' b → Owned (spawn th k) k' b := by
  unfold spawn
  rw [h.1]
  refine ⟨rfl, ⟨th.created, Function.update_self _ _ _, Or.inr ?_⟩, fun k' hk b hb => ?_⟩
  · simp only [Function.update_self]
    rw [h.2]
  · exact hb.congr (Function.update_of_ne hk _ _) (Function.update_of_ne hk _ _)

/-- A worker that has returned is joined. -/
theorem owned_join {th : Threads} {k : Kind} {w : Nat} (h : Owned th k true)
    (hw : th.handle k = some w) (hdone : w ∉ th.live k) :
    Owned { th with handle := Function.update th.handle k none } k false ∧
      ∀ k', k' ≠ k → ∀ b, Owned th k' b →
        Owned { th with handle := Function.update th.handle k none } k' b := by
  obtain ⟨v, hv, hl⟩ := h
  obtain rfl : w = v := Option.some.inj (hw.symm.trans hv)
  refine ⟨⟨Function.update_self _ _ _, ?_⟩, fun k' hk b hb => ?_⟩
  · rcases hl with hl | hl
    · exact hl
    · exact absurd (by rw [hl]; exact List.mem_singleton.mpr rfl) hdone
  · exact hb.congr (Function.update_of_ne hk _ _) rfl

/-! ## One step of that call -/

/-- Where a call goes: it returns to a quiet client, or to its next point. -/
def Arrives (th : Threads) (q : Pc) : Prop := (q = .idle ∧ Quiet th) ∨ (q ≠ .idle ∧ Stage th q)

/-- An emission moves the call, and nothing that the threads depend on. -/
theorem emit_arrives {s s' : State} {kind : EventKind} {t : Nat} {push next : Pc}
    (hpush : Arrives s.threads push) (hnext : Arrives s.threads next)
    (h : emit s kind (.call t) (·.goto t push) (·.goto t next) = s') :
    ∃ q, s'.calls = Function.update s.calls t q ∧ Arrives s'.threads q := by
  unfold emit at h
  split at h
  · exact ⟨push, by rw [← h]; rfl, by rw [← h]; exact hpush⟩
  · exact ⟨next, by rw [← h]; rfl, by rw [← h]; exact hnext⟩

theorem Stage.owned {th : Threads} {p : Pc} {k : Kind} (h : Stage th p)
    (hp : p.holds k = true) : Owned th k true := hp ▸ h.handles k

/-! The other worker. -/

theorem Kind.ne_metrics {P : Kind → Prop} (h : P .polling) : ∀ k, k ≠ .metrics → P k
  | .metrics, hk => absurd rfl hk
  | .polling, _ => h

theorem Kind.ne_polling {P : Kind → Prop} (h : P .metrics) : ∀ k, k ≠ .polling → P k
  | .metrics, _ => h
  | .polling, hk => absurd rfl hk

/-- The creation of worker `k` takes the call to a point where its handle is joinable, too. -/
theorem Stage.spawned {th : Threads} {p q : Pc} {k : Kind} (h : Stage th p)
    (hp : p.holds k = false) (hq : q.holds k = true)
    (hrest : ∀ k', k' ≠ k → p.holds k' = q.holds k') (hstart : p.isStart = q.isStart)
    (hexit : q.exiting = false) : Stage (spawn th k) q := by
  have hnone : Owned th k false := hp ▸ h.handles k
  obtain ⟨hfault, hown, hother⟩ := owned_spawn hnone
  have hrunning : (spawn th k).running = th.running := by
    unfold spawn
    split <;> rfl
  refine ⟨hfault.trans h.fault, hrunning.trans (h.running.trans hstart), fun hex => ?_,
    fun k' => ?_⟩
  · rw [hexit] at hex
    cases hex
  · by_cases hk : k' = k
    · rw [hk, hq]
      exact hown
    · rw [← hrest k' hk]
      exact hother k' hk _ (h.handles k')

/-- The join of worker `k` takes the call to a point where its handle is not joinable. -/
theorem Stage.joined {th : Threads} {p q : Pc} {k : Kind} {w : Nat} (h : Stage th p)
    (hw : th.handle k = some w) (hdone : w ∉ th.live k) (hp : p.holds k = true)
    (hq : q.holds k = false) (hrest : ∀ k', k' ≠ k → p.holds k' = q.holds k')
    (hstart : p.isStart = q.isStart) (hexit : q.exiting = true → p.exiting = true) :
    Stage { th with handle := Function.update th.handle k none } q := by
  obtain ⟨hgone, hother⟩ := owned_join (h.owned hp) hw hdone
  refine ⟨h.fault, h.running.trans hstart, fun hex => h.exit (hexit hex), fun k' => ?_⟩
  by_cases hk : k' = k
  · rw [hk, hq]
    exact hgone
  · rw [← hrest k' hk]
    exact hother k' hk _ (h.handles k')

/-- **Step lemma for the active call.**  From its stage it goes to the stage of its next point;
    its last step leaves a quiet client. -/
theorem callStep_arrives {c : Setting} {s s' : State} {t : Nat} {p : Pc}
    (hstage : Stage s.threads p) (h : callStep c s t p = some s') :
    ∃ q, s'.calls = Function.update s.calls t q ∧ Arrives s'.threads q := by
  -- most steps only move the call, within one stretch of the threads' states
  have hmove : ∀ q, q ≠ .idle → p.isStart = q.isStart → (q.exiting = true → p.exiting = true) →
      p.holds = q.holds → Arrives s.threads q := fun q hq hstart hexit hholds =>
    Or.inr ⟨hq, hstage.move hstart hexit hholds⟩
  cases p with
  | idle => cases h
  | emitInit =>
    cases h
    exact emit_arrives (hmove .pushInit (by decide) rfl (by decide) rfl)
      (hmove .testStore (by decide) rfl (by decide) rfl) rfl
  | pushInit =>
    cases h
    exact ⟨_, rfl, hmove _ (by decide) rfl (by decide) rfl⟩
  | testStore =>
    cases h
    refine ⟨_, rfl, ?_⟩
    show Arrives s.threads _
    split
    · exact hmove _ (by decide) rfl (by decide) rfl
    · exact hmove _ (by decide) rfl (by decide) rfl
  | emitReady =>
    cases h
    exact emit_arrives (hmove .pushReady (by decide) rfl (by decide) rfl)
      (hmove .storeReady (by decide) rfl (by decide) rfl) rfl
  | pushReady =>
    cases h
    exact ⟨_, rfl, hmove _ (by decide) rfl (by decide) rfl⟩
  | storeReady =>
    cases h
    exact ⟨_, rfl, hmove _ (by decide) rfl (by decide) rfl⟩
  | clearExit =>
    cases h
    exact ⟨_, rfl, Or.inr ⟨by decide, hstage.fault, hstage.running,
      fun hexit => absurd hexit (by decide), fun k => (hstage.handles k).congr rfl rfl⟩⟩
  | startHandler =>
    cases h
    exact ⟨_, rfl, hmove _ (by decide) rfl (by decide) rfl⟩
  | spawn k =>
    cases k with
    | metrics =>
      cases h
      exact ⟨_, rfl, Or.inr ⟨by decide, hstage.spawned rfl rfl (Kind.ne_metrics rfl) rfl rfl⟩⟩
    | polling =>
      cases h
      exact ⟨_, rfl, Or.inr ⟨by decide, hstage.spawned rfl rfl (Kind.ne_polling rfl) rfl rfl⟩⟩
  | storeRunning =>
    cases h
    exact ⟨_, rfl, Or.inl ⟨rfl, hstage.fault, fun k => (hstage.handles k).congr rfl rfl⟩⟩
  | setExit =>
    cases h
    exact ⟨_, rfl, Or.inr ⟨by decide, hstage.fault, hstage.running, fun _ => rfl,
      fun k => (hstage.handles k).congr rfl rfl⟩⟩
  | notify k =>
    cases k with
    | metrics =>
      cases h
      exact ⟨_, rfl, hmove _ (by decide) rfl (fun _ => rfl) rfl⟩
    | polling =>
      cases h
      exact ⟨_, rfl, hmove _ (by decide) rfl (fun _ => rfl) rfl⟩
  | testJoinable k =>
    cases h
    have hown : Owned s.threads k true := hstage.owned (by cases k <;> rfl)
    have hjoinable : (s.threads.handle k).isSome = true := by
      obtain ⟨w, hw, -⟩ := hown
      rw [hw]
      rfl
    refine ⟨.join k, by rw [if_pos hjoinable]; rfl, ?_⟩
    cases k with
    | metrics => exact hmove _ (by decide) rfl (fun _ => rfl) rfl
    | polling => exact hmove _ (by decide) rfl (fun _ => rfl) rfl
  | join k =>
    have hown : Owned s.threads k true := hstage.owned (by cases k <;> rfl)
    simp only [callStep] at h
    split at h
    · rename_i hnone
      obtain ⟨w, hw, -⟩ := hown
      cases hnone.symm.trans hw
    · rename_i w hw
      split at h
      · cases h
      · rename_i hdone
        cases h
        refine ⟨_, rfl, Or.inr ?_⟩
        cases k with
        | metrics =>
          exact ⟨by decide,
            hstage.joined hw hdone rfl rfl (Kind.ne_metrics rfl) rfl fun _ => rfl⟩
        | polling =>
          exact ⟨by decide,
            hstage.joined hw hdone rfl rfl (Kind.ne_polling rfl) rfl fun _ => rfl⟩
  | stopHandler =>
    cases h
    exact ⟨_, rfl, hmove _ (by decide) rfl (fun _ => rfl) rfl⟩
  | storeStopped =>
    cases h
    exact ⟨_, rfl, Or.inl ⟨rfl, hstage.fault, fun k => (hstage.handles k).congr rfl rfl⟩⟩

/-! ## Every step -/

theorem Pc.stop_of_not_start {p : Pc} (hp : p ≠ .idle) (h : p.isStart = false) :
    p.isStop = true := by
  cases p with
  | idle => exact absurd rfl hp
  | setExit => rfl
  | notify _ => rfl
  | testJoinable _ => rfl
  | join _ => rfl
  | stopHandler => rfl
  | storeStopped => rfl
  | _ => cases h

/-- What a worker does between its requests concerns no thread and no call. -/
theorem workerStep_frame {c : Setting} {s s' : State} {w : Nat} {p : WorkerPc}
    (h : workerStep c s w p = some s') : s'.threads = s.threads ∧ s'.calls = s.calls := by
  have hemit : ∀ kind push next,
      emit s kind (.worker w) (·.gotoWorker w push) (·.gotoWorker w next) = s' →
      s'.threads = s.threads ∧ s'.calls = s.calls := by
    intro kind push next he
    unfold emit at he
    split at he <;> rw [← he] <;> exact ⟨rfl, rfl⟩
  cases p with
  | waiting => cases h
  | exchangeReady => cases h; exact ⟨rfl, rfl⟩
  | emitReady => exact hemit .ready .pushReady .emitUpdate (Option.some.inj h)
  | pushReady => cases h; exact ⟨rfl, rfl⟩
  | emitUpdate => exact hemit .update .pushUpdate .waiting (Option.some.inj h)
  | pushUpdate => cases h; exact ⟨rfl, rfl⟩
  | emitError => exact hemit .error .pushError .waiting (Option.some.inj h)
  | pushError => cases h; exact ⟨rfl, rfl⟩

/-- A call that passes its gate from a quiet client is the only one. -/
theorem active_of_quiet {th : Threads} {calls : Nat → Pc} {t : Nat} {p : Pc} (hp : p ≠ .idle)
    (hth : Stage th p) (hcalls : ∀ u, calls u = .idle) :
    Inv th (Function.update calls t p) := by
  refine .active t ?_ ?_ fun u hu => ?_
  · rw [Function.update_self]; exact hp
  · rw [Function.update_self]; exact hth
  · rw [Function.update_of_ne hu]; exact hcalls u

/-- The gate of `start()` is open: without a `stop()` in progress there is no call at all. -/
theorem Inv.quiet_of_start {th : Threads} {calls : Nat → Pc} (h : Inv th calls)
    (hr : th.running = false) (hno : ∀ u, (calls u).isStop = false) :
    Quiet th ∧ ∀ u, calls u = .idle := by
  cases h with
  | quiet hth hcalls => exact ⟨hth, hcalls⟩
  | active u hu hth hcalls =>
    have hstop := Pc.stop_of_not_start hu (hth.running.symm.trans hr)
    rw [hno u] at hstop
    cases hstop

/-- The gate of `stop()` is open: without a `start()` in progress there is no call at all. -/
theorem Inv.quiet_of_stop {th : Threads} {calls : Nat → Pc} (h : Inv th calls)
    (hr : th.running = true) (hno : ∀ u, (calls u).isStart = false) :
    Quiet th ∧ ∀ u, calls u = .idle := by
  cases h with
  | quiet hth hcalls => exact ⟨hth, hcalls⟩
  | active u hu hth hcalls =>
    have hstart := hth.running.symm.trans hr
    rw [hno u] at hstart
    cases hstart

theorem inv_return {th : Threads} {calls : Nat → Pc} (h : Inv th calls) (k : Kind) (w : Nat) :
    Inv { th with live := Function.update th.live k ((th.live k).erase w) } calls := by
  cases h with
  | quiet hth hcalls =>
    exact .quiet ⟨hth.fault, fun k' => (hth.handles k').erase w⟩ hcalls
  | active t ht hth hcalls =>
    exact .active t ht ⟨hth.fault, hth.running, hth.exit, fun k' => (hth.handles k').erase w⟩ hcalls

/-- The call that is past its gate takes its next step, and returns or stays the only one. -/
theorem inv_next {c : Setting} {s s' : State} {t : Nat} (h : Inv s.threads s.calls)
    (hstep : callStep c s t (s.calls t) = some s') : Inv s'.threads s'.calls := by
  cases h with
  | quiet hth hcalls =>
    rw [hcalls t] at hstep
    cases hstep
  | active u hu hth hcalls =>
    by_cases htu : t = u
    · subst htu
      obtain ⟨q, hq, harrives⟩ := callStep_arrives hth hstep
      rw [hq]
      rcases harrives with ⟨rfl, hquiet⟩ | ⟨hne, hstage⟩
      · refine .quiet hquiet fun u => ?_
        by_cases hut : u = t
        · rw [hut, Function.update_self]
        · rw [Function.update_of_ne hut]; exact hcalls u hut
      · refine .active t ?_ ?_ fun u hut => ?_
        · rw [Function.update_self]; exact hne
        · rw [Function.update_self]; exact hstage
        · rw [Function.update_of_ne hut]; exact hcalls u hut
    · rw [hcalls t htu] at hstep
      cases hstep

/-- **Step lemma.**  A step without overlap keeps at most one call past its gate. -/
theorem inv_step {c : Setting} {s s' : State} {a : Act} (h : Inv s.threads s.calls)
    (ha : NoOverlap s a) (hchange : Change c s a s') : Inv s'.threads s'.calls := by
  cases hchange with
  | start t ht hr =>
    obtain ⟨hth, hcalls⟩ := h.quiet_of_start hr ha
    refine active_of_quiet (by decide) ⟨hth.fault, rfl, fun hexit => absurd hexit (by decide),
      fun k => ?_⟩ hcalls
    have hown := hth.handles k
    rw [hr] at hown
    exact hown.congr rfl rfl
  | startRefused t ht hr => exact h
  | stop t ht hr =>
    obtain ⟨hth, hcalls⟩ := h.quiet_of_stop hr ha
    refine active_of_quiet (by decide) ⟨hth.fault, rfl, fun hexit => absurd hexit (by decide),
      fun k => ?_⟩ hcalls
    have hown := hth.handles k
    rw [hr] at hown
    exact hown.congr rfl rfl
  | stopRefused t ht hr => exact h
  | next t s' hnext => exact inv_next h hnext
  | fetched w hw hp => exact h
  | fetchFailed w hw hp => exact h
  | sendFailed w hw hp => exact h
  | nextWorker w s' hworker =>
    obtain ⟨hth, hcalls⟩ := workerStep_frame hworker
    rw [hth, hcalls]
    exact h
  | workerReturn k w hw hp => exact inv_return h k w

/-! ## Safety -/

/-- The safety of a state.  `fault`: no handle was assigned while joinable, none was joined that
    was not; `single`: one worker of a kind at most; `joining`: no join waits for a worker whose
    exit flag is cleared; `idle`: without calls in progress the client runs exactly if its
    handles are joinable. -/
structure Safe (s : State) : Prop where
  fault : s.threads.fault = none
  single : ∀ k, (s.threads.live k).length ≤ 1
  joining : ∀ t k, s.calls t = .join k → s.threads.exitThreads = true
  idle : (∀ t, s.calls t = .idle) →
    ∀ k, s.threads.running = true ↔ (s.threads.handle k).isSome = true

theorem Owned.length_le {th : Threads} {k : Kind} {b : Bool} (h : Owned th k b) :
    (th.live k).length ≤ 1 := by
  cases b with
  | true =>
    obtain ⟨w, -, hl | hl⟩ := h
    · rw [hl]; exact Nat.zero_le 1
    · rw [hl]; exact Nat.le_refl 1
  | false => rw [h.2]; exact Nat.zero_le 1

theorem safe_of_inv {s : State} (h : Inv s.threads s.calls) : Safe s := by
  cases h with
  | quiet hth hcalls =>
    refine ⟨hth.fault, fun k => (hth.handles k).length_le, fun t k ht => ?_, fun _ k => ?_⟩
    · cases (hcalls t).symm.trans ht
    · have hown := hth.handles k
      cases hr : s.threads.running with
      | true =>
        rw [hr] at hown
        obtain ⟨w, hw, -⟩ := hown
        simp [hw]
      | false =>
        rw [hr] at hown
        simp [hown.1]
  | active t ht hth hcalls =>
    refine ⟨hth.fault, fun k => (hth.handles k).length_le, fun u k hu => ?_, fun hall => ?_⟩
    · by_cases hut : u = t
      · subst hut
        rw [hu] at hth
        exact hth.exit rfl
      · cases (hcalls u hut).symm.trans hu
    · exact absurd (hall t) ht

theorem inv_initial (storeReady : Bool) :
    Inv (initial storeReady).threads (initial storeReady).calls :=
  .quiet ⟨rfl, fun k => ⟨rfl, rfl⟩⟩ fun _ => rfl

/-- **Lifecycle safety.**  On every run on which no call passes its gate while one of the other
    kind is past its own, every state reached is safe. -/
theorem lifecycle_safe (c : Setting) (storeReady : Bool) (as : List Act) (s : State)
    (hrun : Machine.run (step c) (initial storeReady) as = some s)
    (hmeets : Machine.Meets (step c) NoOverlap (initial storeReady) as) : Safe s :=
  safe_of_inv (Machine.run_inv_meets (I := fun s => Inv s.threads s.calls)
    (fun s a t hs ha ht => inv_step hs ha (step_change ht)) (inv_initial storeReady) hmeets hrun)

/-! ## A start in the middle of a stop -/

def everything : Setting := { enabled := fun _ => true, registered := fun _ => true }

/-- `start()` of thread `t`, from its gate to its return, with no flags in the store. -/
def startRun (t : Nat) : List Act :=
  [.start t, .next t, .next t, .next t, .next t, .next t, .next t, .next t]

/-- Thread 0 starts the client, a `start()` of thread 1 is refused, then thread 1 stops it, from its
    gate to its return, and thread 0 starts it again. -/
def restartRun : List Act :=
  startRun 0 ++ .startRefused 1 :: .stop 1 :: List.replicate 4 (.next 1) ++
    [.workerReturn .metrics 0, .workerReturn .polling 1] ++ List.replicate 5 (.next 1) ++ startRun 0

theorem lifecycle_safe_restart :
    ∃ s, Machine.run (step everything) (initial false) restartRun = some s ∧
      s.threads.running = true ∧ s.threads.live .polling = [3] ∧ Safe s := by
  refine ⟨_, rfl, rfl, rfl, lifecycle_safe everything false restartRun _ rfl ?_⟩
  -- the other actions pass no gate
  refine ⟨fun u => rfl, trivial, trivial, trivial, trivial, trivial, trivial, trivial, trivial,
    fun u => ?_, trivial, trivial, trivial, trivial, trivial, trivial, trivial, trivial, trivial,
    trivial, trivial, fun u => ?_, trivial, trivial, trivial, trivial, trivial, trivial, trivial,
    trivial⟩
  · match u with
    | 0 | 1 | u + 2 => rfl
  · match u with
    | 0 | 1 | u + 2 => rfl

/-- Thread 1 stops the client that thread 0 started; before it joins the workers, thread 0 starts
    the client again. -/
def overlapRun : List Act :=
  startRun 0 ++
    [.stop 1, .next 1, .start 0, .next 0, .next 0, .next 0, .next 0, .next 0, .next 0]

/-- The second `start()` assigns a thread handle that is joinable. -/
theorem start_during_stop :
    ∃ s, Machine.run (step everything) (initial false) overlapRun = some s ∧ ¬ Safe s :=
  ⟨_, rfl, fun h => absurd h.fault (by decide)⟩

end Lifecycle

end Unleash
