/-
  THE READY EVENT of a client whose first toggles come from a fetch.

  The worker that stores the first toggles exchanges `_ready` and, finding it false, emits Ready
  before it emits the Update of the same reply.  On runs without overlap that worker is the only
  one (`Greet.unique`), the event handler is started while it lives (`Greet.started`), and no
  `start()` finds the store ready while the client is not (`Greet.noWorker`).  So from a client
  whose store is not ready, the events that reach the queue are one Ready and then Updates.
-/
import UnleashSdk.Lifecycle

set_option linter.unusedVariables false

namespace Unleash

namespace Lifecycle

/-! ## What is kept -/

def Pc.settled : Pc → Bool
  | .emitReady => false
  | .pushReady => false
  | .storeReady => false
  | _ => true

def WorkerPc.settled : WorkerPc → Bool
  | .emitReady => false
  | .pushReady => false
  | _ => true

/-- The Ready and Update events that reached the queue. -/
def delivered (log : List Emission) : List Emission :=
  log.filter fun e => e.enqueued && (e.kind = .ready || e.kind = .update)

/-- Once the client is ready, and nobody is between the flag and its event, one Ready has been
    enqueued before any Update; another Ready is one of a later `start()`. -/
def ReadyKept (s : State) : Prop :=
  s.events.ready = true → (∀ t, (s.calls t).settled = true) → (∀ w, (s.workers w).settled = true) →
    ∃ first rest, delivered s.events.log = first :: rest ∧ first.kind = .ready ∧
      ∀ e ∈ rest, e.kind = .ready → ∃ t, e.emitter = .call t

/-! ## The invariant -/

/-- Whether the event handler is started while the one call past its gate is at this point. -/
def Pc.handled : Pc → Bool
  | .spawn _ | .storeRunning | .setExit | .notify _ | .testJoinable _ | .join _
  | .stopHandler => true
  | _ => false

/-- A polling worker with toggles to announce. -/
def WorkerPc.announcing : WorkerPc → Bool
  | .exchangeReady | .emitReady | .pushReady | .emitUpdate | .pushUpdate => true
  | _ => false

/-- The client has never been ready: no toggles, or a worker that is about to say so. -/
structure Fresh (s : State) : Prop where
  log : delivered s.events.log = []
  calls : ∀ t, (s.calls t).settled = true
  workers : ∀ w, (s.workers w).announcing = true → s.workers w = .exchangeReady
  store : s.events.storeReady = true → ∃ w, s.workers w = .exchangeReady

/-- The client is ready: a worker is about to emit the Ready, or it is the first of the events
    that were delivered, and all others are Updates. -/
def Greeted (s : State) : Prop :=
  ((∃ w, (s.workers w).settled = false) ∧ delivered s.events.log = []) ∨
  ((∀ w, (s.workers w).settled = true) ∧ ∃ first rest, delivered s.events.log = first :: rest ∧
    first.kind = .ready ∧ ∀ e ∈ rest, e.kind = .update)

structure Greet (s : State) : Prop where
  handled : ∀ t, s.calls t ≠ .idle → s.events.started = (s.calls t).handled
  quiet : (∀ t, s.calls t = .idle) → s.events.started = s.threads.running
  silent : ∀ t, s.calls t ≠ .pushInit ∧ s.calls t ≠ .pushReady
  busy : ∀ w, (s.workers w).announcing = true → w ∈ s.threads.live .polling
  fresh : s.events.ready = false → Fresh s
  greeted : s.events.ready = true → Greeted s

theorem delivered_append (log es : List Emission) :
    delivered (log ++ es) = delivered log ++ delivered es := List.filter_append ..

/-- What a call of a client without overlap does to the events: nothing that reaches the queue. -/
structure CallEffect (s s' : State) (t : Nat) (q : Pc) : Prop where
  calls : s'.calls = Function.update s.calls t q
  workers : s'.workers = s.workers
  storeReady : s'.events.storeReady = s.events.storeReady
  ready : s'.events.ready = s.events.ready ∨ s.calls t = .storeReady ∧ s'.events.ready = true
  log : delivered s'.events.log = delivered s.events.log
  live : ∀ w, w ∈ s.threads.live .polling → w ∈ s'.threads.live .polling
  handled : q ≠ .idle → s'.events.started = q.handled
  quiet : q = .idle → s'.events.started = s'.threads.running
  silent : q ≠ .pushInit ∧ q ≠ .pushReady
  settled : q.settled = false →
    (s.calls t).settled = false ∨ (s.calls t = .testStore ∧ s.events.storeReady = true)

section Effect

variable {s : State} {t : Nat} {p q : Pc}

/-- A step that changes nothing but where the call is. -/
theorem CallEffect.move (hp : s.calls t = p) (hhandled : s.events.started = p.handled)
    (hne : q ≠ .idle) (hq : q.handled = p.handled) (hsilent : q ≠ .pushInit ∧ q ≠ .pushReady)
    (hset : q.settled = false →
      p.settled = false ∨ (p = .testStore ∧ s.events.storeReady = true)) :
    CallEffect s (s.goto t q) t q :=
  ⟨rfl, rfl, rfl, Or.inl rfl, rfl, fun _ hw => hw, fun _ => hhandled.trans hq.symm,
    fun h => absurd h hne, hsilent, fun h => hp ▸ hset h⟩

/-- An emission that the handler drops. -/
theorem CallEffect.drop (kind : EventKind) (hp : s.calls t = p)
    (hhandled : s.events.started = p.handled) (hne : q ≠ .idle) (hq : q.handled = p.handled)
    (hsilent : q ≠ .pushInit ∧ q ≠ .pushReady) (hset : q.settled = false → p.settled = false) :
    CallEffect s ((s.note kind (.call t) false).goto t q) t q := by
  have hlog : delivered ((s.note kind (.call t) false).goto t q).events.log =
      delivered s.events.log := by
    simp [State.goto, State.note, delivered]
  exact ⟨rfl, rfl, rfl, Or.inl rfl, hlog, fun _ hw => hw, fun _ => hhandled.trans hq.symm,
    fun h => absurd h hne, hsilent, fun h => Or.inl (hp ▸ hset h)⟩

/-- A step of the threads. -/
theorem CallEffect.threads {th : Threads} (hhandled : s.events.started = p.handled)
    (hlive : ∀ w, w ∈ s.threads.live .polling → w ∈ th.live .polling)
    (hq : q ≠ .idle → q.handled = p.handled) (hidle : q = .idle → th.running = p.handled)
    (hsilent : q ≠ .pushInit ∧ q ≠ .pushReady) (hset : q.settled = true) :
    CallEffect s ((s.withThreads th).goto t q) t q :=
  ⟨rfl, rfl, rfl, Or.inl rfl, rfl, hlive, fun h => hhandled.trans (hq h).symm,
    fun h => hhandled.trans (hidle h).symm, hsilent, fun h => by rw [hset] at h; cases h⟩

end Effect

/-- The creation of a worker leaves those that are there. -/
theorem live_spawn {th : Threads} {k : Kind} {w : Nat} (hw : w ∈ th.live .polling) :
    w ∈ (spawn th k).live .polling := by
  unfold spawn
  split
  · exact hw
  · show w ∈ Function.update th.live k _ .polling
    by_cases hk : Kind.polling = k
    · subst hk
      rw [Function.update_self]
      exact List.mem_cons_of_mem _ hw
    · rw [Function.update_of_ne hk]
      exact hw

theorem callEffect {c : Setting} {s s' : State} {t : Nat}
    (hhandled : s.events.started = (s.calls t).handled)
    (hsilent : s.calls t ≠ .pushInit ∧ s.calls t ≠ .pushReady)
    (h : callStep c s t (s.calls t) = some s') : ∃ q, CallEffect s s' t q := by
  generalize hp : s.calls t = p at h hhandled hsilent
  cases p with
  | idle => cases h
  | emitInit =>
    simp only [callStep, emit, hhandled] at h
    cases h
    exact ⟨_, .drop .init hp hhandled (by decide) rfl (by decide) (by decide)⟩
  | pushInit => exact absurd rfl hsilent.1
  | testStore =>
    simp only [callStep] at h
    split at h <;> cases h
    · rename_i hstore
      exact ⟨_, .move hp hhandled (by decide) rfl (by decide) fun _ => Or.inr ⟨rfl, hstore⟩⟩
    · exact ⟨_, .move hp hhandled (by decide) rfl (by decide) fun h => (by cases h)⟩
  | emitReady =>
    simp only [callStep, emit, hhandled] at h
    cases h
    exact ⟨_, .drop .ready hp hhandled (by decide) rfl (by decide) fun _ => rfl⟩
  | pushReady => exact absurd rfl hsilent.2
  | storeReady =>
    cases h
    exact ⟨.clearExit, rfl, rfl, rfl, Or.inr ⟨hp, rfl⟩, rfl, fun _ hw => hw, fun _ => hhandled,
      fun h => (by cases h), by decide, fun h => (by cases h)⟩
  | clearExit =>
    cases h
    exact ⟨_, .threads hhandled (fun _ hw => hw) (fun _ => rfl) (fun h => by cases h)
      (by decide) rfl⟩
  | startHandler =>
    cases h
    exact ⟨.spawn .metrics, rfl, rfl, rfl, Or.inl rfl, rfl, fun _ hw => hw, fun _ => rfl,
      fun h => (by cases h), by decide, fun h => (by cases h)⟩
  | spawn k =>
    cases k <;> cases h
    · exact ⟨_, .threads hhandled (fun _ => live_spawn) (fun _ => rfl) (fun h => by cases h)
        (by decide) rfl⟩
    · exact ⟨_, .threads hhandled (fun _ => live_spawn) (fun _ => rfl) (fun h => by cases h)
        (by decide) rfl⟩
  | storeRunning =>
    cases h
    exact ⟨_, .threads hhandled (fun _ hw => hw) (fun h => absurd rfl h) (fun _ => rfl)
      (by decide) rfl⟩
  | setExit =>
    cases h
    exact ⟨_, .threads hhandled (fun _ hw => hw) (fun _ => rfl) (fun h => by cases h)
      (by decide) rfl⟩
  | notify k =>
    cases k <;> cases h
    · exact ⟨_, .move hp hhandled (by decide) rfl (by decide) fun h => (by cases h)⟩
    · exact ⟨_, .move hp hhandled (by decide) rfl (by decide) fun h => (by cases h)⟩
  | testJoinable k =>
    cases h
    refine ⟨_, .move hp hhandled ?_ ?_ ?_ ?_⟩
    all_goals cases k <;> split <;> simp [afterJoin, Pc.handled, Pc.settled]
  | join k =>
    have hjoin : Pc.join k ≠ .pushInit ∧ Pc.join k ≠ .pushReady := by cases k <;> decide
    have hnext : afterJoin k ≠ .pushInit ∧ afterJoin k ≠ .pushReady := by cases k <;> decide
    have hidle : afterJoin k ≠ .idle := by cases k <;> decide
    simp only [callStep] at h
    split at h
    · cases h
      exact ⟨.join k, (by rw [← hp, Function.update_eq_self]; rfl), rfl, rfl, Or.inl rfl, rfl,
        fun _ hw => hw, fun _ => hhandled, fun h => (by cases h), hjoin, fun h => (by cases h)⟩
    · split at h <;> cases h
      refine ⟨_, .threads hhandled (fun _ hw => hw) (fun _ => ?_) (fun h => absurd h hidle) hnext
        ?_⟩
      · cases k <;> rfl
      · cases k <;> rfl
  | stopHandler =>
    cases h
    exact ⟨.storeStopped, rfl, rfl, rfl, Or.inl rfl, rfl, fun _ hw => hw, fun _ => rfl,
      fun h => (by cases h), by decide, fun h => (by cases h)⟩
  | storeStopped =>
    cases h
    exact ⟨_, .threads hhandled (fun _ hw => hw) (fun h => absurd rfl h) (fun _ => rfl)
      (by decide) rfl⟩

theorem Inv.length_le {th : Threads} {calls : Nat → Pc} (h : Inv th calls) (k : Kind) :
    (th.live k).length ≤ 1 := by
  cases h with
  | quiet hth hcalls => exact (hth.handles k).length_le
  | active t ht hth hcalls => exact (hth.handles k).length_le

/-- There is one polling worker at most. -/
theorem Greet.unique {s : State} (hg : Greet s) (hinv : Inv s.threads s.calls) {w w' : Nat}
    (hw : (s.workers w).announcing = true) (hw' : (s.workers w').announcing = true) : w = w' := by
  have hle := hinv.length_le .polling
  have hmem := hg.busy w hw
  have hmem' := hg.busy w' hw'
  match hl : s.threads.live .polling with
  | [] => rw [hl] at hmem; cases hmem
  | [v] =>
    rw [hl] at hmem hmem'
    exact (List.mem_singleton.mp hmem).trans (List.mem_singleton.mp hmem').symm
  | v :: v' :: vs => rw [hl] at hle; simp at hle

/-- A worker with something to announce finds the handler started. -/
theorem Greet.started {s : State} (hg : Greet s) (hinv : Inv s.threads s.calls) {w : Nat}
    (hw : (s.workers w).announcing = true) : s.events.started = true := by
  have hmem := hg.busy w hw
  have hne : s.threads.live .polling ≠ [] := fun hl => by rw [hl] at hmem; cases hmem
  cases hinv with
  | quiet hth hcalls =>
    rw [hg.quiet hcalls]
    have hown := hth.handles .polling
    cases hr : s.threads.running with
    | true => rfl
    | false => rw [hr] at hown; exact absurd hown.2 hne
  | active t ht hth hcalls =>
    rw [hg.handled t ht]
    have hown := hth.handles .polling
    generalize s.calls t = p at hown ht
    have hholds : p.holds .polling = true := by
      cases hb : p.holds .polling with
      | true => rfl
      | false => rw [hb] at hown; exact absurd hown.2 hne
    cases p with
    | spawn k => rfl
    | storeRunning => rfl
    | setExit => rfl
    | notify k => rfl
    | testJoinable k => rfl
    | join k => rfl
    | stopHandler => rfl
    | _ => cases hholds

/-- While a call is at its test of the store there is no worker. -/
theorem Greet.noWorker {s : State} (hg : Greet s) (hinv : Inv s.threads s.calls) {t w : Nat}
    (ht : s.calls t = .testStore) : (s.workers w).announcing = false := by
  cases hw : (s.workers w).announcing with
  | false => rfl
  | true =>
    have hmem := hg.busy w hw
    cases hinv with
    | quiet hth hcalls => rw [hcalls t] at ht; cases ht
    | active u hu hth hcalls =>
      by_cases htu : t = u
      · subst htu
        have hown := hth.handles .polling
        rw [ht] at hown
        rw [hown.2] at hmem
        cases hmem
      · rw [hcalls t htu] at ht
        cases ht

/-- A step that leaves the events and the workers alone, and moves one call. -/
theorem Greet.move {s s' : State} (hg : Greet s) {t : Nat} {q : Pc}
    (hcalls : s'.calls = Function.update s.calls t q) (hworkers : s'.workers = s.workers)
    (hstore : s'.events.storeReady = s.events.storeReady)
    (hready : s'.events.ready = s.events.ready)
    (hlog : delivered s'.events.log = delivered s.events.log)
    (hlive : ∀ w, w ∈ s.threads.live .polling → w ∈ s'.threads.live .polling)
    (hhandled : ∀ u, s'.calls u ≠ .idle → s'.events.started = (s'.calls u).handled)
    (hquiet : (∀ u, s'.calls u = .idle) → s'.events.started = s'.threads.running)
    (hsilent : q ≠ .pushInit ∧ q ≠ .pushReady)
    (hset : s.events.ready = false → q.settled = true) : Greet s' := by
  have hall : ∀ P : Pc → Prop, (∀ u, P (s.calls u)) → P q → ∀ u, P (s'.calls u) := by
    intro P hP hq u
    rw [hcalls]
    by_cases hut : u = t
    · rw [hut, Function.update_self]
      exact hq
    · rw [Function.update_of_ne hut]
      exact hP u
  refine ⟨hhandled, hquiet, hall (fun p => p ≠ .pushInit ∧ p ≠ .pushReady) hg.silent hsilent,
    fun w hw => ?_, fun hr => ?_, fun hr => ?_⟩
  · rw [hworkers] at hw
    exact hlive w (hg.busy w hw)
  · rw [hready] at hr
    have hf := hg.fresh hr
    refine ⟨hlog.trans hf.log, hall (fun p => p.settled = true) hf.calls (hset hr), ?_, ?_⟩
    · rw [hworkers]
      exact hf.workers
    · rw [hstore, hworkers]
      exact hf.store
  · rw [hready] at hr
    have hgr := hg.greeted hr
    unfold Greeted at hgr ⊢
    rw [hworkers, hlog]
    exact hgr


theorem WorkerPc.announcing_of_not_settled {p : WorkerPc} (h : p.settled = false) :
    p.announcing = true := by
  cases p with
  | emitReady => rfl
  | pushReady => rfl
  | _ => cases h

/-- What a step of worker `w` keeps, besides what it announces. -/
structure WorkerMoves (s s' : State) (w : Nat) (p : WorkerPc) : Prop where
  workers : s'.workers = Function.update s.workers w p
  threads : s'.threads = s.threads
  calls : s'.calls = s.calls
  started : s'.events.started = s.events.started

theorem Greet.worker {s s' : State} (hg : Greet s) {w : Nat} {p : WorkerPc}
    (hmove : WorkerMoves s s' w p) (hbusy : p.announcing = true → w ∈ s.threads.live .polling)
    (hfresh : s'.events.ready = false → Fresh s')
    (hgreeted : s'.events.ready = true → Greeted s') : Greet s' := by
  obtain ⟨hworkers, hthreads, hcalls, hstarted⟩ := hmove
  refine ⟨?_, ?_, ?_, fun v hv => ?_, hfresh, hgreeted⟩
  · rw [hcalls, hstarted]
    exact hg.handled
  · rw [hcalls, hstarted, hthreads]
    exact hg.quiet
  · rw [hcalls]
    exact hg.silent
  · rw [hworkers] at hv
    rw [hthreads]
    by_cases hvw : v = w
    · subst hvw
      rw [Function.update_self] at hv
      exact hbusy hv
    · rw [Function.update_of_ne hvw] at hv
      exact hg.busy v hv

/-- A client that has never been ready stays so while a worker does anything else. -/
theorem Fresh.worker {s s' : State} {w : Nat} {p : WorkerPc} (h : Fresh s)
    (hmove : WorkerMoves s s' w p) (hw : s.workers w ≠ .exchangeReady)
    (hp : p.announcing = true → p = .exchangeReady)
    (hlog : delivered s'.events.log = delivered s.events.log)
    (hstore : s'.events.storeReady = true → s.events.storeReady = true ∨ p = .exchangeReady) :
    Fresh s' := by
  refine ⟨hlog.trans h.log, ?_, fun v hv => ?_, fun hs => ?_⟩
  · rw [hmove.calls]
    exact h.calls
  · rw [hmove.workers] at hv ⊢
    by_cases hvw : v = w
    · subst hvw
      rw [Function.update_self] at hv ⊢
      exact hp hv
    · rw [Function.update_of_ne hvw] at hv ⊢
      exact h.workers v hv
  · rw [hmove.workers]
    rcases hstore hs with hold | hnew
    · obtain ⟨v, hv⟩ := h.store hold
      have hvw : v ≠ w := fun hvw => hw (hvw ▸ hv)
      exact ⟨v, (Function.update_of_ne hvw _ _).trans hv⟩
    · exact ⟨w, (Function.update_self _ _ _).trans hnew⟩

/-- A ready client has announced it, whatever else its workers do. -/
theorem Greeted.worker {s s' : State} {w : Nat} {p : WorkerPc} (h : Greeted s)
    (hmove : WorkerMoves s s' w p) (hw : (s.workers w).settled = true) (hp : p.settled = true)
    (hlog : delivered s'.events.log = delivered s.events.log) : Greeted s' := by
  unfold Greeted at h ⊢
  rw [hlog, hmove.workers]
  rcases h with ⟨⟨v, hv⟩, hnone⟩ | ⟨hall, hseq⟩
  · refine Or.inl ⟨⟨v, ?_⟩, hnone⟩
    have hvw : v ≠ w := fun hvw => by rw [hvw, hw] at hv; cases hv
    rw [Function.update_of_ne hvw]
    exact hv
  · refine Or.inr ⟨fun v => ?_, hseq⟩
    by_cases hvw : v = w
    · rw [hvw, Function.update_self]
      exact hp
    · rw [Function.update_of_ne hvw]
      exact hall v

/-- Another Update after the Ready. -/
theorem Greeted.announce {s s' : State} {w : Nat} {p : WorkerPc} {es : List Emission}
    (h : (∀ v, (s.workers v).settled = true) ∧ ∃ first rest,
      delivered s.events.log = first :: rest ∧ first.kind = .ready ∧ ∀ e ∈ rest, e.kind = .update)
    (hmove : WorkerMoves s s' w p) (hp : p.settled = true)
    (hlog : delivered s'.events.log = delivered s.events.log ++ es)
    (hes : ∀ e ∈ es, e.kind = .update) : Greeted s' := by
  obtain ⟨hall, first, rest, hseq, hfirst, hrest⟩ := h
  refine Or.inr ⟨fun v => ?_, first, rest ++ es, ?_, hfirst, fun e he => ?_⟩
  · rw [hmove.workers]
    by_cases hvw : v = w
    · rw [hvw, Function.update_self]
      exact hp
    · rw [Function.update_of_ne hvw]
      exact hall v
  · rw [hlog, hseq]
    rfl
  · rcases List.mem_append.mp he with he | he
    · exact hrest e he
    · exact hes e he

/-- A worker that does anything but announce toggles. -/
theorem Greet.other {s s' : State} {w : Nat} {p : WorkerPc} (hg : Greet s)
    (hmove : WorkerMoves s s' w p) (hw : (s.workers w).settled = true)
    (hne : s.workers w ≠ .exchangeReady) (hann : p.announcing = false) (hset : p.settled = true)
    (hready : s'.events.ready = s.events.ready)
    (hstore : s'.events.storeReady = s.events.storeReady)
    (hlog : delivered s'.events.log = delivered s.events.log) : Greet s' := by
  refine hg.worker hmove (fun h => by rw [hann] at h; cases h) (fun hr => ?_) fun hr => ?_
  · rw [hready] at hr
    refine (hg.fresh hr).worker hmove hne (fun h => by rw [hann] at h; cases h) hlog fun hs => ?_
    exact Or.inl (hstore ▸ hs)
  · rw [hready] at hr
    exact (hg.greeted hr).worker hmove hw hset hlog

/-- While a worker announces anything but Ready, Ready has been enqueued first, and after it
    Updates only. -/
theorem Greet.settled {s : State} {w : Nat} (hg : Greet s) (hinv : Inv s.threads s.calls)
    (hann : (s.workers w).announcing = true) (hset : (s.workers w).settled = true)
    (hr : s.events.ready = true) :
    (∀ v, (s.workers v).settled = true) ∧ ∃ first rest,
      delivered s.events.log = first :: rest ∧ first.kind = .ready ∧
        ∀ e ∈ rest, e.kind = .update := by
  rcases hg.greeted hr with ⟨⟨v, hv⟩, -⟩ | hright
  · have hvw := hg.unique hinv (WorkerPc.announcing_of_not_settled hv) hann
    rw [hvw, hset] at hv
    cases hv
  · exact hright

/-- A worker that is about to announce Ready is the only one, and nothing has been enqueued. -/
theorem Greet.unsettled {s : State} {w : Nat} (hg : Greet s) (hinv : Inv s.threads s.calls)
    (hset : (s.workers w).settled = false) :
    s.events.ready = true ∧ delivered s.events.log = [] ∧
      ∀ v, v ≠ w → (s.workers v).settled = true := by
  have hann := WorkerPc.announcing_of_not_settled hset
  have hothers : ∀ v, v ≠ w → (s.workers v).settled = true := by
    intro v hv
    cases hb : (s.workers v).settled with
    | true => rfl
    | false => exact absurd (hg.unique hinv (WorkerPc.announcing_of_not_settled hb) hann) hv
  cases hr : s.events.ready with
  | false =>
    rw [(hg.fresh hr).workers w hann] at hset
    cases hset
  | true =>
    rcases hg.greeted hr with ⟨-, hnone⟩ | ⟨hall, -⟩
    · exact ⟨rfl, hnone, hothers⟩
    · rw [hall w] at hset
      cases hset

/-- Past the exchange of `_ready` the client is ready. -/
theorem Greet.ready {s : State} {w : Nat} (hg : Greet s)
    (hann : (s.workers w).announcing = true) (hne : s.workers w ≠ .exchangeReady) :
    s.events.ready = true := by
  cases hr : s.events.ready with
  | true => rfl
  | false => exact absurd ((hg.fresh hr).workers w hann) hne

/-- **Step lemma for the worker.**  It emits one Ready when it makes the client ready, before
    the Update of the same reply. -/
theorem greet_workerStep {c : Setting} {s s' : State} {w : Nat}
    (hreg : c.registered .ready = true) (hg : Greet s) (hinv : Inv s.threads s.calls)
    (h : workerStep c s w (s.workers w) = some s') : Greet s' := by
  have hleft := hg.settled hinv (w := w)
  have hunsettled := hg.unsettled hinv (w := w)
  have hready := hg.ready (w := w)
  have hbusy := hg.busy w
  have hstarted : (s.workers w).announcing = true → s.events.started = true := hg.started hinv
  generalize hp : s.workers w = p at h hleft hunsettled hready hbusy hstarted
  cases p with
  | waiting => cases h
  | exchangeReady =>
    cases h
    refine hg.worker ⟨rfl, rfl, rfl, rfl⟩ (fun _ => hbusy rfl) (fun hr => by cases hr) fun _ => ?_
    cases hr : s.events.ready with
    | false =>
      refine Or.inl ⟨⟨w, ?_⟩, (hg.fresh hr).log⟩
      show (Function.update s.workers w _ w).settled = false
      rw [Function.update_self]
      rfl
    | true =>
      have hold := hleft rfl rfl hr
      exact Greeted.announce hold ⟨rfl, rfl, rfl, rfl⟩ rfl (List.append_nil _).symm
        fun e he => (by cases he)
  | emitReady =>
    simp only [workerStep, emit, hstarted rfl, if_true] at h
    cases h
    obtain ⟨hr, hnone, -⟩ := hunsettled rfl
    refine hg.worker ⟨rfl, rfl, rfl, rfl⟩ (fun _ => hbusy rfl)
      (fun hr' => by cases hr.symm.trans hr') fun _ => Or.inl ⟨⟨w, ?_⟩, hnone⟩
    show (Function.update s.workers w _ w).settled = false
    rw [Function.update_self]
    rfl
  | pushReady =>
    cases h
    obtain ⟨hr, hnone, hothers⟩ := hunsettled rfl
    refine hg.worker ⟨rfl, rfl, rfl, rfl⟩ (fun _ => hbusy rfl)
      (fun hr' => by cases hr.symm.trans hr') fun _ => Or.inr ⟨fun v => ?_, ?_⟩
    · show (Function.update s.workers w _ v).settled = true
      by_cases hvw : v = w
      · rw [hvw, Function.update_self]
        rfl
      · rw [Function.update_of_ne hvw]
        exact hothers v hvw
    · refine ⟨⟨.ready, .worker w, true⟩, [], ?_, rfl, fun e he => by cases he⟩
      show delivered (s.events.log ++ [_]) = _
      rw [delivered_append, hnone, hreg]
      rfl
  | emitUpdate =>
    simp only [workerStep, emit, hstarted rfl, if_true] at h
    cases h
    have hr := hready rfl (fun h => by cases h)
    refine hg.worker ⟨rfl, rfl, rfl, rfl⟩ (fun _ => hbusy rfl)
      (fun hr' => by cases hr.symm.trans hr') fun _ => ?_
    exact (hg.greeted hr).worker ⟨rfl, rfl, rfl, rfl⟩ (by rw [hp]; rfl) rfl rfl
  | pushUpdate =>
    cases h
    have hr := hready rfl (fun h => by cases h)
    refine hg.worker ⟨rfl, rfl, rfl, rfl⟩ (fun h => by cases h)
      (fun hr' => by cases hr.symm.trans hr') fun _ => ?_
    refine Greeted.announce (hleft rfl rfl hr) ⟨rfl, rfl, rfl, rfl⟩ rfl (delivered_append _ _)
      fun e he => ?_
    rw [List.mem_singleton.mp (List.mem_of_mem_filter he)]
  | emitError =>
    have hkeep : ∀ q, q.announcing = false → q.settled = true → WorkerMoves s s' w q →
        s'.events.ready = s.events.ready → s'.events.storeReady = s.events.storeReady →
        delivered s'.events.log = delivered s.events.log → Greet s' :=
      fun q hq hset hmove hr hstore hlog =>
        hg.other hmove (by rw [hp]; rfl) (by rw [hp]; decide) hq hset hr hstore hlog
    simp only [workerStep, emit] at h
    split at h <;> cases h
    · exact hkeep .pushError rfl rfl ⟨rfl, rfl, rfl, rfl⟩ rfl rfl rfl
    · refine hkeep .waiting rfl rfl ⟨rfl, rfl, rfl, rfl⟩ rfl rfl ?_
      exact (delivered_append _ _).trans (List.append_nil _)
  | pushError =>
    cases h
    refine hg.other ⟨rfl, rfl, rfl, rfl⟩ (by rw [hp]; rfl) (by rw [hp]; decide) rfl rfl rfl rfl ?_
    refine (delivered_append _ _).trans ?_
    simp [delivered]

/-- A call that passes its gate is the only one. -/
theorem Greet.gate {s s' : State} {t : Nat} {q : Pc} (hg : Greet s)
    (hidle : ∀ u, s.calls u = .idle) (hcalls : s'.calls = Function.update s.calls t q)
    (hworkers : s'.workers = s.workers) (hevents : s'.events = s.events)
    (hlive : s'.threads.live = s.threads.live) (hstarted : s.events.started = q.handled)
    (hne : q ≠ .idle) (hsilent : q ≠ .pushInit ∧ q ≠ .pushReady) (hset : q.settled = true) :
    Greet s' := by
  refine hg.move hcalls hworkers (by rw [hevents]) (by rw [hevents]) (by rw [hevents])
    (by rw [hlive]; exact fun w hw => hw) (fun u hu => ?_) (fun hall => ?_) hsilent fun _ => hset
  · rw [hcalls] at hu ⊢
    by_cases hut : u = t
    · rw [hut, Function.update_self, hevents]
      exact hstarted
    · rw [Function.update_of_ne hut] at hu
      exact absurd (hidle u) hu
  · have ht := hall t
    rw [hcalls, Function.update_self] at ht
    exact absurd ht hne

/-- **Step lemma for the call.** -/
theorem greet_next {c : Setting} {s s' : State} {t : Nat} (hg : Greet s)
    (hinv : Inv s.threads s.calls) (h : callStep c s t (s.calls t) = some s') : Greet s' := by
  cases hinv with
  | quiet hth hcalls =>
    rw [hcalls t] at h
    cases h
  | active u hu hth hcalls =>
    by_cases htu : t = u
    · subst htu
      obtain ⟨q, heff⟩ := callEffect (hg.handled t hu) (hg.silent t) h
      have hready : s'.events.ready = s.events.ready := by
        rcases heff.ready with hsame | ⟨hcall, hr'⟩
        · exact hsame
        · -- the flag is stored again: a client that was never ready has no call here
          cases hr : s.events.ready with
          | true => exact hr'
          | false =>
            have hsettled := (hg.fresh hr).calls t
            rw [hcall] at hsettled
            cases hsettled
      refine hg.move heff.calls heff.workers heff.storeReady hready heff.log heff.live
        (fun v hv => ?_) (fun hall => ?_) heff.silent fun hr => ?_
      · rw [heff.calls] at hv ⊢
        by_cases hvt : v = t
        · rw [hvt, Function.update_self] at hv ⊢
          exact heff.handled hv
        · rw [Function.update_of_ne hvt] at hv
          exact absurd (hcalls v hvt) hv
      · have hq := hall t
        rw [heff.calls, Function.update_self] at hq
        exact heff.quiet hq
      · have hfresh := hg.fresh hr
        cases hq : q.settled with
        | true => rfl
        | false =>
          rcases heff.settled hq with hcall | ⟨htest, hstore⟩
          · rw [hfresh.calls t] at hcall
            cases hcall
          · -- without a worker the store of a client that was never ready is empty
            obtain ⟨w, hw⟩ := hfresh.store hstore
            have hnone := hg.noWorker (.active t hu hth hcalls) (w := w) htest
            rw [hw] at hnone
            cases hnone
    · rw [hcalls t htu] at h
      cases h

/-- **Step lemma.** -/
theorem greet_step {c : Setting} {s s' : State} {a : Act} (hreg : c.registered .ready = true)
    (hg : Greet s) (hinv : Inv s.threads s.calls) (ha : NoOverlap s a)
    (hchange : Change c s a s') : Greet s' := by
  cases hchange with
  | start t ht hr =>
    obtain ⟨hth, hcalls⟩ := hinv.quiet_of_start hr ha
    exact hg.gate hcalls rfl rfl rfl rfl ((hg.quiet hcalls).trans hr) (by decide) (by decide) rfl
  | startRefused t ht hr => exact hg
  | stop t ht hr =>
    obtain ⟨hth, hcalls⟩ := hinv.quiet_of_stop hr ha
    exact hg.gate hcalls rfl rfl rfl rfl ((hg.quiet hcalls).trans hr) (by decide) (by decide) rfl
  | stopRefused t ht hr => exact hg
  | next t s' hnext => exact greet_next hg hinv hnext
  | fetched w hw hp =>
    have hne : s.workers w ≠ .exchangeReady := by rw [hp]; decide
    have hset : (s.workers w).settled = true := by rw [hp]; rfl
    -- the toggles are in the store: the worker is about to make the client ready
    refine hg.worker ⟨rfl, rfl, rfl, rfl⟩ (fun _ => hw) (fun hr => ?_) fun hr => ?_
    · exact (hg.fresh hr).worker ⟨rfl, rfl, rfl, rfl⟩ hne (fun _ => rfl) rfl fun _ => Or.inr rfl
    · exact (hg.greeted hr).worker ⟨rfl, rfl, rfl, rfl⟩ hset rfl rfl
  | fetchFailed w hw hp =>
    exact hg.other ⟨rfl, rfl, rfl, rfl⟩ (by rw [hp]; rfl) (by rw [hp]; decide) rfl rfl rfl rfl rfl
  | sendFailed w hw hp =>
    exact hg.other ⟨rfl, rfl, rfl, rfl⟩ (by rw [hp]; rfl) (by rw [hp]; decide) rfl rfl rfl rfl rfl
  | nextWorker w s' hworker => exact greet_workerStep hreg hg hinv hworker
  | workerReturn k w hw hp =>
    refine ⟨hg.handled, hg.quiet, hg.silent, fun v hv => ?_, fun hr => ?_, hg.greeted⟩
    · -- the worker that returns has nothing to announce
      have hv : (s.workers v).announcing = true := hv
      have hvw : v ≠ w := fun hvw => by rw [hvw, hp] at hv; cases hv
      show v ∈ Function.update s.threads.live k _ .polling
      by_cases hk : Kind.polling = k
      · subst hk
        rw [Function.update_self]
        exact (List.mem_erase_of_ne hvw).mpr (hg.busy v hv)
      · rw [Function.update_of_ne hk]
        exact hg.busy v hv
    · obtain ⟨hlog, hcalls, hworkers, hstore⟩ := hg.fresh hr
      exact ⟨hlog, hcalls, hworkers, hstore⟩

theorem greet_initial : Greet (initial false) := by
  refine ⟨fun t ht => absurd rfl ht, fun _ => rfl, fun t => ⟨nofun, nofun⟩,
    fun w hw => (by cases hw),
    fun _ => ⟨rfl, fun t => rfl, fun w hw => (by cases hw), fun h => (by cases h)⟩,
    fun h => (by cases h)⟩

theorem Greet.readyKept {s : State} (hg : Greet s) : ReadyKept s := by
  intro hr hcalls hworkers
  rcases hg.greeted hr with ⟨⟨w, hw⟩, -⟩ | ⟨-, first, rest, hseq, hfirst, hrest⟩
  · rw [hworkers w] at hw
    cases hw
  · refine ⟨first, rest, hseq, hfirst, fun e he hk => ?_⟩
    rw [hrest e he] at hk
    cases hk

/-- **Readiness from a fetch is announced.**  On a run without overlap, from a client whose store
    is not ready, exactly one Ready reaches the queue, before any Update. -/
theorem ready_kept {c : Setting} (hreg : c.registered .ready = true) {as : List Act} {s : State}
    (hrun : Machine.run (step c) (initial false) as = some s)
    (hmeets : Machine.Meets (step c) NoOverlap (initial false) as) : ReadyKept s := by
  have h : Inv s.threads s.calls ∧ Greet s := by
    refine Machine.run_inv_meets (I := fun s => Inv s.threads s.calls ∧ Greet s) ?_
      ⟨inv_initial false, greet_initial⟩ hmeets hrun
    intro s a s' ⟨hinv, hg⟩ ha h
    have hchange := step_change h
    exact ⟨inv_step hinv ha hchange, greet_step hreg hg hinv ha hchange⟩
  exact h.2.readyKept

end Lifecycle

end Unleash
