/-
  THE MUTEXES OF THE CLIENT.

  Three mutexes stand between the threads of a client:

      MetricsStore::_mtx             record of an evaluation, empty, toJsonMetricsPayload, reset
      UnleashClient::_mutexPolling   copies of the context, wait_for, updateContext
      EventHandler::_queueMutex      push of an emit call, the swap in stop(), the event thread

  and in no section is another one taken (`_mutexMetrics` is the metrics thread's alone).

  In `ClientEvents` a critical section is one step.  Here a thread takes the mutex first, then goes
  through the section statement by statement (`Inside`), and gives the mutex back with the last of
  them; whoever needs the mutex in the meantime has to wait.  Everything else is the step of
  `ClientEvents` that it was, so what the client does here it does there, too (`simulates_base`).
  A thread in a section stands at the step of `ClientEvents` that the section is there for, until
  it takes it (`Inv`).

  The event thread takes the queue's mutex in its own way (`LoopPc.holds`).  The metrics thread goes
  through its sections of the store in any order; what it reports is the subject of other modules.
  The flags are read and replaced, and the callbacks are loaded, without a mutex.
-/
import UnleashSdk.ClientEvents

set_option linter.unusedVariables false

namespace Unleash

namespace ClientMutexes

open ClientMachine (Query metricOf)

variable {σ C : Type}

/-! ## The critical sections -/

inductive Mutex where
  | metrics
  | polling
  | queue
  deriving DecidableEq

/-- Where a thread is that has the mutex: before this statement. -/
inductive Inside : Mutex → Type where
  -- `addEnableMetric` and `addVariantMetric` of evaluation `t`
  | add (t : Nat) : Inside .metrics
  -- `empty`
  | readEmpty : Inside .metrics
  -- `toJsonMetricsPayload`, up to the encoder
  | testEmpty : Inside .metrics
  | copyList : Inside .metrics
  | copyStart : Inside .metrics
  | readStop : Inside .metrics
  -- `reset`
  | clearList (nowMs : Int64) : Inside .metrics
  | setStart (nowMs : Int64) : Inside .metrics
  -- `isEnabled` and `getVariant`, for the impression of evaluation `t`
  | copyContext (t : Nat) : Inside .polling
  -- `featurePollingLoop`, before the first fetch and between two fetches
  | copy : Inside .polling
  | predicate (timedOut : Bool) : Inside .polling
  | testExit : Inside .polling
  | clearUpdated : Inside .polling
  | copyAwake : Inside .polling
  -- `updateContext`
  | update (mutableContext : MutableContext) : Inside .polling
  | setUpdated : Inside .polling
  -- emit call `k`
  | push (k : Nat) : Inside .queue
  -- `stop()` of the event handler
  | swap : Inside .queue

/-- The first statement of a section. -/
def Inside.first : {m : Mutex} → Inside m → Bool
  | _, .copyList | _, .copyStart | _, .readStop | _, .setStart _ => false
  | _, .testExit | _, .clearUpdated | _, .copyAwake | _, .setUpdated => false
  | _, _ => true

/-- The step of the client that the section is there for. -/
def Inside.goal : {m : Mutex} → Inside m → Option (ClientEvents.Act C)
  | _, .add t | _, .copyContext t => some (.client (.call t))
  | _, .copy | _, .predicate _ | _, .testExit | _, .clearUpdated | _, .copyAwake =>
    some (.client .poll)
  | _, .update mutableContext => some (.client (.updateContext mutableContext))
  | _, .push k => some (.events (.push k))
  | _, .swap => some (.events .control)
  | _, _ => none

/-- The step of the client that the statement is. -/
def Inside.act : {m : Mutex} → Inside m → Option (ClientEvents.Act C)
  | _, .predicate _ | _, .testExit | _, .clearUpdated => none
  | _, p => p.goal

theorem Inside.goal_of_act {m : Mutex} {p : Inside m} {a : ClientEvents.Act C}
    (h : p.act = some a) : p.goal = some a := by
  cases p with
  | predicate _ | testExit | clearUpdated => cases h
  | _ => exact h

/-- The mutex under which a step of the client is taken. -/
def mutexOf (b : ClientEvents.State σ C) : ClientEvents.Act C → Option Mutex
  | .client (.call t) =>
    match b.client.calls t with
    | .record _ _ _ => some .metrics
    | .copyContext _ _ _ _ => some .polling
    | _ => none
  | .client .poll =>
    match b.client.polling with
    | .copy | .wait => some .polling
    | _ => none
  | .client (.updateContext _) => some .polling
  | .events (.push _) => some .queue
  | .events .control =>
    match b.events.control with
    | .swap => some .queue
    | _ => none
  | _ => none

/-- The event thread takes the queue's mutex in this step. -/
def takesQueue (b : ClientEvents.State σ C) : ClientEvents.Act C → Bool
  | .events .loop =>
    match b.events.loop with
    | .lock | .woken | .relock => true
    | _ => false
  | _ => false

/-- The thread stands before the section, or is in it: it does nothing else meanwhile. -/
def Inside.stands (b : ClientEvents.State σ C) : {m : Mutex} → Inside m → Bool
  | _, .add t =>
    match b.client.calls t with
    | .record _ _ _ => true
    | _ => false
  | _, .copyContext t =>
    match b.client.calls t with
    | .copyContext _ _ _ _ => true
    | _ => false
  | _, .copy =>
    match b.client.polling with
    | .copy => b.owed.isEmpty
    | _ => false
  | _, .predicate _ | _, .testExit | _, .clearUpdated | _, .copyAwake =>
    match b.client.polling with
    | .wait => b.owed.isEmpty
    | _ => false
  | _, .push k =>
    match b.events.calls k with
    | .push _ => true
    | _ => false
  | _, .swap =>
    match b.events.control with
    | .swap => true
    | _ => false
  | _, _ => true

theorem stands_add {b : ClientEvents.State σ C} {t : Nat} : (Inside.add t).stands b = true ↔
    ∃ toggleSet enabled variant, b.client.calls t = .record toggleSet enabled variant := by
  cases h : b.client.calls t <;> simp [Inside.stands, h]

theorem stands_copyContext {b : ClientEvents.State σ C} {t : Nat} :
    (Inside.copyContext t).stands b = true ↔ ∃ toggleSet enabled variant impression,
      b.client.calls t = .copyContext toggleSet enabled variant impression := by
  cases h : b.client.calls t <;> simp [Inside.stands, h]

theorem stands_copy {b : ClientEvents.State σ C} :
    Inside.copy.stands b = true ↔ b.client.polling = .copy ∧ b.owed = [] := by
  cases h : b.client.polling <;> simp [Inside.stands, h]

/-- The same for every statement of that section. -/
theorem stands_copyAwake {b : ClientEvents.State σ C} :
    Inside.copyAwake.stands b = true ↔ b.client.polling = .wait ∧ b.owed = [] := by
  cases h : b.client.polling <;> simp [Inside.stands, h]

theorem stands_push {b : ClientEvents.State σ C} {k : Nat} :
    (Inside.push k).stands b = true ↔ ∃ cb, b.events.calls k = .push cb := by
  cases h : b.events.calls k <;> simp [Inside.stands, h]

theorem stands_swap {b : ClientEvents.State σ C} :
    Inside.swap.stands b = true ↔ b.events.control = .swap := by
  cases h : b.events.control <;> simp [Inside.stands, h]

/-! ## The machine -/

structure State (σ C : Type) where
  base : ClientEvents.State σ C
  store : MetricsStore
  contextUpdated : Bool := false
  held : (m : Mutex) → Option (Inside m) := fun _ => none

inductive Act (C : Type) where
  | base (a : ClientEvents.Act C)
  | acquire (m : Mutex) (p : Inside m)
  -- the next statement of the thread that has the mutex
  | inside (m : Mutex)

def State.goInside (s : State σ C) (m : Mutex) (p : Option (Inside m)) : State σ C :=
  { s with held := Function.update s.held m p }

@[simp] theorem State.goInside_base (s : State σ C) (m : Mutex) (p : Option (Inside m)) :
    (s.goInside m p).base = s.base := rfl

@[simp] theorem State.goInside_self (s : State σ C) (m : Mutex) (p : Option (Inside m)) :
    (s.goInside m p).held m = p := by
  simp only [State.goInside, Function.update_self]

theorem State.goInside_of_ne (s : State σ C) {m m' : Mutex} (h : m' ≠ m) (p : Option (Inside m)) :
    (s.goInside m p).held m' = s.held m' := by
  simp only [State.goInside, Function.update_of_ne h]

/-- What the statement writes besides. -/
def Inside.write (query : Nat → Query) (s : State σ C) : {m : Mutex} → Inside m → State σ C
  | _, .add t =>
    match s.base.client.calls t with
    | .record _ enabled variant =>
      { s with store := s.store.add (metricOf (query t) enabled variant) }
    | _ => s
  | _, .clearList _ => { s with store := { s.store with list := {} } }
  | _, .setStart nowMs => { s with store := { s.store with startMs := nowMs } }
  | _, .clearUpdated => { s with contextUpdated := false }
  | _, .setUpdated => { s with contextUpdated := true }
  | _, _ => s

/-- The statement after it; `none` where the section ends. -/
def Inside.next (s : State σ C) : {m : Mutex} → Inside m → Option (Inside m)
  | _, .testEmpty => if s.store.empty then none else some .copyList
  | _, .copyList => some .copyStart
  | _, .copyStart => some .readStop
  | _, .clearList nowMs => some (.setStart nowMs)
  | _, .predicate timedOut =>
    -- `wait_for` blocks with the mutex released, and evaluates its predicate again when woken
    if s.base.client.exitThreads || s.contextUpdated || timedOut then some .testExit else none
  | _, .testExit => some (if s.base.client.exitThreads then .copyAwake else .clearUpdated)
  | _, .clearUpdated => some .copyAwake
  | _, .update _ => some .setUpdated
  | _, _ => none

/-- Nobody has the mutex. -/
def free (s : State σ C) (m : Mutex) : Bool :=
  (s.held m).isNone &&
    match m with
    | .queue => !s.base.events.loop.holds
    | _ => true

def step (J : JsonLib) (P : StorageProvider σ) (config : ClientConfig) (query : Nat → Query)
    (event : Nat → ClientEvent) (s : State σ C) : Act C → Option (State σ C)
  | .base a =>
    if (mutexOf s.base a).isSome || takesQueue s.base a && (s.held .queue).isSome then none
    else
      (ClientEvents.step J P config query event s.base a).map fun b => { s with base := b }
  | .acquire m p =>
    if free s m && p.first && p.stands s.base then some (s.goInside m (some p)) else none
  | .inside m =>
    match s.held m with
    | none => none
    | some p =>
      match p.act with
      | none => some ((p.write query s).goInside m (p.next s))
      | some a =>
        (ClientEvents.step J P config query event s.base a).map fun b =>
          { (p.write query s).goInside m (p.next s) with base := b }

/-- A client that has just been constructed, and its event handler. -/
def initial (client : UnleashClient σ) (ctx : Context) (store : MetricsStore) : State σ C :=
  { base := ClientEvents.initial client ctx, store := store }

/-- Everything a step can do. -/
inductive Change (J : JsonLib) (P : StorageProvider σ) (config : ClientConfig)
    (query : Nat → Query) (event : Nat → ClientEvent) (s : State σ C) :
    Act C → State σ C → Prop where
  | base (a : ClientEvents.Act C) (b : ClientEvents.State σ C) (hmutex : mutexOf s.base a = none)
    (hqueue : takesQueue s.base a = true → s.held .queue = none)
    (hb : ClientEvents.step J P config query event s.base a = some b) :
    Change J P config query event s (.base a) { s with base := b }
  | acquire (m : Mutex) (p : Inside m) (hfree : free s m = true) (hfirst : p.first = true)
    (hstands : p.stands s.base = true) :
    Change J P config query event s (.acquire m p) (s.goInside m (some p))
  | statement (m : Mutex) (p : Inside m) (hp : s.held m = some p)
    (hact : (p.act : Option (ClientEvents.Act C)) = none) :
    Change J P config query event s (.inside m) ((p.write query s).goInside m (p.next s))
  | act (m : Mutex) (p : Inside m) (a : ClientEvents.Act C) (b : ClientEvents.State σ C)
    (hp : s.held m = some p) (hact : p.act = some a)
    (hb : ClientEvents.step J P config query event s.base a = some b) :
    Change J P config query event s (.inside m)
      { (p.write query s).goInside m (p.next s) with base := b }

theorem step_change {J : JsonLib} {P : StorageProvider σ} {config : ClientConfig}
    {query : Nat → Query} {event : Nat → ClientEvent} {s s' : State σ C} {a : Act C}
    (h : step J P config query event s a = some s') : Change J P config query event s a s' := by
  cases a with
  | base a =>
    simp only [step] at h
    split at h
    · cases h
    · rename_i hguard
      obtain ⟨b, hb, rfl⟩ := Option.map_eq_some_iff.mp h
      simp only [Bool.or_eq_true, Bool.and_eq_true, not_or, not_and, Option.not_isSome_iff_eq_none]
        at hguard
      exact .base a b hguard.1 hguard.2 hb
  | acquire m p =>
    simp only [step] at h
    split at h <;> cases h
    rename_i hguard
    simp only [Bool.and_eq_true] at hguard
    exact .acquire m p hguard.1.1 hguard.1.2 hguard.2
  | inside m =>
    simp only [step] at h
    split at h
    · cases h
    · rename_i p hp
      split at h
      · rename_i hact
        cases h
        exact .statement m p hp hact
      · rename_i a hact
        obtain ⟨b, hb, rfl⟩ := Option.map_eq_some_iff.mp h
        exact .act m p a b hp hact hb

@[simp] theorem Inside.write_base (query : Nat → Query) (s : State σ C) {m : Mutex}
    (p : Inside m) : (p.write query s).base = s.base := by
  cases p with
  | add t =>
    simp only [Inside.write]
    split <;> rfl
  | _ => rfl

@[simp] theorem Inside.write_held (query : Nat → Query) (s : State σ C) {m : Mutex}
    (p : Inside m) : (p.write query s).held = s.held := by
  cases p with
  | add t =>
    simp only [Inside.write]
    split <;> rfl
  | _ => rfl

/-! ## What the client does -/

/-- The step of `ClientEvents` that a step is, if it is one. -/
def baseActs (s : State σ C) : Act C → List (ClientEvents.Act C)
  | .base a => [a]
  | .acquire _ _ => []
  | .inside m => ((s.held m).bind Inside.act).toList

/-- **What the client does with its mutexes it does without them.** -/
theorem simulates_base (J : JsonLib) (P : StorageProvider σ) (config : ClientConfig)
    (query : Nat → Query) (event : Nat → ClientEvent) :
    Machine.Simulates (step (C := C) J P config query event)
      (ClientEvents.step J P config query event) baseActs fun s b => s.base = b := by
  rintro s b a s' rfl hstep
  cases step_change hstep with
  | base a b hmutex hqueue hb => exact ⟨b, (Machine.run_cons_of_step hb []).trans rfl, rfl⟩
  | acquire m p hfree hfirst hstands => exact ⟨s.base, rfl, rfl⟩
  | statement m p hp hact =>
    refine ⟨s.base, ?_, by simp⟩
    simp only [baseActs, hp, Option.bind_some, hact, Option.toList_none, Machine.run_nil]
  | act m p a b hp hact hb =>
    refine ⟨b, ?_, rfl⟩
    simp only [baseActs, hp, Option.bind_some, hact, Option.toList_some]
    exact (Machine.run_cons_of_step hb []).trans rfl

/-! ## The threads inside stay where they are -/

/-- A step that a section is there for is taken under its mutex. -/
theorem mutexOf_goal {b : ClientEvents.State σ C} {m : Mutex} {p : Inside m}
    (hp : p.stands b = true) {a : ClientEvents.Act C} (ha : p.goal = some a) :
    mutexOf b a = some m := by
  cases p with
  | add t =>
    cases ha
    obtain ⟨toggleSet, enabled, variant, hat⟩ := stands_add.mp hp
    simp only [mutexOf, hat]
  | copyContext t =>
    cases ha
    obtain ⟨toggleSet, enabled, variant, impression, hat⟩ := stands_copyContext.mp hp
    simp only [mutexOf, hat]
  | copy =>
    cases ha
    simp only [mutexOf, (stands_copy.mp hp).1]
  | predicate _ | testExit | clearUpdated | copyAwake =>
    cases ha
    simp only [mutexOf, (stands_copyAwake.mp hp).1]
  | update _ | push _ =>
    cases ha
    rfl
  | swap =>
    cases ha
    simp only [mutexOf, stands_swap.mp hp]
  | _ => cases ha

/-- Only the polling thread itself moves it on from where it copies the context. -/
theorem polling_frame {J : JsonLib} {P : StorageProvider σ} {config : ClientConfig}
    {query : Nat → Query} {event : Nat → ClientEvent} {b b' : ClientEvents.State σ C}
    {a : ClientEvents.Act C} (h : ClientEvents.step J P config query event b a = some b')
    (ha : a ≠ .client .poll) (howed : b.owed = [])
    (hp : b.client.polling = .copy ∨ b.client.polling = .wait) :
    b'.client.polling = b.client.polling ∧ b'.owed = [] := by
  cases ClientEvents.step_change h with
  | client a c hfree hc =>
    have howes : ClientEvents.owes b.client a = [] := by
      cases a with
      | poll => exact absurd rfl ha
      | _ => rfl
    refine ⟨?_, by rw [howed, howes, List.append_nil]⟩
    show c.polling = b.client.polling
    cases ClientMachine.step_change hc with
    | control _ hcontrol =>
      generalize b.client.control = k at hcontrol
      cases ClientMachine.controlStep_change hcontrol with
      | spawn hat | join hat => rcases hp with hp | hp <;> cases hp.symm.trans hat
      | _ => rfl
    | poll _ hpoll => exact absurd rfl ha
    | printerThrew resp ctx hat | replied resp ctx result fetcher hat =>
      rcases hp with hp | hp <;> cases hp.symm.trans hat
    | call t _ hcall => exact (ClientMachine.callChange_frame hcall).polling
    | _ => rfl
  | events a e hmay he => exact ⟨rfl, howed⟩
  | emitted e rest hne hreturned => cases howed.symm.trans hne

/-- Only emit call `k` itself moves it on from its push. -/
theorem push_frame {event : Nat → ClientEvent} {e e' : EventHandler.State C}
    {a : EventHandler.Act C} (h : EventHandler.step event e a = some e') {k : Nat} {cb : C}
    (hk : e.calls k = .push cb) (ha : a ≠ .push k) : e'.calls k = .push cb := by
  rcases EventHandler.change_moves (EventHandler.step_change h) with
    ⟨-, hcalls⟩ | ⟨t, q, hmoves, hcalls⟩
  · rw [hcalls, hk]
  · rw [hcalls]
    by_cases hkt : k = t
    · subst hkt
      rw [hk] at hmoves
      cases hmoves <;> exact absurd rfl ha
    · rw [Function.update_of_ne hkt, hk]

theorem swap_frame {event : Nat → ClientEvent} {e e' : EventHandler.State C}
    {a : EventHandler.Act C} (h : EventHandler.step event e a = some e')
    (hswap : e.control = .swap) (ha : a ≠ .control) : e'.control = .swap := by
  cases EventHandler.step_change h with
  | start hc hs | stop hc hs => cases hswap.symm.trans hc
  | createThread hc hp | swap hc hfree | notifyAll hc | notJoinable hc hp | join hc hp =>
    exact absurd rfl ha
  | _ => exact hswap

/-- **Frame lemma.**  A thread that stands before a section, or in it, stands there until it takes
    the step that the section is there for. -/
theorem stands_frame {J : JsonLib} {P : StorageProvider σ} {config : ClientConfig}
    {query : Nat → Query} {event : Nat → ClientEvent} {b b' : ClientEvents.State σ C}
    {a : ClientEvents.Act C} (h : ClientEvents.step J P config query event b a = some b')
    {m : Mutex} {p : Inside m} (hp : p.stands b = true) (ha : p.goal ≠ some a) :
    p.stands b' = true := by
  have hcall : ∀ t, a ≠ .client (.call t) → b'.client.calls t = b.client.calls t := by
    intro t hne
    cases ClientEvents.step_change h with
    | client a c hfree hc =>
      exact (ClientMachine.change_other (ClientMachine.step_change hc)
        fun heq => hne (by rw [heq])).1
    | _ => rfl
  -- the handler takes a step of its own, or none
  have hevents : b'.events = b.events ∨
      ∃ a', a = .events a' ∧ EventHandler.step event b.events a' = some b'.events := by
    cases ClientEvents.step_change h with
    | events a' e hmay he => exact Or.inr ⟨a', rfl, he⟩
    | _ => exact Or.inl rfl
  cases p with
  | add t =>
    rw [stands_add, hcall t fun heq => ha (by rw [heq]; rfl)]
    exact stands_add.mp hp
  | copyContext t =>
    rw [stands_copyContext, hcall t fun heq => ha (by rw [heq]; rfl)]
    exact stands_copyContext.mp hp
  | copy =>
    obtain ⟨hat, howed⟩ := stands_copy.mp hp
    obtain ⟨hpolling, hnil⟩ := polling_frame h (fun heq => ha (by rw [heq]; rfl)) howed (Or.inl hat)
    exact stands_copy.mpr ⟨hpolling.trans hat, hnil⟩
  | predicate _ | testExit | clearUpdated | copyAwake =>
    obtain ⟨hat, howed⟩ := stands_copyAwake.mp hp
    obtain ⟨hpolling, hnil⟩ := polling_frame h (fun heq => ha (by rw [heq]; rfl)) howed (Or.inr hat)
    exact stands_copyAwake.mpr ⟨hpolling.trans hat, hnil⟩
  | push k =>
    obtain ⟨cb, hat⟩ := stands_push.mp hp
    rcases hevents with hsame | ⟨a', rfl, he⟩
    · rw [stands_push, hsame]
      exact ⟨cb, hat⟩
    · exact stands_push.mpr ⟨cb, push_frame he hat fun heq => ha (by rw [heq]; rfl)⟩
  | swap =>
    have hat := stands_swap.mp hp
    rcases hevents with hsame | ⟨a', rfl, he⟩
    · rw [stands_swap, hsame]
      exact hat
    · exact stands_swap.mpr (swap_frame he hat fun heq => ha (by rw [heq]; rfl))
  | _ => rfl

/-- Where a section goes on without a step of the client, its thread stands where it stood. -/
theorem next_stands {s : State σ C} {m : Mutex} {p q : Inside m} (hp : p.stands s.base = true)
    (hq : p.next s = some q) : q.stands s.base = true := by
  cases p with
  | predicate timedOut =>
    simp only [Inside.next] at hq
    split at hq <;> cases hq
    exact hp
  | testExit =>
    simp only [Inside.next] at hq
    split at hq <;> cases hq <;> exact hp
  | clearUpdated =>
    cases hq
    exact hp
  | testEmpty =>
    simp only [Inside.next] at hq
    split at hq <;> cases hq
    rfl
  | copyList | copyStart | clearList nowMs | update mutableContext =>
    cases hq
    rfl
  | _ => cases hq

/-- The step of the client is the last statement of its section, or nobody has to stand for what
    is left. -/
theorem next_of_act {s : State σ C} {m : Mutex} {p q : Inside m} {a : ClientEvents.Act C}
    (ha : p.act = some a) (hq : p.next s = some q) (b : ClientEvents.State σ C) :
    q.stands b = true := by
  cases p with
  | update mutableContext =>
    cases hq
    rfl
  | predicate _ | testExit | clearUpdated => cases ha
  | testEmpty | copyList | copyStart | clearList _ => cases ha
  | _ => cases hq

/-- Whoever has a mutex stands in its section, and has the queue's mutex alone. -/
structure Inv (s : State σ C) : Prop where
  stands : ∀ m (p : Inside m), s.held m = some p → p.stands s.base = true
  queue : ∀ p, s.held .queue = some p → s.base.events.loop.holds = false

theorem inv_initial (client : UnleashClient σ) (ctx : Context) (store : MetricsStore) :
    Inv (initial client ctx store : State σ C) where
  stands m p hp := by cases hp
  queue p hp := by cases hp

/-- The event thread has the queue's mutex after a step only if it had it or takes it. -/
theorem holds_step {J : JsonLib} {P : StorageProvider σ} {config : ClientConfig}
    {query : Nat → Query} {event : Nat → ClientEvent} {b b' : ClientEvents.State σ C}
    {a : ClientEvents.Act C} (h : ClientEvents.step J P config query event b a = some b')
    (hfree : b.events.loop.holds = false) (ha : takesQueue b a = false) :
    b'.events.loop.holds = false := by
  cases ClientEvents.step_change h with
  | events a e hmay he =>
    show e.loop.holds = false
    cases EventHandler.step_change he with
    | moved q hq =>
      simp only [takesQueue] at ha
      generalize b.events.loop = p at hq hfree ha
      cases hq with
      | lock | reacquire | relock => simp at ha
      | sleep _ _ | proceed _ | block => cases hfree
      | _ => rfl
    | pop task rest hp hq => rfl
    | invoke task hp => rfl
    | wake hp => rfl
    | callbackEnds threw task hp => rfl
    | notified t outcome ht | notifyAll hc =>
      show b.events.loop.notified.holds = false
      generalize b.events.loop = p at hfree
      cases p with
      | predicate | block | testEmpty => cases hfree
      | _ => rfl
    | createThread hc hp => rfl
    | join hc hp => rfl
    | _ => exact hfree
  | _ => exact hfree

/-- The rest of a section, and what the other threads have. -/
theorem held_inside {s : State σ C} {m m' : Mutex} {p : Inside m} {next : Option (Inside m)}
    {q : Inside m'} (query : Nat → Query)
    (hq : ((p.write query s).goInside m next).held m' = some q) (hm : m' ≠ m) :
    s.held m' = some q := by
  rw [State.goInside_of_ne _ hm, Inside.write_held] at hq
  exact hq

theorem Inv.queue_inside {s : State σ C} (h : Inv s) {m : Mutex} {p : Inside m}
    (hp : s.held m = some p) {next : Option (Inside m)} {q : Inside .queue} (query : Nat → Query)
    (hq : ((p.write query s).goInside m next).held .queue = some q) :
    s.base.events.loop.holds = false := by
  by_cases hm : Mutex.queue = m
  · subst hm
    exact h.queue p hp
  · exact h.queue q (held_inside query hq hm)

/-- **Step lemma.** -/
theorem inv_change {J : JsonLib} {P : StorageProvider σ} {config : ClientConfig}
    {query : Nat → Query} {event : Nat → ClientEvent} {s s' : State σ C} {a : Act C}
    (h : Inv s) (hc : Change J P config query event s a s') : Inv s' := by
  cases hc with
  | base a b hmutex hqueue hb =>
    refine ⟨fun m p hp => ?_, fun p hp => ?_⟩
    · have hstands := h.stands m p hp
      refine stands_frame hb hstands fun hgoal => ?_
      rw [mutexOf_goal hstands hgoal] at hmutex
      cases hmutex
    · refine holds_step hb (h.queue p hp) (Bool.eq_false_iff.mpr fun htakes => ?_)
      cases (hqueue htakes).symm.trans hp
  | acquire m p hfree hfirst hstands =>
    refine ⟨fun m' q hq => ?_, fun q hq => ?_⟩
    · by_cases hm : m' = m
      · subst hm
        rw [State.goInside_self] at hq
        cases hq
        exact hstands
      · rw [State.goInside_of_ne s hm] at hq
        exact h.stands m' q hq
    · by_cases hm : Mutex.queue = m
      · subst hm
        simpa [free] using (Bool.and_eq_true_iff.mp hfree).2
      · rw [State.goInside_of_ne s hm] at hq
        exact h.queue q hq
  | statement m p hp hact =>
    refine ⟨fun m' q hq => ?_, fun q hq => ?_⟩
    · rw [State.goInside_base, Inside.write_base]
      by_cases hm : m' = m
      · subst hm
        rw [State.goInside_self] at hq
        exact next_stands (h.stands m' p hp) hq
      · exact h.stands m' q (held_inside query hq hm)
    · rw [State.goInside_base, Inside.write_base]
      exact h.queue_inside hp query hq
  | act m p a b hp hact hb =>
    have hmutex := mutexOf_goal (h.stands m p hp) (Inside.goal_of_act hact)
    refine ⟨fun m' q hq => ?_, fun q hq => ?_⟩
    · by_cases hm : m' = m
      · subst hm
        have hq : p.next s = some q := (State.goInside_self _ _ _).symm.trans hq
        exact next_of_act hact hq b
      · have hother := h.stands m' q (held_inside query hq hm)
        refine stands_frame hb hother fun hgoal => hm ?_
        exact Option.some.inj ((mutexOf_goal hother hgoal).symm.trans hmutex)
    · refine holds_step hb (h.queue_inside hp query hq) (Bool.eq_false_iff.mpr fun htakes => ?_)
      -- the step that takes the queue's mutex is the event thread's, and is in no section
      cases p <;> cases hact <;> cases htakes

/-- **Run lemma.** -/
theorem inv_run {J : JsonLib} {P : StorageProvider σ} {config : ClientConfig}
    {query : Nat → Query} {event : Nat → ClientEvent} {client : UnleashClient σ} {ctx : Context}
    {store : MetricsStore} {as : List (Act C)} {s : State σ C}
    (hrun : Machine.run (step J P config query event) (initial client ctx store) as = some s) :
    Inv s :=
  Machine.run_inv (fun _ _ _ hu hv => inv_change hu (step_change hv))
    (inv_initial client ctx store) hrun

end ClientMutexes

end Unleash
