/-
  A LISTENER THAT READS THE FLAGS ON EVERY UPDATE.

  An application that shows flags, and does not want to ask for them all the time, registers an
  Update callback that reads them again.  May it rely on that?  Between the store and what it shows
  are the polling thread, its emit call, the queue and the event thread:

      storeSnapshot ─ storeReady ─ exchangeReady ═ emit Ready ═ emit Update ═▶ testExit
                                                                    │
                                          queue ◀───────────────────┘
                                            │
                                            ▼
                                          popped ─ running ─ read ─ callback ends

  Whatever runs in between, what it shows is what the client offers, or an Update is still on its
  way at one of these places (`Underway`, `Pending`), or one found the queue full (`Lost`).  The
  point is the order: the set is published BEFORE the emit call pushes, so a callback that is
  executed for it reads it or a later one.
-/
import UnleashSdk.ClientEvents

set_option linter.unusedVariables false

namespace Unleash

namespace UpdateListener

open ClientMachine (PollPc Query published)
open ClientEvents (owes pollingCall)

variable {σ C : Type}

/-! ## The machine -/

/-- The client with its handler, what the listener has read last, and whether it has read since the
    callback that runs now was executed. -/
structure State (σ C : Type) where
  inner : ClientEvents.State σ C
  shown : Option ToggleSet
  hasRead : Bool := false

inductive Act (C : Type) where
  | inner (a : ClientEvents.Act C)
  | read

/-- The event thread executes a task. -/
def invokes (e : EventHandler.State C) : ClientEvents.Act C → Bool
  | .events .loop =>
    match e.loop with
    | .popped _ => true
    | _ => false
  | _ => false

/-- An Update callback ends that has not read. -/
def endsUnread (s : State σ C) : ClientEvents.Act C → Bool
  | .events (.callbackEnds _) =>
    match s.inner.events.loop with
    | .running task => task.event = .update && !s.hasRead
    | _ => false
  | _ => false

/-- An Update callback reads the flags, any number of times and at least once. -/
def step (J : JsonLib) (P : StorageProvider σ) (config : ClientConfig) (query : Nat → Query)
    (event : Nat → ClientEvent) (s : State σ C) : Act C → Option (State σ C)
  | .inner a =>
    if endsUnread s a then none
    else
      (ClientEvents.step J P config query event s.inner a).map fun t =>
        { s with inner := t, hasRead := s.hasRead && !invokes s.inner.events a }
  | .read =>
    match s.inner.events.loop with
    | .running task =>
      if task.event = .update then
        some { s with shown := published s.inner.client.client, hasRead := true }
      else none
    | _ => none

/-! ## Where an Update may be -/

/-- The polling thread is publishing. -/
def publishing : PollPc → Bool
  | .storeReady | .exchangeReady => true
  | _ => false

/-- The polling thread has an Update to emit, or is emitting it. -/
def Underway (s : State σ C) : Prop :=
  publishing s.inner.client.polling = true ∨ .update ∈ s.inner.owed

/-- An Update is in the queue, in flight, or executed by a callback that has not read yet. -/
def Pending (s : State σ C) : Prop :=
  ∃ task : EventHandler.EventTask C, task.event = .update ∧
    (task ∈ s.inner.events.queue ∨ s.inner.events.loop = .popped task ∨
      s.inner.events.loop = .running task ∧ s.hasRead = false)

/-- An Update of the polling thread found the queue full. -/
def Lost (J : JsonLib) (P : StorageProvider σ) (config : ClientConfig) (query : Nat → Query)
    (event : Nat → ClientEvent) (s₀ : State σ C) (as : List (Act C)) : Prop :=
  ∃ n, event (pollingCall n) = .update ∧
    Machine.Took (step J P config query event) s₀ as (.inner (.events (.push (pollingCall n))))
      fun u => ¬ u.inner.events.queue.length < maxEventQueueSize

/-- A client that is running, between two steps of a fetch, with a handler that is started and has
    an Update callback; the listener has read the flags. -/
structure Begun (s : State σ C) : Prop where
  running : s.inner.client.running = true
  control : s.inner.client.control = .idle
  polling : publishing s.inner.client.polling = false
  owed : s.inner.owed = []
  calls : ∀ n, s.inner.emitted ≤ n → s.inner.events.calls (pollingCall n) = .new
  started : s.inner.events.started = true
  handler : s.inner.events.control = .createThread ∨ s.inner.events.control = .idle
  registered : s.inner.events.slots .update ≠ none
  shown : s.shown = published s.inner.client.client

/-- Nobody stops the client or its handler, or removes the callback. -/
def Act.keeps : Act C → Bool
  | .inner (.client .stop) | .inner (.events .stop) => false
  | .inner (.events (.register .update none)) => false
  | _ => true

/-! ## The invariant -/

/-- The emit call has not come to its push. -/
def unpushed : EventHandler.CallPc C → Bool
  | .new | .load | .push _ => true
  | _ => false

/-- `Underway`, with the emit call of the Update before its push. -/
def Owing (s : ClientEvents.State σ C) : Prop :=
  publishing s.client.polling = true ∨
    (∃ rest, s.owed = .update :: rest ∧
      unpushed (s.events.calls (pollingCall s.emitted)) = true) ∨
    ∃ e rest, s.owed = e :: rest ∧ .update ∈ rest

/-- What does not change: the client runs, and its handler is started. -/
structure Runs (event : Nat → ClientEvent) (s : ClientEvents.State σ C) : Prop
    extends ClientEvents.Emits event s where
  running : s.client.running = true
  control : s.client.control = .idle
  started : s.events.started = true
  handler : s.events.control = .createThread ∨ s.events.control = .idle
  registered : s.events.slots .update ≠ none

theorem Begun.runs {event : Nat → ClientEvent} {s : State σ C} (h : Begun s) :
    Runs event s.inner where
  fresh n hn _ := h.calls n hn
  head e rest howed := by
    rw [h.owed] at howed
    cases howed
  running := h.running
  control := h.control
  started := h.started
  handler := h.handler
  registered := h.registered

/-! ## The steps of the client -/

/-- A client that runs keeps running, unless it is stopped. -/
theorem client_runs {J : JsonLib} {P : StorageProvider σ} {config : ClientConfig}
    {query : Nat → Query} {c c' : ClientMachine.State σ} {a : ClientMachine.Act}
    (hrunning : c.running = true) (hcontrol : c.control = .idle) (ha : a ≠ .stop)
    (h : ClientMachine.step J P config query c a = some c') :
    c'.running = true ∧ c'.control = .idle := by
  cases ClientMachine.step_change h with
  | start hc hr =>
    rw [hrunning] at hr
    cases hr
  | stop hc hr => exact absurd rfl ha
  | control c' h =>
    rw [hcontrol] at h
    cases h
  | poll c' h =>
    generalize c.polling = p at h
    cases ClientMachine.pollStep_change h with
    | handle result =>
      refine ClientMachine.handleResult_cases c result ?_ ?_ ?_ ?_ <;> intros <;>
        exact ⟨hrunning, hcontrol⟩
    | _ => exact ⟨hrunning, hcontrol⟩
  | call t c' h =>
    have hframe := ClientMachine.callChange_frame h
    exact ⟨hframe.running.trans hrunning, hframe.control.trans hcontrol⟩
  | _ => exact ⟨hrunning, hcontrol⟩

/-- The steps of the other threads publish nothing. -/
theorem client_others {J : JsonLib} {P : StorageProvider σ} {config : ClientConfig}
    {query : Nat → Query} {c c' : ClientMachine.State σ} {a : ClientMachine.Act}
    (hcontrol : c.control = .idle) (hpoll : a ≠ .poll) (hreply : ∀ resp, a ≠ .reply resp)
    (h : ClientMachine.step J P config query c a = some c') :
    c'.client = c.client ∧ c'.polling = c.polling ∧ owes c a = [] := by
  cases ClientMachine.step_change h with
  | control c' h =>
    rw [hcontrol] at h
    cases h
  | poll c' h => exact absurd rfl hpoll
  | printerThrew resp ctx hp h => exact absurd rfl (hreply resp)
  | replied resp ctx result fetcher hp h => exact absurd rfl (hreply resp)
  | call t c' h =>
    have hframe := ClientMachine.callChange_frame h
    exact ⟨hframe.client, hframe.polling, rfl⟩
  | _ => exact ⟨rfl, rfl, rfl⟩

/-- What the polling thread does at a step. -/
structure Publishes (c c' : ClientMachine.State σ) (owed : List ClientEvent) : Prop where
  -- a set is published only where an Update is on its way
  changes : published c'.client = published c.client ∨ publishing c'.polling = true ∨
    .update ∈ owed
  continues : publishing c.polling = true → publishing c'.polling = true ∨ .update ∈ owed

/-- A step away from a place where it does not publish, that leaves the flags alone. -/
theorem Publishes.quiet {c c' : ClientMachine.State σ} {owed : List ClientEvent}
    (hflags : published c'.client = published c.client) (hp : publishing c.polling = false) :
    Publishes c c' owed where
  changes := Or.inl hflags
  continues h := by
    rw [hp] at h
    cases h

theorem client_polls {J : JsonLib} {P : StorageProvider σ} {config : ClientConfig}
    {query : Nat → Query} {c c' : ClientMachine.State σ} {a : ClientMachine.Act}
    (ha : a = .poll ∨ ∃ resp, a = .reply resp)
    (h : ClientMachine.step J P config query c a = some c') : Publishes c c' (owes c a) := by
  rcases ha with rfl | ⟨resp, rfl⟩
  · cases ClientMachine.step_change h with
    | poll c' h =>
      generalize hp : c.polling = p at h
      have howes : owes c .poll = ClientEvents.emitsAfter c.client.ready p := by rw [← hp]; rfl
      rw [howes]
      cases ClientMachine.pollStep_change h with
      | handle result =>
        refine .quiet ?_ (by rw [hp]; rfl)
        refine ClientMachine.handleResult_cases c result ?_ ?_ ?_ ?_ <;> intros <;> rfl
      | storeSnapshot toggles =>
        exact ⟨Or.inr (Or.inl rfl), fun _ => Or.inl rfl⟩
      | storeReady =>
        exact ⟨Or.inr (Or.inl rfl), fun _ => Or.inl rfl⟩
      | exchangeReady =>
        have hupdate : .update ∈ ClientEvents.emitsAfter c.client.ready .exchangeReady := by
          cases c.client.ready <;> simp [ClientEvents.emitsAfter]
        exact ⟨Or.inr (Or.inr hupdate), fun _ => Or.inr hupdate⟩
      | testEnabled | copy | notSaved toggles | saved toggles storage | testExit | wait
      | testExitAgain ctx => exact .quiet rfl (by rw [hp]; rfl)
  · cases ClientMachine.step_change h with
    | printerThrew resp ctx hp h => exact .quiet rfl (by rw [hp]; rfl)
    | replied resp ctx result fetcher hp h =>
      exact .quiet rfl (by rw [hp]; rfl)

/-! ## The steps of the handler -/

theorem handler_runs {event : Nat → ClientEvent} {e e' : EventHandler.State C}
    {a : EventHandler.Act C} (hstarted : e.started = true)
    (hcontrol : e.control = .createThread ∨ e.control = .idle)
    (hregistered : e.slots .update ≠ none) (hstop : a ≠ .stop) (hkeep : a ≠ .register .update none)
    (hc : EventHandler.Change event e a e') :
    e'.started = true ∧ (e'.control = .createThread ∨ e'.control = .idle) ∧
      e'.slots .update ≠ none := by
  have hnot : e.control ≠ .swap ∧ e.control ≠ .notifyAll ∧ e.control ≠ .join := by
    rcases hcontrol with h | h <;> rw [h] <;> decide
  cases hc with
  | register kind cb =>
    refine ⟨hstarted, hcontrol, ?_⟩
    show Function.update e.slots kind cb .update ≠ none
    by_cases hkind : EventKind.update = kind
    · subst hkind
      rw [Function.update_self]
      rintro rfl
      exact hkeep rfl
    · rw [Function.update_of_ne hkind]
      exact hregistered
  | start hc hs =>
    rw [hstarted] at hs
    cases hs
  | stop hc hs => exact absurd rfl hstop
  | createThread hc hp => exact ⟨hstarted, Or.inr rfl, hregistered⟩
  | swap hc hfree => exact absurd hc hnot.1
  | notifyAll hc => exact absurd hc hnot.2.1
  | notJoinable hc hp => exact absurd hc hnot.2.2
  | join hc hp => exact absurd hc hnot.2.2
  | _ => exact ⟨hstarted, hcontrol, hregistered⟩

/-- A task that is in the queue, in flight or executed stays so until its callback has read. -/
theorem pending_change {event : Nat → ClientEvent} {e e' : EventHandler.State C}
    {a : EventHandler.Act C} {task : EventHandler.EventTask C} {hasRead : Bool}
    (hcontrol : e.control = .createThread ∨ e.control = .idle) (hstop : a ≠ .stop)
    (hends : ∀ threw, a = .callbackEnds threw → e.loop = .running task → hasRead = true)
    (h : task ∈ e.queue ∨ e.loop = .popped task ∨ e.loop = .running task ∧ hasRead = false)
    (hc : EventHandler.Change event e a e') :
    task ∈ e'.queue ∨ e'.loop = .popped task ∨
      e'.loop = .running task ∧ (hasRead && !invokes e (.events a)) = false := by
  have hnot : e.control ≠ .swap ∧ e.control ≠ .notifyAll ∧ e.control ≠ .join := by
    rcases hcontrol with h | h <;> rw [h] <;> decide
  -- where the event thread is elsewhere, the task is in the queue
  have helsewhere : (∀ t, e.loop ≠ .popped t) → (∀ t, e.loop ≠ .running t) → task ∈ e.queue := by
    intro hpopped hrunning
    rcases h with h | h | h
    · exact h
    · exact absurd h (hpopped task)
    · exact absurd h.1 (hrunning task)
  have hsame : e'.queue = e.queue → e'.loop = e.loop → task ∈ e'.queue ∨ e'.loop = .popped task ∨
      e'.loop = .running task ∧ (hasRead && !invokes e (.events a)) = false := by
    intro hqueue hloop
    rw [hqueue, hloop]
    refine h.imp_right (Or.imp_right fun hrunning => ⟨hrunning.1, ?_⟩)
    rw [hrunning.2, Bool.false_and]
  cases hc with
  | accepted t cb ht hfree hroom =>
    refine h.imp (fun hmem => List.mem_append_left _ hmem) (Or.imp_right fun hrunning => ?_)
    exact ⟨hrunning.1, by rw [hrunning.2, Bool.false_and]⟩
  | notified t outcome ht =>
    show task ∈ e.queue ∨ e.loop.notified = .popped task ∨
      e.loop.notified = .running task ∧ (hasRead && _) = false
    rcases h with h | h | h
    · exact Or.inl h
    · rw [h]
      exact Or.inr (Or.inl rfl)
    · rw [h.1, h.2]
      exact Or.inr (Or.inr ⟨rfl, rfl⟩)
  | moved q hq =>
    refine Or.inl (helsewhere (fun t ht => ?_) fun t ht => ?_)
    · rw [ht] at hq
      cases hq
    · rw [ht] at hq
      cases hq
  | pop t rest hp hq =>
    have hmem : task ∈ e.queue :=
      helsewhere (fun t ht => by rw [hp] at ht; cases ht) fun t ht => by rw [hp] at ht; cases ht
    rw [hq] at hmem
    rcases List.mem_cons.mp hmem with rfl | hrest
    · exact Or.inr (Or.inl rfl)
    · exact Or.inl hrest
  | invoke t hp =>
    rcases h with h | h | h
    · exact Or.inl h
    · obtain rfl : t = task := EventHandler.LoopPc.popped.inj (hp.symm.trans h)
      refine Or.inr (Or.inr ⟨rfl, ?_⟩)
      simp [invokes, hp]
    · rw [hp] at h
      cases h.1
  | wake hp =>
    exact Or.inl (helsewhere (fun t ht => by rw [hp] at ht; cases ht) fun t ht => by
      rw [hp] at ht; cases ht)
  | callbackEnds threw t hp =>
    rcases h with h | h | ⟨h, hunread⟩
    · exact Or.inl h
    · rw [hp] at h
      cases h
    · rw [hends threw rfl h] at hunread
      cases hunread
  | createThread hc hp =>
    exact Or.inl (helsewhere (fun t ht => by rw [hp] at ht; cases ht) fun t ht => by
      rw [hp] at ht; cases ht)
  | stop hc hs => exact absurd rfl hstop
  | swap hc hfree => exact absurd hc hnot.1
  | notifyAll hc => exact absurd hc hnot.2.1
  | notJoinable hc hp => exact absurd hc hnot.2.2
  | join hc hp => exact absurd hc hnot.2.2
  | _ => exact hsame rfl rfl

/-- The emit call of an Update comes to its push, and finds room there or not. -/
theorem unpushed_change {event : Nat → ClientEvent} {e e' : EventHandler.State C}
    {a : EventHandler.Act C} {k : Nat} (hstarted : e.started = true)
    (hregistered : e.slots .update ≠ none)
    (hevent : e.calls k = .new ∨ event k = .update) (h : unpushed (e.calls k) = true)
    (hc : EventHandler.Change event e a e') :
    unpushed (e'.calls k) = true ∨ (event k = .update ∧ ∃ cb, ⟨k, cb, event k⟩ ∈ e'.queue) ∨
      (event k = .update ∧ a = .push k ∧ ¬ e.queue.length < maxEventQueueSize) := by
  have hgoto : ∀ (t : Nat) (q : EventHandler.CallPc C), (t = k → unpushed q = true) →
      unpushed (Function.update e.calls t q k) = true := by
    intro t q hq
    by_cases hk : k = t
    · rw [hk, Function.update_self]
      exact hq hk.symm
    · rw [Function.update_of_ne hk]
      exact h
  have hupdate : ∀ p, e.calls k = p → p ≠ .new → event k = .update := fun p hp hne =>
    hevent.resolve_left fun hnew => hne (hp.symm.trans hnew)
  cases hc with
  | entered t ht hs => exact Or.inl (hgoto t _ fun _ => rfl)
  | refused t ht hs =>
    rw [hstarted] at hs
    cases hs
  | loaded t cb ht hcb => exact Or.inl (hgoto t _ fun _ => rfl)
  | unregistered t ht hcb =>
    refine Or.inl (hgoto t _ fun htk => ?_)
    subst htk
    rw [hupdate _ ht (by simp)] at hcb
    exact absurd hcb hregistered
  | accepted t cb ht hfree hroom =>
    by_cases htk : t = k
    · subst htk
      exact Or.inr (Or.inl ⟨hupdate _ ht (by simp), cb,
        List.mem_append_right _ (List.mem_singleton.mpr rfl)⟩)
    · exact Or.inl (hgoto t _ fun h => absurd h htk)
  | discarded t cb ht hfree hfull =>
    by_cases htk : t = k
    · subst htk
      exact Or.inr (Or.inr ⟨hupdate _ ht (by simp), rfl, hfull⟩)
    · exact Or.inl (hgoto t _ fun h => absurd h htk)
  | notified t outcome ht =>
    refine Or.inl (hgoto t _ fun htk => ?_)
    subst htk
    rw [ht] at h
    cases h
  | _ => exact Or.inl h

/-! ## The steps of both -/

theorem keeps_client {a : ClientMachine.Act} (h : Act.keeps (.inner (.client a) : Act C) = true) :
    a ≠ .stop := by
  rintro rfl
  cases h

theorem keeps_events {a : EventHandler.Act C} (h : Act.keeps (.inner (.events a)) = true) :
    a ≠ .stop ∧ a ≠ .register .update none := by
  constructor
  · rintro rfl
    cases h
  · rintro rfl
    cases h

/-- A step of the client is one of the polling thread, which has nothing to emit, or another. -/
theorem polls_or_not (query : Nat → Query) {s : ClientEvents.State σ C} {a : ClientMachine.Act}
    (hfree : ClientEvents.waits query s a = false) :
    ((a = .poll ∨ ∃ resp, a = .reply resp) ∧ s.owed = []) ∨
      (a ≠ .poll ∧ ∀ resp, a ≠ .reply resp) := by
  cases a with
  | poll => exact Or.inl ⟨Or.inl rfl, by simpa [ClientEvents.waits] using hfree⟩
  | reply resp => exact Or.inl ⟨Or.inr ⟨resp, rfl⟩, by simpa [ClientEvents.waits] using hfree⟩
  | _ => exact Or.inr ⟨by simp, by simp⟩

/-- **Step lemma** for what does not change. -/
theorem runs_change {J : JsonLib} {P : StorageProvider σ} {config : ClientConfig}
    {query : Nat → Query} {event : Nat → ClientEvent} {s s' : ClientEvents.State σ C}
    {a : ClientEvents.Act C} (h : Runs event s) (ha : Act.keeps (.inner a) = true)
    (hc : ClientEvents.Change J P config query event s a s') : Runs event s' := by
  have hemits := ClientEvents.emits_change h.toEmits hc
  cases hc with
  | client a c hfree hc =>
    obtain ⟨hrunning, hcontrol⟩ := client_runs h.running h.control (keeps_client ha) hc
    exact ⟨hemits, hrunning, hcontrol, h.started, h.handler, h.registered⟩
  | events a e hmay he =>
    obtain ⟨hstop, hkeep⟩ := keeps_events ha
    obtain ⟨hstarted, hhandler, hregistered⟩ := handler_runs h.started h.handler h.registered hstop
      hkeep (EventHandler.step_change he)
    exact ⟨hemits, h.running, h.control, hstarted, hhandler, hregistered⟩
  | emitted e rest howed hreturned =>
    exact ⟨hemits, h.running, h.control, h.started, h.handler, h.registered⟩

/-- What is shown is current, or an Update is somewhere. -/
structure Inv (J : JsonLib) (P : StorageProvider σ) (config : ClientConfig) (query : Nat → Query)
    (event : Nat → ClientEvent) (s₀ : State σ C) (as : List (Act C)) (s : State σ C) : Prop where
  runs : Runs event s.inner
  current : s.shown = published s.inner.client.client ∨ Owing s.inner ∨ Pending s ∨
    Lost J P config query event s₀ as

theorem Lost.snoc {J : JsonLib} {P : StorageProvider σ} {config : ClientConfig}
    {query : Nat → Query} {event : Nat → ClientEvent} {s₀ : State σ C} {as : List (Act C)}
    (h : Lost J P config query event s₀ as) (a : Act C) :
    Lost J P config query event s₀ (as ++ [a]) := by
  obtain ⟨n, hn, htook⟩ := h
  exact ⟨n, hn, htook.snoc a⟩

/-- A step of the client: a set that is published is owed an Update. -/
theorem current_client {J : JsonLib} {P : StorageProvider σ} {config : ClientConfig}
    {query : Nat → Query} {event : Nat → ClientEvent} {s : ClientEvents.State σ C}
    {a : ClientMachine.Act} {c : ClientMachine.State σ} (h : Runs event s)
    (hfree : ClientEvents.waits query s a = false)
    (hc : ClientMachine.step J P config query s.client a = some c) :
    Owing { s with client := c, owed := s.owed ++ owes s.client a } ∨
      (published c.client = published s.client.client ∧ ¬ Owing s) := by
  rcases polls_or_not query hfree with ⟨hpolls, hnone⟩ | ⟨hpoll, hreply⟩
  · have hpublishes := client_polls hpolls hc
    have howing : publishing c.polling = true ∨ .update ∈ owes s.client a →
        Owing { s with client := c, owed := s.owed ++ owes s.client a } := by
      rintro (hpublishing | hupdate)
      · exact Or.inl hpublishing
      · refine Or.inr ?_
        show (∃ rest, s.owed ++ owes s.client a = .update :: rest ∧ _) ∨
          ∃ e rest, s.owed ++ owes s.client a = e :: rest ∧ _
        rw [hnone, List.nil_append]
        cases howes : owes s.client a with
        | nil =>
          rw [howes] at hupdate
          cases hupdate
        | cons e rest =>
          rw [howes] at hupdate
          rcases List.mem_cons.mp hupdate with rfl | hrest
          · refine Or.inl ⟨rest, rfl, ?_⟩
            have hnew := h.fresh s.emitted (Nat.le_refl _) (Or.inl hnone)
            show unpushed (s.events.calls (pollingCall s.emitted)) = true
            rw [hnew]
            rfl
          · exact Or.inr ⟨e, rest, rfl, hrest⟩
    rcases hpublishes.changes with hsame | hnew
    · by_cases hbefore : Owing s
      · refine Or.inl (howing (hpublishes.continues ?_))
        rcases hbefore with hpublishing | ⟨rest, howed, -⟩ | ⟨e, rest, howed, -⟩
        · exact hpublishing
        · rw [hnone] at howed
          cases howed
        · rw [hnone] at howed
          cases howed
      · exact Or.inr ⟨hsame, hbefore⟩
    · exact Or.inl (howing hnew)
  · obtain ⟨hclient, hpolling, hnone⟩ := client_others h.control hpoll hreply hc
    have hsame : Owing { s with client := c, owed := s.owed ++ owes s.client a } ↔ Owing s := by
      unfold Owing
      simp only [hnone, List.append_nil, hpolling]
    by_cases hbefore : Owing s
    · exact Or.inl (hsame.mpr hbefore)
    · exact Or.inr ⟨by rw [hclient], hbefore⟩

/-- **Step lemma.** -/
theorem inv_step {J : JsonLib} {P : StorageProvider σ} {config : ClientConfig}
    {query : Nat → Query} {event : Nat → ClientEvent} {s₀ s s' : State σ C} {as : List (Act C)}
    {a : Act C} (hs : Machine.run (step J P config query event) s₀ as = some s)
    (h : Inv J P config query event s₀ as s) (ha : a.keeps = true)
    (hstep : step J P config query event s a = some s') :
    Inv J P config query event s₀ (as ++ [a]) s' := by
  cases a with
  | read =>
    simp only [step] at hstep
    split at hstep
    · split at hstep <;> cases hstep
      exact ⟨h.runs, Or.inl rfl⟩
    · cases hstep
  | inner a =>
    simp only [step] at hstep
    split at hstep
    · cases hstep
    rename_i hends
    obtain ⟨t, ht, rfl⟩ := Option.map_eq_some_iff.mp hstep
    have hchange := ClientEvents.step_change ht
    refine ⟨runs_change h.runs ha hchange, ?_⟩
    have hlost := fun hlost : Lost J P config query event s₀ as => hlost.snoc (.inner a)
    cases hchange with
    | client a c hfree hc =>
      rcases current_client h.runs hfree hc with howing | ⟨hsame, hnot⟩
      · exact Or.inr (Or.inl howing)
      · rcases h.current with hcurrent | howing | hpending | hl
        · exact Or.inl (hcurrent.trans hsame.symm)
        · exact absurd howing hnot
        · refine Or.inr (Or.inr (Or.inl ?_))
          obtain ⟨task, htask, hwhere⟩ := hpending
          refine ⟨task, htask, hwhere.imp_right (Or.imp_right fun hrunning => ⟨hrunning.1, ?_⟩)⟩
          show (s.hasRead && _) = false
          rw [hrunning.2, Bool.false_and]
        · exact Or.inr (Or.inr (Or.inr (hlost hl)))
    | events a e hmay he =>
      have hhandler := EventHandler.step_change he
      obtain ⟨hstop, -⟩ := keeps_events ha
      rcases h.current with hcurrent | howing | ⟨task, htask, hwhere⟩ | hl
      · exact Or.inl hcurrent
      · rcases howing with hpublishing | ⟨rest, howed, hunpushed⟩ | hrest
        · exact Or.inr (Or.inl (Or.inl hpublishing))
        · rcases unpushed_change h.runs.started h.runs.registered (h.runs.head _ _ howed) hunpushed
            hhandler with hstill | ⟨hevent, cb, hmem⟩ | ⟨hevent, rfl, hfull⟩
          · exact Or.inr (Or.inl (Or.inr (Or.inl ⟨rest, howed, hstill⟩)))
          · exact Or.inr (Or.inr (Or.inl ⟨_, hevent, Or.inl hmem⟩))
          · exact Or.inr (Or.inr (Or.inr ⟨_, hevent, Machine.took_last hs hfull⟩))
        · exact Or.inr (Or.inl (Or.inr (Or.inr hrest)))
      · refine Or.inr (Or.inr (Or.inl ⟨task, htask, ?_⟩))
        refine pending_change h.runs.handler hstop (fun threw hthrew hrunning => ?_) hwhere hhandler
        subst hthrew
        simpa [endsUnread, hrunning, htask] using hends
      · exact Or.inr (Or.inr (Or.inr (hlost hl)))
    | emitted e rest howed hreturned =>
      rcases h.current with hcurrent | howing | ⟨task, htask, hwhere⟩ | hl
      · exact Or.inl hcurrent
      · refine Or.inr (Or.inl ?_)
        rcases howing with hpublishing | ⟨rest', howed', hunpushed⟩ | ⟨e', rest', howed', hrest⟩
        · exact Or.inl hpublishing
        · -- the call has returned
          obtain ⟨outcome, hcall⟩ := ClientEvents.returned_iff.mp hreturned
          rw [hcall] at hunpushed
          cases hunpushed
        · rw [howed] at howed'
          obtain ⟨rfl, rfl⟩ := List.cons.inj howed'
          refine Or.inr ?_
          cases rest with
          | nil => cases hrest
          | cons e₂ rest₂ =>
            rcases List.mem_cons.mp hrest with rfl | hmem
            · refine Or.inl ⟨rest₂, rfl, ?_⟩
              have hnew := h.runs.fresh (s.inner.emitted + 1) (Nat.le_succ _)
                (Or.inr (Nat.lt_succ_self _))
              show unpushed (s.inner.events.calls (pollingCall (s.inner.emitted + 1))) = true
              rw [hnew]
              rfl
            · exact Or.inr ⟨e₂, rest₂, rfl, hmem⟩
      · refine Or.inr (Or.inr (Or.inl ⟨task, htask, hwhere.imp_right (Or.imp_right fun hr => ?_)⟩))
        refine ⟨hr.1, ?_⟩
        show (s.hasRead && _) = false
        rw [hr.2, Bool.false_and]
      · exact Or.inr (Or.inr (Or.inr (hlost hl)))

theorem Owing.underway {s : State σ C} (h : Owing s.inner) : Underway s := by
  rcases h with hpublishing | ⟨rest, howed, -⟩ | ⟨e, rest, howed, hrest⟩
  · exact Or.inl hpublishing
  · exact Or.inr (howed ▸ List.mem_cons_self)
  · exact Or.inr (howed ▸ List.mem_cons_of_mem e hrest)

/-- **A listener is never behind without an Update on its way.**  From a running client, whatever
    its threads and the application do short of stopping it: what the listener has read last is what
    the client offers, or the polling thread has the Update still to emit, or it waits in the queue
    or has just been executed, or an Update was lost because the queue was full. -/
theorem listener_current (J : JsonLib) (P : StorageProvider σ) (config : ClientConfig)
    (query : Nat → Query) (event : Nat → ClientEvent) (s₀ s : State σ C) (as : List (Act C))
    (h₀ : Begun s₀) (has : ∀ a ∈ as, a.keeps = true)
    (hrun : Machine.run (step J P config query event) s₀ as = some s) :
    s.shown = published s.inner.client.client ∨ Underway s ∨ Pending s ∨
      Lost J P config query event s₀ as := by
  have h : Inv J P config query event s₀ as s := by
    refine Machine.run_history (I := fun s as => (∀ a ∈ as, a.keeps = true) →
      Inv J P config query event s₀ as s) (fun _ => ⟨h₀.runs, Or.inl h₀.shown⟩) ?_ hrun has
    intro bs u a v hu ih hv hbs
    exact inv_step hu (ih fun b hb => hbs b (List.mem_append_left _ hb)) (hbs a (by simp)) hv
  exact h.current.imp_right (Or.imp_left Owing.underway)

/-- A running client that waits for its first reply. -/
def waitingForReply : State Unit Nat where
  inner :=
    { client :=
        { client := UnleashClient.freshClient, context := UnleashClient.plainContext
          running := true, polling := .fetch UnleashClient.plainContext }
      events := { started := true, slots := fun _ => some 0, loop := .top } }
  shown := none

/-- The emit call of the polling thread's event number `n`. -/
def emitCall (n : Nat) : List (Act Nat) :=
  [.inner (.events (.enter (pollingCall n))), .inner (.events (.load (pollingCall n))),
    .inner (.events (.push (pollingCall n))), .inner (.events (.notify (pollingCall n))),
    .inner .emitted]

/-- The first flags arrive; Ready and Update are emitted and executed, and the listener reads. -/
def firstFlags : List (Act Nat) :=
  .inner (.client (.reply (UnleashClient.okReply oneToggleText (bytes "e1")))) ::
    List.replicate 5 (.inner (.client .poll)) ++ emitCall 0 ++ emitCall 1 ++
    List.replicate 5 (.inner (.events .loop)) ++
    .inner (.events (.callbackEnds false)) :: List.replicate 3 (.inner (.events .loop)) ++ [.read]

/-- The polling thread emits Ready, then Updates. -/
def readyThenUpdate (k : Nat) : ClientEvent := if k = pollingCall 0 then .ready else .update

theorem listener_current_first :
    ∃ s : State Unit Nat, Machine.run (step JsonText.compact localStorageProvider
        (ClientConfig.make (bytes "u") (bytes "k") (bytes "app") [])
        (fun _ => ⟨.isEnabled, bytes "a"⟩) readyThenUpdate) waitingForReply firstFlags = some s ∧
      s.shown.map ToggleSet.size = some 1 ∧
      (s.shown = published s.inner.client.client ∨ Underway s ∨ Pending s ∨
        Lost JsonText.compact localStorageProvider
          (ClientConfig.make (bytes "u") (bytes "k") (bytes "app") [])
          (fun _ => ⟨.isEnabled, bytes "a"⟩) readyThenUpdate waitingForReply firstFlags) := by
  have hshown : (Machine.run (step JsonText.compact localStorageProvider
      (ClientConfig.make (bytes "u") (bytes "k") (bytes "app") [])
      (fun _ => ⟨.isEnabled, bytes "a"⟩) readyThenUpdate) waitingForReply firstFlags).map
        (fun s => s.shown.map ToggleSet.size) = some (some 1) := by
    decide +kernel
  obtain ⟨s, hs, hsize⟩ := Option.map_eq_some_iff.mp hshown
  refine ⟨s, hs, hsize, listener_current JsonText.compact localStorageProvider _ _ readyThenUpdate
    waitingForReply s firstFlags ?_ (by decide) hs⟩
  exact ⟨rfl, rfl, rfl, rfl, fun n hn => rfl, rfl, Or.inr rfl, by simp [waitingForReply], rfl⟩

end UpdateListener

end Unleash
