/-
  THE CLIENT AND ITS EVENT HANDLER, together.

  A thread of the client that emits an event goes through an emit call of the handler, and takes
  its next step when that has returned:

      evaluation t      ⋯ ─ copyContext ─ emit ═══ call 3t ═══▶ returned
      polling thread    ⋯ ─ exchangeReady ═══ call 3n+1 ═══ call 3(n+1)+1 ═══▶ testExit ─ ⋯
      the others        ═══ call 3m+2 ═══▶                 (`start()`, the metrics thread)

  What the polling thread has to emit before its next step is `owed`: the error of a result, or
  the Ready of the first toggles and the Update of any.  What an emit call is made with is fixed
  in advance by `event`, and a call can only begin if the code is about to emit that event, so
  every behaviour is a run for some `event`.

  The application registers callbacks at any time, and starts and stops the handler at any time:
  how `start()` and `stop()` order these is the subject of other modules.
-/
import UnleashSdk.EventHandler
import UnleashSdk.Linearization

set_option linter.unusedVariables false

namespace Unleash

deriving instance DecidableEq for MutableContext, Context, ClientError, ClientImpression,
  ClientEvent

/-! ## One emit call -/

namespace EventHandler

variable {C : Type}

/-- What a step of emit call `t` does to where it is. -/
inductive CallMoves (t : Nat) : Act C → CallPc C → CallPc C → Prop where
  | entered : CallMoves t (.enter t) .new .load
  | refused : CallMoves t (.enter t) .new (.returned .notStarted)
  | loaded (cb : C) : CallMoves t (.load t) .load (.push cb)
  | unregistered : CallMoves t (.load t) .load (.returned .noCallback)
  | accepted (cb : C) : CallMoves t (.push t) (.push cb) (.notify .accepted)
  | discarded (cb : C) : CallMoves t (.push t) (.push cb) (.notify .discarded)
  | notified (outcome : Outcome) : CallMoves t (.notify t) (.notify outcome) (.returned outcome)

/-- The emit call that makes a step. -/
def Act.call : Act C → Option Nat
  | .enter t | .load t | .push t | .notify t => some t
  | _ => none

theorem CallMoves.call {t : Nat} {a : Act C} {p q : CallPc C} (h : CallMoves t a p q) :
    a.call = some t := by
  cases h <;> rfl

/-- A step is one of an emit call, or leaves them all where they are. -/
theorem change_moves {event : Nat → ClientEvent} {s s' : State C} {a : Act C}
    (hc : Change event s a s') :
    (a.call = none ∧ s'.calls = s.calls) ∨
      ∃ t q, CallMoves t a (s.calls t) q ∧ s'.calls = Function.update s.calls t q := by
  cases hc with
  | entered t ht hs => exact Or.inr ⟨t, _, ht ▸ .entered, rfl⟩
  | refused t ht hs => exact Or.inr ⟨t, _, ht ▸ .refused, rfl⟩
  | loaded t cb ht hcb => exact Or.inr ⟨t, _, ht ▸ .loaded cb, rfl⟩
  | unregistered t ht hcb => exact Or.inr ⟨t, _, ht ▸ .unregistered, rfl⟩
  | accepted t cb ht hfree hroom => exact Or.inr ⟨t, _, ht ▸ .accepted cb, rfl⟩
  | discarded t cb ht hfree hfull => exact Or.inr ⟨t, _, ht ▸ .discarded cb, rfl⟩
  | notified t outcome ht => exact Or.inr ⟨t, _, ht ▸ .notified outcome, rfl⟩
  | _ => exact Or.inl ⟨rfl, rfl⟩

/-- What a step does to one emit call: nothing, or the call begins or is under way. -/
theorem change_call {event : Nat → ClientEvent} {s s' : State C} {a : Act C}
    (hc : Change event s a s') (k : Nat) :
    s'.calls k = s.calls k ∨ a = .enter k ∨
      (s.calls k ≠ .new ∧ ∀ outcome, s.calls k ≠ .returned outcome) := by
  rcases change_moves hc with ⟨-, hcalls⟩ | ⟨t, q, hmoves, hcalls⟩
  · exact Or.inl (by rw [hcalls])
  by_cases hk : k = t
  · subst hk
    refine Or.inr ?_
    generalize s.calls k = p at hmoves
    cases hmoves with
    | entered | refused => exact Or.inl rfl
    | _ => exact Or.inr ⟨by simp, by simp⟩
  · exact Or.inl (by rw [hcalls, Function.update_of_ne hk])

end EventHandler

namespace ClientEvents

open ClientMachine (CallPc Query impressionOf)

variable {σ C : Type}

/-! ## Who makes an emit call -/

inductive Caller where
  | evaluation (t : Nat)
  | polling (n : Nat)
  | other (m : Nat)
  deriving DecidableEq

def caller (k : Nat) : Caller :=
  match k % 3 with
  | 0 => .evaluation (k / 3)
  | 1 => .polling (k / 3)
  | _ => .other (k / 3)

/-- The emit call of evaluation `t`, and that of the polling thread's event number `n`. -/
def evaluationCall (t : Nat) : Nat := 3 * t

def pollingCall (n : Nat) : Nat := 3 * n + 1

@[simp] theorem caller_evaluationCall (t : Nat) : caller (evaluationCall t) = .evaluation t := by
  have hmod : 3 * t % 3 = 0 := by omega
  have hdiv : 3 * t / 3 = t := by omega
  simp only [caller, evaluationCall, hmod, hdiv]

@[simp] theorem caller_pollingCall (n : Nat) : caller (pollingCall n) = .polling n := by
  have hmod : (3 * n + 1) % 3 = 1 := by omega
  have hdiv : (3 * n + 1) / 3 = n := by omega
  simp only [caller, pollingCall, hmod, hdiv]

/-- The number of a call tells who makes it. -/
theorem caller_eq_evaluation {k t : Nat} (h : caller k = .evaluation t) : k = evaluationCall t := by
  unfold caller at h
  split at h
  · rename_i hmod
    obtain rfl : k / 3 = t := Caller.evaluation.inj h
    show k = 3 * (k / 3)
    omega
  · cases h
  · cases h

/-! ## The machine -/

structure State (σ C : Type) where
  client : ClientMachine.State σ
  events : EventHandler.State C
  -- what the polling thread has to emit before its next step, and how much it has emitted
  owed : List ClientEvent := []
  emitted : Nat := 0

inductive Act (C : Type) where
  | client (a : ClientMachine.Act)
  | events (a : EventHandler.Act C)
  | emitted

/-- The impression that a call is about to emit. -/
def emitting (q : Query) : CallPc → Option ClientEvent
  | .emit _ enabled variant impression ctx =>
    some (.impression (impressionOf q enabled variant impression ctx))
  | _ => none

/-- What `singleFetchToggles` emits after its step at `p`, for a client that is ready or not. -/
def emitsAfter (ready : Bool) : ClientMachine.PollPc → List ClientEvent
  | .handle result => (result.error.map UnleashClient.fetchFailed).toList
  | .exchangeReady => if ready then [.update] else [.ready, .update]
  | _ => []

def owes (c : ClientMachine.State σ) : ClientMachine.Act → List ClientEvent
  | .poll => emitsAfter c.client.ready c.polling
  | _ => []

/-- Emit call `k` has returned. -/
def returned (e : EventHandler.State C) (k : Nat) : Bool :=
  match e.calls k with
  | .returned _ => true
  | _ => false

theorem returned_iff {e : EventHandler.State C} {k : Nat} :
    returned e k = true ↔ ∃ outcome, e.calls k = .returned outcome := by
  unfold returned
  cases e.calls k with
  | returned outcome => exact ⟨fun _ => ⟨outcome, rfl⟩, fun _ => rfl⟩
  | _ =>
    refine ⟨fun h => (by cases h), fun h => ?_⟩
    obtain ⟨outcome, h⟩ := h
    cases h

/-- A thread of the client is in an emit call. -/
def waits (query : Nat → Query) (s : State σ C) : ClientMachine.Act → Bool
  | .call t =>
    (emitting (query t) (s.client.calls t)).isSome && !returned s.events (evaluationCall t)
  | .poll | .reply _ => !s.owed.isEmpty
  | _ => false

/-- The code is about to make emit call `k` with this event. -/
def mayEmit (query : Nat → Query) (s : State σ C) (k : Nat) (e : ClientEvent) : Bool :=
  match caller k with
  | .evaluation t => emitting (query t) (s.client.calls t) = some e
  | .polling n => n = s.emitted && s.owed.head? = some e
  | .other _ => true

def mayTake (query : Nat → Query) (event : Nat → ClientEvent) (s : State σ C) :
    EventHandler.Act C → Bool
  | .enter k => mayEmit query s k (event k)
  | _ => true

def step (J : JsonLib) (P : StorageProvider σ) (config : ClientConfig) (query : Nat → Query)
    (event : Nat → ClientEvent) (s : State σ C) : Act C → Option (State σ C)
  | .client a =>
    if waits query s a then none
    else
      (ClientMachine.step J P config query s.client a).map fun c =>
        { s with client := c, owed := s.owed ++ owes s.client a }
  | .events a =>
    if mayTake query event s a then
      (EventHandler.step event s.events a).map fun e => { s with events := e }
    else none
  | .emitted =>
    match s.owed with
    | [] => none
    | _ :: rest =>
      if returned s.events (pollingCall s.emitted) then
        some { s with owed := rest, emitted := s.emitted + 1 }
      else none

/-- A client that has just been constructed, and its event handler. -/
def initial (client : UnleashClient σ) (ctx : Context) : State σ C :=
  { client := ClientMachine.initial client ctx, events := {} }

/-! ## Everything a step can do -/

inductive Change (J : JsonLib) (P : StorageProvider σ) (config : ClientConfig)
    (query : Nat → Query) (event : Nat → ClientEvent) (s : State σ C) :
    Act C → State σ C → Prop where
  | client (a : ClientMachine.Act) (c : ClientMachine.State σ) (hfree : waits query s a = false)
    (hc : ClientMachine.step J P config query s.client a = some c) :
    Change J P config query event s (.client a)
      { s with client := c, owed := s.owed ++ owes s.client a }
  | events (a : EventHandler.Act C) (e : EventHandler.State C)
    (hmay : mayTake query event s a = true) (he : EventHandler.step event s.events a = some e) :
    Change J P config query event s (.events a) { s with events := e }
  | emitted (e : ClientEvent) (rest : List ClientEvent) (howed : s.owed = e :: rest)
    (hreturned : returned s.events (pollingCall s.emitted) = true) :
    Change J P config query event s .emitted { s with owed := rest, emitted := s.emitted + 1 }

theorem step_change {J : JsonLib} {P : StorageProvider σ} {config : ClientConfig}
    {query : Nat → Query} {event : Nat → ClientEvent} {s s' : State σ C} {a : Act C}
    (h : step J P config query event s a = some s') : Change J P config query event s a s' := by
  cases a with
  | client a =>
    simp only [step] at h
    split at h
    · cases h
    · rename_i hfree
      obtain ⟨c, hc, rfl⟩ := Option.map_eq_some_iff.mp h
      exact .client a c (Bool.eq_false_iff.mpr hfree) hc
  | events a =>
    simp only [step] at h
    split at h
    · rename_i hmay
      obtain ⟨e, he, rfl⟩ := Option.map_eq_some_iff.mp h
      exact .events a e hmay he
    · cases h
  | emitted =>
    simp only [step] at h
    split at h
    · cases h
    · rename_i e rest howed
      split at h <;> cases h
      rename_i hreturned
      exact .emitted e rest howed hreturned

/-! ## The two sides of a run -/

/-- What the client does in a step, and what the handler does. -/
def clientActs : Act C → List ClientMachine.Act
  | .client a => [a]
  | _ => []

def eventActs : Act C → List (EventHandler.Act C)
  | .events a => [a]
  | _ => []

/-- **The client's side of a run is a run of the client.** -/
theorem simulates_client (J : JsonLib) (P : StorageProvider σ) (config : ClientConfig)
    (query : Nat → Query) (event : Nat → ClientEvent) :
    Machine.Simulates (step (C := C) J P config query event) (ClientMachine.step J P config query)
      (fun _ => clientActs) fun s c => s.client = c := by
  rintro s c a s' rfl hstep
  cases step_change hstep with
  | client a c hfree hc => exact ⟨c, (Machine.run_cons_of_step hc []).trans rfl, rfl⟩
  | events a e hmay he => exact ⟨s.client, rfl, rfl⟩
  | emitted e rest howed hreturned => exact ⟨s.client, rfl, rfl⟩

/-- **The handler's side of a run is a run of the handler.** -/
theorem simulates_events (J : JsonLib) (P : StorageProvider σ) (config : ClientConfig)
    (query : Nat → Query) (event : Nat → ClientEvent) :
    Machine.Simulates (step (C := C) J P config query event) (EventHandler.step event)
      (fun _ => eventActs) fun s e => s.events = e := by
  rintro s e a s' rfl hstep
  cases step_change hstep with
  | client a c hfree hc => exact ⟨s.events, rfl, rfl⟩
  | events a e hmay he => exact ⟨e, (Machine.run_cons_of_step he []).trans rfl, rfl⟩
  | emitted e rest howed hreturned => exact ⟨s.events, rfl, rfl⟩

/-! ## The emit calls of the polling thread -/

/-- They are made in their order, each with the event that is owed. -/
structure Emits (event : Nat → ClientEvent) (s : State σ C) : Prop where
  fresh : ∀ n, s.emitted ≤ n → (s.owed = [] ∨ s.emitted < n) →
    s.events.calls (pollingCall n) = .new
  head : ∀ e rest, s.owed = e :: rest →
    s.events.calls (pollingCall s.emitted) = .new ∨ event (pollingCall s.emitted) = e

theorem emits_initial (event : Nat → ClientEvent) (client : UnleashClient σ) (ctx : Context) :
    Emits event (initial client ctx : State σ C) where
  fresh _ _ _ := rfl
  head e rest howed := by cases howed

/-- The call that has returned was made with the event that is owed first. -/
theorem Emits.head_returned {event : Nat → ClientEvent} {s : State σ C} (h : Emits event s)
    {e : ClientEvent} {rest : List ClientEvent} (howed : s.owed = e :: rest)
    (hreturned : returned s.events (pollingCall s.emitted) = true) :
    event (pollingCall s.emitted) = e := by
  refine (h.head e rest howed).resolve_left fun hnew => ?_
  obtain ⟨outcome, hcall⟩ := returned_iff.mp hreturned
  rw [hnew] at hcall
  cases hcall

theorem emits_change {J : JsonLib} {P : StorageProvider σ} {config : ClientConfig}
    {query : Nat → Query} {event : Nat → ClientEvent} {s s' : State σ C} {a : Act C}
    (h : Emits event s) (hc : Change J P config query event s a s') : Emits event s' := by
  cases hc with
  | client a c hfree hc =>
    refine ⟨fun n hn hnext => ?_, fun e rest howed => ?_⟩
    · exact h.fresh n hn (hnext.imp_left fun hnil => (List.append_eq_nil_iff.mp hnil).1)
    · have howed : s.owed ++ owes s.client a = e :: rest := howed
      cases hbefore : s.owed with
      | nil => exact Or.inl (h.fresh s.emitted (Nat.le_refl _) (Or.inl hbefore))
      | cons e' rest' =>
        rw [hbefore] at howed
        obtain rfl : e' = e := (List.cons.inj howed).1
        exact h.head _ _ hbefore
  | events a e hmay he =>
    have hchange := EventHandler.step_change he
    -- an emit call of the polling thread begins with the event that is owed
    have henter : ∀ n, a = .enter (pollingCall n) →
        n = s.emitted ∧ s.owed.head? = some (event (pollingCall n)) := by
      rintro n rfl
      simpa [mayTake, mayEmit] using hmay
    refine ⟨fun n hn hnext => ?_, fun e' rest howed => ?_⟩
    · have hnew := h.fresh n hn hnext
      rcases EventHandler.change_call hchange (pollingCall n) with hsame | ha | ⟨hne, -⟩
      · exact hsame.trans hnew
      · obtain ⟨rfl, hhead⟩ := henter n ha
        rcases hnext with hnil | hlt
        · have hnil : s.owed = [] := hnil
          rw [hnil] at hhead
          cases hhead
        · exact absurd hlt (Nat.lt_irrefl _)
      · exact absurd hnew hne
    · have howed : s.owed = e' :: rest := howed
      rcases EventHandler.change_call hchange (pollingCall s.emitted) with hsame | ha | ⟨hne, -⟩
      · exact (h.head e' rest howed).imp_left hsame.trans
      · obtain ⟨-, hhead⟩ := henter _ ha
        rw [howed] at hhead
        exact Or.inr (Option.some.inj hhead).symm
      · exact Or.inr ((h.head e' rest howed).resolve_left hne)
  | emitted e rest howed hreturned =>
    refine ⟨fun n hn hnext => ?_, fun e' rest' howed' => ?_⟩
    · exact h.fresh n (Nat.le_of_succ_le hn) (Or.inr hn)
    · exact Or.inl (h.fresh (s.emitted + 1) (Nat.le_succ _) (Or.inr (Nat.lt_succ_self _)))

end ClientEvents

end Unleash
