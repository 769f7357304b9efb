/-
  EVALUATIONS WAIT FOR CRITICAL SECTIONS ONLY.

  An evaluation reads a flag, a snapshot and the context, counts a metric and may emit an event.
  It takes a number of steps that is fixed in advance (`ownLeft`), whatever else goes on.  Three of
  them need a mutex, one after another, and only there it can be held up:

      ⋯ ─▶ record ─▶ impression ─▶ copyContext ─▶ emit ═══ enter ─▶ load ─▶ push ─▶ notify ═══▶
             │                          │                                 │
          metrics                    polling                            queue

  Whoever has the mutex is in a section of four statements at most, none of which waits for
  anything (`inside_goes_on`); the event thread has the queue's mutex for two steps at most, and
  gives it back before it executes a callback (`lock_goes_on`).  So `stepsLeft` falls until the
  call has returned: no request under way, no backup that is written, no report that is sent, no
  callback and no `stop()` has to come to an end before (`evaluation_returns`).

  What a call emits is fixed in advance by `event`; for a call that has not emitted yet this is a
  matter of the future, and a continuation may fix it anew (`run_agree`).
-/
import UnleashSdk.ClientMutexes
import UnleashSdk.Impressions
import UnleashSdk.Lib.Amortized

set_option linter.unusedVariables false

namespace Unleash

namespace EventHandler

variable {C : Type}

/-! ## One emit call -/

/-- A step of emit call `k`. -/
def ownStep (k : Nat) (a : Act C) : Nat := if a.call = some k then 1 else 0

/-- The steps that an emit call has left at most. -/
def emitLeft : CallPc C → Nat
  | .new => 4
  | .load => 3
  | .push _ => 2
  | .notify _ => 1
  | .returned _ => 0

/-- The steps of the event thread until it gives the mutex back. -/
def lockLeft : LoopPc C → Nat
  | .predicate => 2
  | .block | .testEmpty => 1
  | _ => 0

theorem emitLeft_new : emitLeft (.new : CallPc C) = 4 := rfl

theorem emitLeft_push (cb : C) : emitLeft (.push cb) = 2 := rfl

theorem emitLeft_le (p : CallPc C) : emitLeft p ≤ 4 := by
  cases p <;> simp [emitLeft]

theorem emitLeft_lt {p : CallPc C} (h : p ≠ .new) : emitLeft p < 4 := by
  cases p with
  | new => exact absurd rfl h
  | _ => simp [emitLeft]

theorem lockLeft_le (p : LoopPc C) : lockLeft p ≤ 2 := by
  cases p <;> simp [lockLeft]

theorem lockLeft_of_free {p : LoopPc C} (h : p.holds = false) : lockLeft p = 0 := by
  cases p with
  | predicate | block | testEmpty => cases h
  | _ => rfl

/-- **Step lemma.**  A step of the call is one less, and nobody else's step is one more. -/
theorem emit_pays {event : Nat → ClientEvent} {s s' : State C} {a : Act C}
    (hc : Change event s a s') (k : Nat) :
    ownStep k a + emitLeft (s'.calls k) ≤ emitLeft (s.calls k) := by
  rcases change_moves hc with ⟨hnone, hcalls⟩ | ⟨t, q, hmoves, hcalls⟩
  · rw [hcalls, ownStep, hnone]
    simp
  rw [hcalls]
  by_cases hk : k = t
  · subst hk
    rw [Function.update_self]
    generalize s.calls k = p at hmoves
    cases hmoves <;> simp [ownStep, Act.call, emitLeft]
  · have hother : ownStep k a = 0 := by
      refine if_neg fun heq => hk ?_
      exact Option.some.inj (heq.symm.trans hmoves.call)
    rw [Function.update_of_ne hk, hother, Nat.zero_add]

/-- The event thread goes on while it holds the mutex, and executes nothing. -/
theorem lock_goes_on (event : Nat → ClientEvent) {s : State C} (h : s.loop.holds = true) :
    ∃ s', step event s .loop = some s' ∧ lockLeft s'.loop + 1 ≤ lockLeft s.loop ∧
      s'.calls = s.calls ∧ s'.executed = s.executed := by
  cases hp : s.loop with
  | predicate =>
    refine ⟨{ s with loop := if s.queue.isEmpty && s.started then .block else .testEmpty },
      by simp only [step, hp, loopStep], ?_, rfl, rfl⟩
    show lockLeft (if s.queue.isEmpty && s.started then .block else .testEmpty) + 1 ≤ 2
    split <;> exact Nat.le_refl _
  | block =>
    exact ⟨{ s with loop := .blocked }, by simp only [step, hp, loopStep], by simp [lockLeft], rfl,
      rfl⟩
  | testEmpty =>
    cases hq : s.queue with
    | nil =>
      refine ⟨{ s with loop := .top }, ?_, by simp [lockLeft], rfl, rfl⟩
      simp only [step, hp, loopStep, hq]
    | cons task rest =>
      refine ⟨{ s with queue := rest, loop := .popped task }, ?_, by simp [lockLeft], rfl, rfl⟩
      simp only [step, hp, loopStep, hq]
  | _ =>
    rw [hp] at h
    cases h

end EventHandler

namespace ClientEvents

open ClientMachine (CallPc Query)

variable {σ C : Type}

/-! ## One evaluation -/

/-- A step of evaluation `t` outside its emit call, and one of that. -/
def ownCall (t : Nat) : Act C → Nat
  | .client (.call u) => if u = t then 1 else 0
  | _ => 0

def ownEmit (t : Nat) : Act C → Nat
  | .events a => EventHandler.ownStep (evaluationCall t) a
  | _ => 0

def ownStep (t : Nat) (a : Act C) : Nat := ownCall t a + ownEmit t a

theorem ownCall_self (t : Nat) : ownCall t (.client (.call t) : Act C) = 1 := if_pos rfl

theorem ownEmit_of_call {t : Nat} {a : EventHandler.Act C} (h : a.call = some (evaluationCall t)) :
    ownEmit t (.events a) = 1 := if_pos h

theorem ownStep_self (t : Nat) : ownStep t (.client (.call t) : Act C) = 1 := by
  rw [ownStep, ownCall_self]
  rfl

theorem ownStep_of_call {t : Nat} {a : EventHandler.Act C} (h : a.call = some (evaluationCall t)) :
    ownStep t (.events a) = 1 := by
  rw [ownStep, ownEmit_of_call h]
  rfl

/-- The steps that an evaluation has left at most, its emit call aside. -/
def callLeft : CallPc → Nat
  | .new => 9
  | .load => 8
  | .contains _ => 7
  | .enabled _ => 6
  | .variant _ _ => 5
  | .record _ _ _ => 4
  | .impression _ _ _ => 3
  | .copyContext _ _ _ _ => 2
  | .emit _ _ _ _ _ => 1
  | .returned _ => 0

theorem callLeft_record (toggleSet : ToggleSet) (enabled : Bool) (variant : Option Variant) :
    callLeft (.record toggleSet enabled variant) = 4 := rfl

theorem callLeft_copyContext (toggleSet : ToggleSet) (enabled : Bool) (variant : Option Variant)
    (impression : Bool) : callLeft (.copyContext toggleSet enabled variant impression) = 2 := rfl

theorem callLeft_le (p : CallPc) : callLeft p ≤ 9 := by
  cases p <;> simp [callLeft]

def ownLeft (s : State σ C) (t : Nat) : Nat :=
  callLeft (s.client.calls t) + EventHandler.emitLeft (s.events.calls (evaluationCall t))

theorem call_pays {config : ClientConfig} {q : Query} {s s' : ClientMachine.State σ} {t : Nat}
    {p : CallPc} (hc : ClientMachine.CallChange config q s t p s') :
    callLeft (s'.calls t) + 1 ≤ callLeft p := by
  cases hc <;> simp [callLeft]

/-- **Step lemma.**  A step of the call is one less, a step of its emit call, too, and nobody else's
    step is one more. -/
theorem own_pays {J : JsonLib} {P : StorageProvider σ} {config : ClientConfig}
    {query : Nat → Query} {event : Nat → ClientEvent} {s s' : State σ C} {a : Act C}
    (hc : Change J P config query event s a s') (t : Nat) :
    ownCall t a + callLeft (s'.client.calls t) ≤ callLeft (s.client.calls t) ∧
      ownEmit t a + EventHandler.emitLeft (s'.events.calls (evaluationCall t)) ≤
        EventHandler.emitLeft (s.events.calls (evaluationCall t)) := by
  cases hc with
  | client a c hfree hc =>
    refine ⟨?_, Nat.le_of_eq (Nat.zero_add _)⟩
    have hchange := ClientMachine.step_change hc
    by_cases ha : a = .call t
    · subst ha
      cases hchange with
      | call _ c hcall =>
        have hpays := call_pays hcall
        simp only [ownCall, if_true]
        omega
    · have hnone : ownCall t (.client a : Act C) = 0 := by
        cases a with
        | call u =>
          refine if_neg ?_
          rintro rfl
          exact ha rfl
        | _ => rfl
      rw [hnone, Nat.zero_add, (ClientMachine.change_other hchange ha).1]
  | events a e hmay he =>
    exact ⟨Nat.le_of_eq (Nat.zero_add _),
      EventHandler.emit_pays (EventHandler.step_change he) (evaluationCall t)⟩
  | emitted e rest howed hreturned =>
    exact ⟨Nat.le_of_eq (Nat.zero_add _), Nat.le_of_eq (Nat.zero_add _)⟩

/-- A call that is not over goes on, up to its emit call. -/
theorem callStep_some (config : ClientConfig) (q : Query) (s : ClientMachine.State σ) (t : Nat)
    {p : CallPc} (h : ∀ answer, p ≠ .returned answer) :
    ∃ s', ClientMachine.callStep config q s t p = some s' := by
  cases p with
  | returned answer => exact absurd rfl (h answer)
  | enabled toggleSet => cases hkind : q.kind <;> simp [ClientMachine.callStep, hkind]
  | _ => exact ⟨_, rfl⟩

/-- A step of the client, when its thread is in no emit call. -/
theorem step_client {J : JsonLib} {P : StorageProvider σ} {config : ClientConfig}
    {query : Nat → Query} (event : Nat → ClientEvent) {s : State σ C} {a : ClientMachine.Act}
    {c : ClientMachine.State σ} (hc : ClientMachine.step J P config query s.client a = some c)
    (hfree : waits query s a = false) :
    step J P config query event s (.client a) =
      some { s with client := c, owed := s.owed ++ owes s.client a } := by
  simp only [step, hfree, Bool.false_eq_true, if_false, hc, Option.map_some]

/-- One step of a call outside its emit call; the events do not matter. -/
theorem call_goes_on (J : JsonLib) (P : StorageProvider σ) (config : ClientConfig)
    (query : Nat → Query) {s : State σ C} {t : Nat} (hthrew : s.client.polling.isThrew = false)
    (hreturned : ∀ answer, s.client.calls t ≠ .returned answer)
    (hfree : waits query s (.call t) = false) :
    ∃ c, ClientMachine.CallChange config (query t) s.client t (s.client.calls t) c ∧
      ∀ event : Nat → ClientEvent, step J P config query event s (.client (.call t)) =
        some { s with client := c } := by
  obtain ⟨c, hc⟩ := callStep_some config (query t) s.client t hreturned
  have hstep : ClientMachine.step J P config query s.client (.call t) = some c := by
    simp only [ClientMachine.step, hthrew, Bool.false_eq_true, if_false, hc]
  refine ⟨c, ?_, fun event => ?_⟩
  · cases ClientMachine.step_change hstep with
    | call _ _ hcall => exact hcall
  · simp only [step, hfree, Bool.false_eq_true, if_false, hstep, Option.map_some, owes,
      List.append_nil]

/-! ## What is foretold -/

/-- An emit call that has begun is not new again. -/
theorem not_new_step {J : JsonLib} {P : StorageProvider σ} {config : ClientConfig}
    {query : Nat → Query} {event : Nat → ClientEvent} {s s' : State σ C} {a : Act C}
    (h : step J P config query event s a = some s') {k : Nat} (hk : s.events.calls k ≠ .new) :
    s'.events.calls k ≠ .new := by
  cases step_change h with
  | events a e hmay he =>
    intro hnew
    have hnew : e.calls k = .new := hnew
    have hpays := EventHandler.emit_pays (EventHandler.step_change he) k
    have hless := EventHandler.emitLeft_lt hk
    rw [hnew, EventHandler.emitLeft_new] at hpays
    omega
  | _ => exact hk

/-- A step depends only on what the calls emit that have begun by its end. -/
theorem step_agree {J : JsonLib} {P : StorageProvider σ} {config : ClientConfig}
    {query : Nat → Query} {event event' : Nat → ClientEvent} {s s' : State σ C} {a : Act C}
    (h : step J P config query event s a = some s')
    (hagree : ∀ k, s'.events.calls k ≠ .new → event' k = event k) :
    step J P config query event' s a = some s' := by
  cases step_change h with
  | client a c hfree hc => exact h
  | emitted e rest howed hreturned => exact h
  | events a e hmay he =>
    have hown : ∀ k, EventHandler.ownStep k a = 1 → event' k = event k := by
      intro k hk
      refine hagree k fun hnew => ?_
      have hnew : e.calls k = .new := hnew
      have hpays := EventHandler.emit_pays (EventHandler.step_change he) k
      have hbound := EventHandler.emitLeft_le (s.events.calls k)
      rw [hnew, hk, EventHandler.emitLeft_new] at hpays
      omega
    have hsame : mayTake query event' s a = mayTake query event s a ∧
        EventHandler.step event' s.events a = EventHandler.step event s.events a := by
      cases a with
      | enter k | load k | push k =>
        have hk := hown k (if_pos rfl)
        constructor
        · simp only [mayTake, hk]
        · simp only [EventHandler.step, hk]
      | _ => exact ⟨rfl, rfl⟩
    simp only [step, hsame.1, hsame.2, hmay, he, if_true, Option.map_some]

end ClientEvents

namespace ClientMutexes

open ClientEvents (evaluationCall callLeft heardImpression)
open EventHandler (emitLeft lockLeft)
open ClientMachine (Query)

instance : Fintype Mutex where
  elems := {.metrics, .polling, .queue}
  complete m := by cases m <;> simp

variable {σ C : Type}

/-! ## The steps of one evaluation, with its mutexes -/

/-- Evaluation `t` is inside, or its emit call. -/
def Inside.own (t : Nat) : {m : Mutex} → Inside m → Bool
  | _, .add u | _, .copyContext u => u = t
  | _, .push k => k = evaluationCall t
  | _, _ => false

def State.has (s : State σ C) (t : Nat) (m : Mutex) : Bool := (s.held m).any (Inside.own t)

def ownStep (t : Nat) (s : State σ C) : Act C → Nat
  | .base a => ClientEvents.ownStep t a
  | .acquire _ p => if p.own t then 1 else 0
  | .inside m => if s.has t m then 1 else 0

/-- The section under this mutex is not behind the evaluation. -/
def needs (b : ClientEvents.State σ C) (t : Nat) : Mutex → Bool
  | .metrics => 4 ≤ callLeft (b.client.calls t)
  | .polling => 2 ≤ callLeft (b.client.calls t)
  | .queue => 2 ≤ emitLeft (b.events.calls (evaluationCall t))

/-- The step in which the evaluation takes the mutex, if it has that before it. -/
def lockSteps (s : State σ C) (t : Nat) (m : Mutex) : Nat :=
  if needs s.base t m && !s.has t m then 1 else 0

/-- The steps that an evaluation has left at most. -/
def ownLeft (s : State σ C) (t : Nat) : Nat :=
  callLeft (s.base.client.calls t) + emitLeft (s.base.events.calls (evaluationCall t)) +
    ∑ m, lockSteps s t m

theorem ownLeft_le (s : State σ C) (t : Nat) : ownLeft s t ≤ 16 := by
  have hcall := ClientEvents.callLeft_le (s.base.client.calls t)
  have hemit := EventHandler.emitLeft_le (s.base.events.calls (evaluationCall t))
  have hlocks : ∑ m, lockSteps s t m ≤ ∑ _m : Mutex, 1 := by
    refine Finset.sum_le_sum fun m _ => ?_
    unfold lockSteps
    split <;> decide
  have hcard : ∑ _m : Mutex, 1 = 3 := rfl
  unfold ownLeft
  omega

theorem needs_of_stands {b : ClientEvents.State σ C} {t : Nat} {m : Mutex} {p : Inside m}
    (hp : p.stands b = true) (hown : p.own t = true) : needs b t m = true := by
  cases p with
  | add u =>
    obtain rfl : u = t := of_decide_eq_true hown
    obtain ⟨toggleSet, enabled, variant, hat⟩ := stands_add.mp hp
    simp [needs, hat, callLeft]
  | copyContext u =>
    obtain rfl : u = t := of_decide_eq_true hown
    obtain ⟨toggleSet, enabled, variant, impression, hat⟩ := stands_copyContext.mp hp
    simp [needs, hat, callLeft]
  | push k =>
    obtain rfl : k = evaluationCall t := of_decide_eq_true hown
    obtain ⟨cb, hat⟩ := stands_push.mp hp
    simp [needs, hat, emitLeft]
  | _ => cases hown

/-- The evaluation's sections have one statement each, its own step. -/
theorem own_statement {t : Nat} {m : Mutex} {p : Inside m} (hown : p.own t = true)
    (s : State σ C) : p.next s = none ∧
      ∃ a : ClientEvents.Act C, p.act = some a ∧ ClientEvents.ownStep t a = 1 := by
  cases p with
  | add u | copyContext u =>
    obtain rfl : u = t := of_decide_eq_true hown
    exact ⟨rfl, _, rfl, ClientEvents.ownStep_self u⟩
  | push k =>
    obtain rfl : k = evaluationCall t := of_decide_eq_true hown
    exact ⟨rfl, _, rfl, ClientEvents.ownStep_of_call rfl⟩
  | _ => cases hown

/-- The section is behind the evaluation once it has taken that step. -/
theorem needs_behind {J : JsonLib} {P : StorageProvider σ} {config : ClientConfig}
    {query : Nat → Query} {event : Nat → ClientEvent} {b b' : ClientEvents.State σ C}
    {a : ClientEvents.Act C} (h : ClientEvents.step J P config query event b a = some b') {t : Nat}
    {m : Mutex} {p : Inside m} (hp : p.stands b = true) (hown : p.own t = true)
    (ha : p.act = some a) : needs b' t m = false := by
  obtain ⟨hcall, hemit⟩ := ClientEvents.own_pays (ClientEvents.step_change h) t
  cases p with
  | add u =>
    obtain rfl : u = t := of_decide_eq_true hown
    obtain ⟨toggleSet, enabled, variant, hat⟩ := stands_add.mp hp
    cases ha
    rw [ClientEvents.ownCall_self, hat, ClientEvents.callLeft_record] at hcall
    refine decide_eq_false ?_
    omega
  | copyContext u =>
    obtain rfl : u = t := of_decide_eq_true hown
    obtain ⟨toggleSet, enabled, variant, impression, hat⟩ := stands_copyContext.mp hp
    cases ha
    rw [ClientEvents.ownCall_self, hat, ClientEvents.callLeft_copyContext] at hcall
    refine decide_eq_false ?_
    omega
  | push k =>
    obtain rfl : k = evaluationCall t := of_decide_eq_true hown
    obtain ⟨cb, hat⟩ := stands_push.mp hp
    cases ha
    rw [ClientEvents.ownEmit_of_call rfl, hat, EventHandler.emitLeft_push] at hemit
    refine decide_eq_false ?_
    omega
  | _ => cases hown

/-- A section that is behind the evaluation stays behind it. -/
theorem needs_step {J : JsonLib} {P : StorageProvider σ} {config : ClientConfig}
    {query : Nat → Query} {event : Nat → ClientEvent} {b b' : ClientEvents.State σ C}
    {a : ClientEvents.Act C} (h : ClientEvents.step J P config query event b a = some b') {t : Nat}
    {m : Mutex} (hneeds : needs b' t m = true) : needs b t m = true := by
  obtain ⟨hcall, hemit⟩ := ClientEvents.own_pays (ClientEvents.step_change h) t
  cases m <;> simp only [needs, decide_eq_true_eq] at hneeds ⊢ <;> omega

theorem lockSteps_le {s s' : State σ C} {t : Nat} {m : Mutex}
    (hneeds : needs s'.base t m = true → needs s.base t m = true)
    (hhas : needs s'.base t m = true → s'.has t m = s.has t m) :
    lockSteps s' t m ≤ lockSteps s t m := by
  unfold lockSteps
  cases hafter : needs s'.base t m with
  | false => exact Nat.zero_le _
  | true => rw [hneeds hafter, hhas hafter]

theorem has_goInside_of_ne (s : State σ C) (t : Nat) {m m' : Mutex} (hm : m' ≠ m)
    (p : Option (Inside m)) : (s.goInside m p).has t m' = s.has t m' := by
  simp only [State.has, s.goInside_of_ne hm]

theorem has_goInside_self (s : State σ C) (t : Nat) (m : Mutex) (p : Option (Inside m)) :
    (s.goInside m p).has t m = p.any (Inside.own t) := by
  simp only [State.has, s.goInside_self]

/-- Nobody becomes the evaluation in the course of a section. -/
theorem not_own_next {s : State σ C} {t : Nat} {m : Mutex} (p : Inside m) :
    (p.next s).any (Inside.own t) = false := by
  cases p with
  | testEmpty | predicate timedOut =>
    simp only [Inside.next]
    split <;> rfl
  | testExit =>
    simp only [Inside.next]
    split <;> rfl
  | _ => rfl

/-- Whoever takes a mutex: for the evaluation that is one step less. -/
theorem lockSteps_acquire {s : State σ C} {m : Mutex} {p : Inside m} (hheld : s.held m = none)
    (hstands : p.stands s.base = true) (t : Nat) :
    ∑ m', lockSteps (s.goInside m (some p)) t m' + (if p.own t then 1 else 0) ≤
      ∑ m', lockSteps s t m' := by
  refine Machine.pay_from ?_ fun m' hm' =>
    lockSteps_le id fun _ => has_goInside_of_ne s t hm' (some p)
  have hbefore : s.has t m = false := by simp [State.has, hheld]
  have hafter : (s.goInside m (some p)).has t m = p.own t := has_goInside_self s t m (some p)
  cases hown : p.own t with
  | true =>
    have hneeds := needs_of_stands hstands hown
    simp [lockSteps, hown, hafter, hbefore, hneeds]
  | false => simp [lockSteps, hown, hafter, hbefore]

/-- A statement of a section: the evaluation does not come to need the mutex again. -/
theorem lockSteps_inside (query : Nat → Query) {s : State σ C} {m : Mutex} {p : Inside m}
    (hp : s.held m = some p) {b : ClientEvents.State σ C} {t : Nat}
    (hneeds : ∀ m', needs b t m' = true → needs s.base t m' = true)
    (hbehind : p.own t = true → needs b t m = false) :
    ∑ m', lockSteps { (p.write query s).goInside m (p.next s) with base := b } t m' ≤
      ∑ m', lockSteps s t m' := by
  refine Finset.sum_le_sum fun m' _ => lockSteps_le (hneeds m') fun hstill => ?_
  by_cases hm : m' = m
  · subst hm
    have hafter : State.has { (p.write query s).goInside m' (p.next s) with base := b } t m' =
        false := (has_goInside_self _ t m' _).trans (not_own_next p)
    have hbefore : s.has t m' = p.own t := by simp [State.has, hp]
    rw [hafter, hbefore, eq_comm, Bool.eq_false_iff]
    intro hown
    rw [hbehind hown] at hstill
    cases hstill
  · have hafter : State.has { (p.write query s).goInside m (p.next s) with base := b } t m' =
        (p.write query s).has t m' := has_goInside_of_ne _ t hm _
    rw [hafter]
    simp only [State.has, Inside.write_held]

/-- **Step lemma.** -/
theorem own_pays {J : JsonLib} {P : StorageProvider σ} {config : ClientConfig}
    {query : Nat → Query} {event : Nat → ClientEvent} {s s' : State σ C} {a : Act C}
    (hinv : Inv s) (hc : Change J P config query event s a s') (t : Nat) :
    ownStep t s a + ownLeft s' t ≤ ownLeft s t := by
  cases hc with
  | base a b hmutex hqueue hb =>
    obtain ⟨hcall, hemit⟩ := ClientEvents.own_pays (ClientEvents.step_change hb) t
    have hlocks : ∑ m, lockSteps { s with base := b } t m ≤ ∑ m, lockSteps s t m :=
      Finset.sum_le_sum fun m _ => lockSteps_le (needs_step hb) fun _ => rfl
    simp only [ownStep, ClientEvents.ownStep, ownLeft] at hlocks ⊢
    omega
  | acquire m p hfree hfirst hstands =>
    have hheld : s.held m = none := Option.isNone_iff_eq_none.mp (Bool.and_eq_true_iff.mp hfree).1
    have hlocks := lockSteps_acquire hheld hstands t
    simp only [ownStep, ownLeft, State.goInside_base] at hlocks ⊢
    omega
  | statement m p hp hact =>
    -- it is not the evaluation's, which takes a step of the client in its sections
    have hown : p.own t = false := by
      rw [Bool.eq_false_iff]
      intro hown
      obtain ⟨-, a, ha, -⟩ := own_statement (C := C) hown s
      cases hact.symm.trans ha
    have hcount : ownStep t s (.inside m : Act C) = 0 := by simp [ownStep, State.has, hp, hown]
    have hlocks := lockSteps_inside query hp (b := s.base) (t := t) (fun _ => id)
      fun hmine => by rw [hown] at hmine; cases hmine
    have hsame : (p.write query s).goInside m (p.next s) =
        { (p.write query s).goInside m (p.next s) with base := s.base } := by
      rw [← Inside.write_base query s p]
      rfl
    rw [hcount, Nat.zero_add, hsame]
    exact Nat.add_le_add_left hlocks _
  | act m p a b hp hact hb =>
    obtain ⟨hcall, hemit⟩ := ClientEvents.own_pays (ClientEvents.step_change hb) t
    have hcount : ownStep t s (.inside m : Act C) ≤ ClientEvents.ownStep t a := by
      cases hmine : p.own t with
      | false => simp [ownStep, State.has, hp, hmine]
      | true =>
        obtain ⟨-, a', ha', hone⟩ := own_statement (C := C) hmine s
        obtain rfl : a = a' := Option.some.inj (hact.symm.trans ha')
        simp [ownStep, State.has, hp, hmine, hone]
    have hlocks := lockSteps_inside query hp (t := t) (fun _ => needs_step hb)
      fun hmine => needs_behind hb (hinv.stands m p hp) hmine hact
    simp only [ClientEvents.ownStep] at hcount
    simp only [ownLeft] at hlocks ⊢
    omega

/-! ## The others -/

/-- The statements of a section that are left at most. -/
def Inside.left : {m : Mutex} → Inside m → Nat
  | _, .testEmpty | _, .predicate _ => 4
  | _, .copyList | _, .testExit => 3
  | _, .copyStart | _, .clearUpdated | _, .clearList _ | _, .update _ => 2
  | _, _ => 1

theorem Inside.left_pos {m : Mutex} (p : Inside m) : 1 ≤ p.left := by
  cases p <;> simp [Inside.left]

theorem Inside.left_le {m : Mutex} (p : Inside m) : p.left ≤ 4 := by
  cases p <;> simp [Inside.left]

theorem next_left {s : State σ C} {m : Mutex} {p q : Inside m} (hq : p.next s = some q) :
    q.left + 1 ≤ p.left := by
  cases p with
  | testEmpty | predicate timedOut =>
    simp only [Inside.next] at hq
    split at hq <;> cases hq
    exact Nat.le_refl _
  | testExit =>
    simp only [Inside.next] at hq
    split at hq <;> cases hq <;> decide
  | copyList | copyStart | clearList _ | clearUpdated | update _ =>
    cases hq
    exact Nat.le_refl _
  | _ => cases hq

/-- The statements until a mutex is given back, if another thread has it. -/
def othersLeft (s : State σ C) (t : Nat) (m : Mutex) : Nat :=
  match s.held m with
  | none => 0
  | some p => if p.own t then 0 else p.left

/-- The steps that are left at most until an evaluation has returned, if nobody begins anything. -/
def stepsLeft (s : State σ C) (t : Nat) : Nat :=
  ownLeft s t + ∑ m, othersLeft s t m + lockLeft s.base.events.loop

theorem othersLeft_le (s : State σ C) (t : Nat) (m : Mutex) : othersLeft s t m ≤ 4 := by
  unfold othersLeft
  split
  · decide
  · rename_i p hp
    split
    · decide
    · exact p.left_le

/-- The queue's mutex has one holder, a thread in a section or the event thread. -/
theorem queueLeft_le {s : State σ C} (hinv : Inv s) (t : Nat) :
    othersLeft s t .queue + lockLeft s.base.events.loop ≤ 2 := by
  have hlock := EventHandler.lockLeft_le s.base.events.loop
  unfold othersLeft
  split
  · omega
  · rename_i p hp
    rw [EventHandler.lockLeft_of_free (hinv.queue p hp)]
    cases p <;> split <;> simp [Inside.left]

theorem stepsLeft_le {s : State σ C} (hinv : Inv s) (t : Nat) : stepsLeft s t ≤ 26 := by
  have hown := ownLeft_le s t
  have hmetrics := othersLeft_le s t .metrics
  have hpolling := othersLeft_le s t .polling
  have hqueue := queueLeft_le hinv t
  have hsum : ∑ m, othersLeft s t m =
      othersLeft s t .metrics + (othersLeft s t .polling + othersLeft s t .queue) := by
    have huniv : (Finset.univ : Finset Mutex) = {.metrics, .polling, .queue} := rfl
    rw [huniv, Finset.sum_insert (by decide), Finset.sum_insert (by decide), Finset.sum_singleton]
  unfold stepsLeft
  omega

/-- The steps that an evaluation has to wait for: its own, those of a thread that has a mutex, and
    those of the event thread while it has the queue's. -/
def Helps (t : Nat) (s : State σ C) (a : Act C) : Prop :=
  ownStep t s a = 1 ∨ (∃ m, a = .inside m) ∨
    (a = .base (.events .loop) ∧ s.base.events.loop.holds = true)

/-- What a step does that brings an evaluation nearer to its end. -/
structure Advance (t : Nat) (s s' : State σ C) : Prop where
  left : stepsLeft s' t + 1 ≤ stepsLeft s t
  executed : s'.base.events.executed = s.base.events.executed
  threw : s'.base.client.polling.isThrew = false

/-- There is a step that the evaluation has to wait for, and it brings it nearer to its end. -/
def GoesOn (J : JsonLib) (P : StorageProvider σ) (config : ClientConfig) (query : Nat → Query)
    (event : Nat → ClientEvent) (t : Nat) (s : State σ C) : Prop :=
  ∃ a s', step J P config query event s a = some s' ∧ Helps t s a ∧ Advance t s s'

/-- A step of the client in a section: nothing holds it up. -/
theorem act_goes_on (J : JsonLib) (P : StorageProvider σ) (config : ClientConfig)
    (query : Nat → Query) (event : Nat → ClientEvent) {s : State σ C} (hinv : Inv s)
    (hthrew : s.base.client.polling.isThrew = false) {m : Mutex} {p : Inside m}
    (hp : s.held m = some p) {a : ClientEvents.Act C} (ha : p.act = some a) :
    ∃ b, ClientEvents.step J P config query event s.base a = some b ∧
      b.events.loop = s.base.events.loop ∧ b.events.executed = s.base.events.executed ∧
      b.client.polling.isThrew = false := by
  have hstands := hinv.stands m p hp
  -- an evaluation in a section is not at its emit call
  have hevaluation : ∀ t, (∀ answer, s.base.client.calls t ≠ .returned answer) →
      ClientEvents.waits query s.base (.call t) = false →
      ∃ b, ClientEvents.step J P config query event s.base (.client (.call t)) = some b ∧
        b.events.loop = s.base.events.loop ∧ b.events.executed = s.base.events.executed ∧
        b.client.polling.isThrew = false := by
    intro t hreturned hfree
    obtain ⟨c, hcall, hstep⟩ := ClientEvents.call_goes_on J P config query hthrew hreturned hfree
    exact ⟨_, hstep event, rfl, rfl, (ClientMachine.callChange_frame hcall).polling ▸ hthrew⟩
  have hpoll : ClientMachine.step J P config query s.base.client .poll =
      ClientMachine.pollStep P config s.base.client s.base.client.polling := by
    simp only [ClientMachine.step, hthrew, Bool.false_eq_true, if_false]
  cases p with
  | add t =>
    cases ha
    obtain ⟨toggleSet, enabled, variant, hat⟩ := stands_add.mp hstands
    exact hevaluation t (fun answer h => by cases hat.symm.trans h)
      (by simp [ClientEvents.waits, hat, ClientEvents.emitting])
  | copyContext t =>
    cases ha
    obtain ⟨toggleSet, enabled, variant, impression, hat⟩ := stands_copyContext.mp hstands
    exact hevaluation t (fun answer h => by cases hat.symm.trans h)
      (by simp [ClientEvents.waits, hat, ClientEvents.emitting])
  | copy =>
    cases ha
    obtain ⟨hat, howed⟩ := stands_copy.mp hstands
    rw [hat] at hpoll
    exact ⟨_, ClientEvents.step_client event hpoll (by simp [ClientEvents.waits, howed]), rfl, rfl,
      rfl⟩
  | copyAwake =>
    cases ha
    obtain ⟨hat, howed⟩ := stands_copyAwake.mp hstands
    rw [hat] at hpoll
    exact ⟨_, ClientEvents.step_client event hpoll (by simp [ClientEvents.waits, howed]), rfl, rfl,
      rfl⟩
  | update mutableContext =>
    cases ha
    have hupdate : ClientMachine.step J P config query s.base.client
        (.updateContext mutableContext) = some { s.base.client with
          context := s.base.client.context.updateMutableContext mutableContext } := by
      simp only [ClientMachine.step, hthrew, Bool.false_eq_true, if_false]
    exact ⟨_, ClientEvents.step_client event hupdate rfl, rfl, rfl, hthrew⟩
  | push k =>
    cases ha
    obtain ⟨cb, hat⟩ := stands_push.mp hstands
    refine ⟨{ s.base with events := EventHandler.pushTask s.base.events ⟨k, cb, event k⟩ }, ?_, ?_,
      ?_, hthrew⟩
    · simp only [ClientEvents.step, ClientEvents.mayTake, if_true, EventHandler.step, hat,
        hinv.queue _ hp, Bool.false_eq_true, if_false, Option.map_some]
    · simp only [EventHandler.pushTask]
      split <;> rfl
    · simp only [EventHandler.pushTask]
      split <;> rfl
  | swap =>
    cases ha
    have hat := stands_swap.mp hstands
    refine ⟨{ s.base with
      events := { s.base.events with queue := [], control := .notifyAll } }, ?_, rfl, rfl, hthrew⟩
    simp only [ClientEvents.step, ClientEvents.mayTake, if_true, EventHandler.step, hat,
      EventHandler.controlStep, hinv.queue _ hp, Bool.false_eq_true, if_false, Option.map_some]
  | _ => cases ha

theorem othersLeft_goInside_of_ne (s : State σ C) (t : Nat) {m m' : Mutex} (hm : m' ≠ m)
    (p : Option (Inside m)) : othersLeft (s.goInside m p) t m' = othersLeft s t m' := by
  simp only [othersLeft, s.goInside_of_ne hm]

/-- A statement leaves less of its section, unless that is the evaluation's own. -/
theorem othersLeft_inside (query : Nat → Query) {s : State σ C} (t : Nat) {m : Mutex}
    {p : Inside m} (hp : s.held m = some p) :
    ∑ m', othersLeft ((p.write query s).goInside m (p.next s)) t m' +
        (if p.own t then 0 else 1) ≤ ∑ m', othersLeft s t m' := by
  refine Machine.pay_from (i := m) ?_ fun m' hm' => ?_
  · simp only [othersLeft, State.goInside_self, hp]
    cases hown : p.own t with
    | true => simp [(own_statement (C := C) hown s).1]
    | false =>
      cases hnext : p.next s with
      | none => simpa using p.left_pos
      | some q =>
        have hless := next_left hnext
        have hother := not_own_next (t := t) (s := s) p
        rw [hnext, Option.any_some] at hother
        simpa [hother] using hless
  · rw [othersLeft_goInside_of_ne _ t hm']
    simp only [othersLeft, Inside.write_held, Nat.le_refl]

/-- **Whoever has a mutex can go on.** -/
theorem inside_goes_on (J : JsonLib) (P : StorageProvider σ) (config : ClientConfig)
    (query : Nat → Query) (event : Nat → ClientEvent) {s : State σ C} (hinv : Inv s) (t : Nat)
    (hthrew : s.base.client.polling.isThrew = false) {m : Mutex} {p : Inside m}
    (hp : s.held m = some p) :
    ∃ s', step J P config query event s (.inside m) = some s' ∧ Advance t s s' := by
  have hothers := othersLeft_inside query t hp
  have hhas : s.has t m = p.own t := by simp [State.has, hp]
  cases hact : (p.act : Option (ClientEvents.Act C)) with
  | none =>
    have hstep : step J P config query event s (.inside m) =
        some ((p.write query s).goInside m (p.next s)) := by
      simp only [step, hp, hact]
    have hpays := own_pays hinv (step_change hstep) t
    refine ⟨_, hstep, ?_, by simp, by simpa using hthrew⟩
    simp only [stepsLeft, ownStep, hhas, State.goInside_base, Inside.write_base] at hpays ⊢
    cases hown : p.own t <;> simp only [hown, if_true, if_false, Bool.false_eq_true] at * <;> omega
  | some a =>
    obtain ⟨b, hb, hloop, hexecuted, hthrew'⟩ :=
      act_goes_on J P config query event hinv hthrew hp hact
    have hstep : step J P config query event s (.inside m) =
        some { (p.write query s).goInside m (p.next s) with base := b } := by
      simp only [step, hp, hact, hb, Option.map_some]
    have hpays := own_pays hinv (step_change hstep) t
    refine ⟨_, hstep, ?_, hexecuted, hthrew'⟩
    have hsame : ∑ m', othersLeft { (p.write query s).goInside m (p.next s) with base := b } t m' =
        ∑ m', othersLeft ((p.write query s).goInside m (p.next s)) t m' := rfl
    simp only [stepsLeft, ownStep, hhas, hloop, hsame] at hpays ⊢
    cases hown : p.own t <;> simp only [hown, if_true, if_false, Bool.false_eq_true] at * <;> omega

/-- A step of the client outside its critical sections, of the evaluation or of the event thread
    while that has the queue's mutex. -/
theorem base_goes_on {J : JsonLib} {P : StorageProvider σ} {config : ClientConfig}
    {query : Nat → Query} {event : Nat → ClientEvent} {s : State σ C} (hinv : Inv s) {t : Nat}
    {a : ClientEvents.Act C} {b : ClientEvents.State σ C}
    (hb : ClientEvents.step J P config query event s.base a = some b)
    (hmutex : mutexOf s.base a = none) (htakes : takesQueue s.base a = false)
    (hpaid : lockLeft b.events.loop + 1 ≤
      ClientEvents.ownStep t a + lockLeft s.base.events.loop)
    (hexecuted : b.events.executed = s.base.events.executed)
    (hthrew : b.client.polling.isThrew = false) :
    ∃ s', step J P config query event s (.base a) = some s' ∧ Advance t s s' := by
  have hstep : step J P config query event s (.base a) = some { s with base := b } := by
    simp only [step, hmutex, htakes, Option.isSome_none, Bool.false_and, Bool.or_self,
      Bool.false_eq_true, if_false, hb, Option.map_some]
  have hpays := own_pays hinv (step_change hstep) t
  refine ⟨_, hstep, ?_, hexecuted, hthrew⟩
  have hsame : ∑ m, othersLeft { s with base := b } t m = ∑ m, othersLeft s t m := rfl
  simp only [stepsLeft, ownStep, hsame] at hpays ⊢
  omega

/-- **An evaluation before a critical section.**  It takes the mutex, or whoever has it goes on. -/
theorem section_goes_on (J : JsonLib) (P : StorageProvider σ) (config : ClientConfig)
    (query : Nat → Query) (event : Nat → ClientEvent) {s : State σ C} (hinv : Inv s) {t : Nat}
    (hthrew : s.base.client.polling.isThrew = false) {m : Mutex} {p : Inside m}
    (hstands : p.stands s.base = true) (hfirst : p.first = true) (hown : p.own t = true) :
    GoesOn J P config query event t s := by
  cases hheld : s.held m with
  | some q =>
    obtain ⟨s', hs', hadvance⟩ := inside_goes_on J P config query event hinv t hthrew hheld
    exact ⟨.inside m, s', hs', Or.inr (Or.inl ⟨m, rfl⟩), hadvance⟩
  | none =>
    cases hfree : free s m with
    | true =>
      have hstep : step J P config query event s (.acquire m p) =
          some (s.goInside m (some p)) := by
        simp only [step, hfree, hfirst, hstands, Bool.and_self, if_true]
      have hpays := own_pays hinv (step_change hstep) t
      have hone : ownStep t s (.acquire m p : Act C) = 1 := if_pos hown
      have hothers : ∑ m', othersLeft (s.goInside m (some p)) t m' = ∑ m', othersLeft s t m' := by
        refine Finset.sum_congr rfl fun m' _ => ?_
        by_cases hm : m' = m
        · subst hm
          simp only [othersLeft, State.goInside_self, hown, if_true, hheld]
        · exact othersLeft_goInside_of_ne s t hm (some p)
      refine ⟨.acquire m p, _, hstep, Or.inl hone, ?_, rfl, hthrew⟩
      simp only [stepsLeft, hothers, State.goInside_base] at hpays ⊢
      omega
    | false =>
      -- the event thread has it
      obtain ⟨rfl, hholds⟩ : m = .queue ∧ s.base.events.loop.holds = true := by
        cases m <;> simp_all [free]
      obtain ⟨e, he, hless, hcalls, hexecuted⟩ := EventHandler.lock_goes_on event hholds
      have hb : ClientEvents.step J P config query event s.base (.events .loop) =
          some { s.base with events := e } := by
        simp only [ClientEvents.step, ClientEvents.mayTake, if_true, EventHandler.step] at he ⊢
        rw [he, Option.map_some]
      have htakes : takesQueue s.base (.events .loop) = false := by
        simp only [takesQueue]
        generalize s.base.events.loop = l at hholds
        cases l with
        | lock | woken | relock => cases hholds
        | _ => rfl
      obtain ⟨s', hs', hadvance⟩ := base_goes_on hinv (t := t) hb rfl htakes
        (hless.trans (Nat.le_add_left _ _)) hexecuted hthrew
      exact ⟨_, s', hs', Or.inr (Or.inr ⟨rfl, hholds⟩), hadvance⟩

/-- **An evaluation at its emit call**, with what it emits. -/
theorem emit_goes_on (J : JsonLib) (P : StorageProvider σ) (config : ClientConfig)
    (query : Nat → Query) (event : Nat → ClientEvent) {s : State σ C} (hinv : Inv s) {t : Nat}
    (hthrew : s.base.client.polling.isThrew = false) {e : ClientEvent}
    (he : ClientEvents.emitting (query t) (s.base.client.calls t) = some e)
    (hrunning : ∀ outcome, s.base.events.calls (evaluationCall t) ≠ .returned outcome) :
    ∃ event' : Nat → ClientEvent, (∀ k, s.base.events.calls k ≠ .new → event' k = event k) ∧
      GoesOn J P config query event' t s := by
  -- a step of the emit call outside its critical section
  have hown : ∀ (event' : Nat → ClientEvent) (a : EventHandler.Act C) (e' : EventHandler.State C),
      EventHandler.step event' s.base.events a = some e' →
      ClientEvents.mayTake query event' s.base a = true → a.call = some (evaluationCall t) →
      mutexOf s.base (.events a) = none → takesQueue s.base (.events a) = false →
      lockLeft e'.loop ≤ lockLeft s.base.events.loop → e'.executed = s.base.events.executed →
      GoesOn J P config query event' t s := by
    intro event' a e' he' hmay hcall hmutex htakes hlock hexecuted
    have hb : ClientEvents.step J P config query event' s.base (.events a) =
        some { s.base with events := e' } := by
      simp only [ClientEvents.step, hmay, if_true, he', Option.map_some]
    have hone : ClientEvents.ownStep t (.events a : ClientEvents.Act C) = 1 :=
      ClientEvents.ownStep_of_call hcall
    obtain ⟨s', hs', hadvance⟩ := base_goes_on hinv (t := t) hb hmutex htakes (by
      rw [hone]
      exact Nat.add_comm 1 _ ▸ Nat.add_le_add_left hlock 1) hexecuted hthrew
    exact ⟨_, s', hs', Or.inl hone, hadvance⟩
  cases hk : s.base.events.calls (evaluationCall t) with
  | returned outcome => exact absurd hk (hrunning outcome)
  | new =>
    -- what it emits has not been of any consequence yet
    refine ⟨Function.update event (evaluationCall t) e, fun k hne => ?_,
      hown _ (.enter (evaluationCall t)) (s.base.events.goto (evaluationCall t)
        (if s.base.events.started then .load else .returned .notStarted))
      (by simp only [EventHandler.step, hk])
      (by simp [ClientEvents.mayTake, ClientEvents.mayEmit, he]) rfl rfl rfl (Nat.le_refl _) rfl⟩
    refine Function.update_of_ne ?_ _ _
    rintro rfl
    exact hne hk
  | load =>
    refine ⟨event, fun _ _ => rfl, ?_⟩
    cases hcb : s.base.events.slots (event (evaluationCall t)).kind with
    | none =>
      exact hown event (.load (evaluationCall t))
        (s.base.events.goto (evaluationCall t) (.returned .noCallback))
        (by simp only [EventHandler.step, hk, hcb]) rfl rfl rfl rfl (Nat.le_refl _) rfl
    | some cb =>
      exact hown event (.load (evaluationCall t))
        (s.base.events.goto (evaluationCall t) (.push cb))
        (by simp only [EventHandler.step, hk, hcb]) rfl rfl rfl rfl (Nat.le_refl _) rfl
  | push cb =>
    exact ⟨event, fun _ _ => rfl, section_goes_on J P config query event hinv hthrew
      (p := .push (evaluationCall t)) (stands_push.mpr ⟨cb, hk⟩) rfl (decide_eq_true rfl)⟩
  | notify outcome =>
    have hlock : lockLeft s.base.events.loop.notified ≤ lockLeft s.base.events.loop := by
      cases s.base.events.loop <;> simp [EventHandler.LoopPc.notified, lockLeft]
    exact ⟨event, fun _ _ => rfl, hown event (.notify (evaluationCall t))
      (EventHandler.State.goto { s.base.events with loop := s.base.events.loop.notified }
        (evaluationCall t) (.returned outcome))
      (by simp only [EventHandler.step, hk]) rfl rfl rfl rfl hlock rfl⟩

/-- **An evaluation can always be brought nearer to its end.** -/
theorem goes_on (J : JsonLib) (P : StorageProvider σ) (config : ClientConfig)
    (query : Nat → Query) (event : Nat → ClientEvent) {s : State σ C} (hinv : Inv s) {t : Nat}
    (hthrew : s.base.client.polling.isThrew = false)
    (hrunning : ∀ answer, s.base.client.calls t ≠ .returned answer) :
    ∃ event' : Nat → ClientEvent, (∀ k, s.base.events.calls k ≠ .new → event' k = event k) ∧
      GoesOn J P config query event' t s := by
  -- a step of the call outside its critical sections
  have hown : mutexOf s.base (.client (.call t) : ClientEvents.Act C) = none →
      ClientEvents.waits query s.base (.call t) = false → GoesOn J P config query event t s := by
    intro hmutex hfree
    obtain ⟨c, hcall, hstep⟩ := ClientEvents.call_goes_on J P config query hthrew hrunning hfree
    have hone : ClientEvents.ownStep t (.client (.call t) : ClientEvents.Act C) = 1 :=
      ClientEvents.ownStep_self t
    obtain ⟨s', hs', hadvance⟩ := base_goes_on hinv (t := t) (hstep event) hmutex rfl
      (by rw [hone, Nat.add_comm]) rfl ((ClientMachine.callChange_frame hcall).polling ▸ hthrew)
    exact ⟨_, s', hs', Or.inl hone, hadvance⟩
  cases hp : s.base.client.calls t with
  | returned answer => exact absurd hp (hrunning answer)
  | record toggleSet enabled variant =>
    exact ⟨event, fun _ _ => rfl, section_goes_on J P config query event hinv hthrew
      (p := .add t) (stands_add.mpr ⟨_, _, _, hp⟩) rfl (decide_eq_true rfl)⟩
  | copyContext toggleSet enabled variant impression =>
    exact ⟨event, fun _ _ => rfl, section_goes_on J P config query event hinv hthrew
      (p := .copyContext t) (stands_copyContext.mpr ⟨_, _, _, _, hp⟩) rfl (decide_eq_true rfl)⟩
  | emit toggleSet enabled variant impression ctx =>
    by_cases hemitted : ClientEvents.returned s.base.events (evaluationCall t) = true
    · exact ⟨event, fun _ _ => rfl, hown (by simp only [mutexOf, hp])
        (by simp only [ClientEvents.waits, hemitted, Bool.not_true, Bool.and_false])⟩
    · exact emit_goes_on J P config query event hinv hthrew (by rw [hp]; rfl)
        fun outcome hk => hemitted (ClientEvents.returned_iff.mpr ⟨outcome, hk⟩)
  | _ =>
    exact ⟨event, fun _ _ => rfl, hown (by simp only [mutexOf, hp])
      (by simp only [ClientEvents.waits, hp, ClientEvents.emitting, Option.isSome_none,
        Bool.false_and])⟩

/-! ## What is foretold -/

/-- An emit call that has begun is not new again. -/
theorem not_new_step {J : JsonLib} {P : StorageProvider σ} {config : ClientConfig}
    {query : Nat → Query} {event : Nat → ClientEvent} {s s' : State σ C} {a : Act C}
    (h : step J P config query event s a = some s') {k : Nat}
    (hk : s.base.events.calls k ≠ .new) : s'.base.events.calls k ≠ .new := by
  cases step_change h with
  | base a b hmutex hqueue hb => exact ClientEvents.not_new_step hb hk
  | acquire m p hfree hfirst hstands => exact hk
  | statement m p hp hact => simpa using hk
  | act m p a b hp hact hb => exact ClientEvents.not_new_step hb hk

/-- A step depends only on what the calls emit that have begun by its end. -/
theorem step_agree {J : JsonLib} {P : StorageProvider σ} {config : ClientConfig}
    {query : Nat → Query} {event event' : Nat → ClientEvent} {s s' : State σ C} {a : Act C}
    (h : step J P config query event s a = some s')
    (hagree : ∀ k, s'.base.events.calls k ≠ .new → event' k = event k) :
    step J P config query event' s a = some s' := by
  have hsame : ∀ a b, ClientEvents.step J P config query event s.base a = some b →
      (∀ k, b.events.calls k ≠ .new → event' k = event k) →
      ClientEvents.step J P config query event' s.base a =
        ClientEvents.step J P config query event s.base a :=
    fun a b hb hk => (ClientEvents.step_agree hb hk).trans hb.symm
  cases step_change h with
  | base a b hmutex hqueue hb =>
    rw [← h]
    simp only [step, hsame a b hb hagree]
  | acquire m p hfree hfirst hstands => exact h
  | statement m p hp hact =>
    rw [← h]
    simp only [step, hp, hact]
  | act m p a b hp hact hb =>
    rw [← h]
    simp only [step, hp, hact, hsame a b hb hagree]

/-- **Run lemma.** -/
theorem run_agree {J : JsonLib} {P : StorageProvider σ} {config : ClientConfig}
    {query : Nat → Query} {event event' : Nat → ClientEvent} {s₀ s : State σ C} {as : List (Act C)}
    (hrun : Machine.run (step J P config query event) s₀ as = some s)
    (hagree : ∀ k, s.base.events.calls k ≠ .new → event' k = event k) :
    Machine.run (step J P config query event') s₀ as = some s := by
  refine Machine.run_history (I := fun s as =>
    (∀ k, s.base.events.calls k ≠ .new → event' k = event k) →
      Machine.run (step J P config query event') s₀ as = some s) (fun _ => rfl) ?_ hrun hagree
  intro as u a v _ ih hv hagree
  exact Machine.run_snoc.mpr
    ⟨u, ih fun k hk => hagree k (not_new_step hv hk), step_agree hv hagree⟩

/-! ## What holds of every run -/

/-- **An evaluation can be brought to its end**, by the steps that it has to wait for alone. -/
theorem finishes (J : JsonLib) (P : StorageProvider σ) (config : ClientConfig)
    (query : Nat → Query) (event : Nat → ClientEvent) {s : State σ C} (hinv : Inv s) (t : Nat)
    (hthrew : s.base.client.polling.isThrew = false) :
    ∃ event' : Nat → ClientEvent, ∃ bs s',
      (∀ k, s.base.events.calls k ≠ .new → event' k = event k) ∧
      Machine.run (step J P config query event') s bs = some s' ∧
      Machine.Meets (step J P config query event') (Helps t) s bs ∧
      (∃ answer, s'.base.client.calls t = .returned answer) ∧ bs.length ≤ stepsLeft s t ∧
      s'.base.events.executed = s.base.events.executed := by
  generalize hn : stepsLeft s t = n
  induction n using Nat.strong_induction_on generalizing s event with
  | _ n ih =>
    by_cases hreturned : ∃ answer, s.base.client.calls t = .returned answer
    · exact ⟨event, [], s, fun _ _ => rfl, rfl, trivial, hreturned, Nat.zero_le _, rfl⟩
    · obtain ⟨event₁, hagree₁, a, u, hu, hhelps, hadvance⟩ :=
        goes_on J P config query event hinv hthrew fun answer h => hreturned ⟨answer, h⟩
      have hless := hadvance.left
      obtain ⟨event₂, bs, s', hagree₂, hrun, hmeets, hs', hlength, hexecuted⟩ :=
        ih (stepsLeft u t) (by omega) event₁ (inv_change hinv (step_change hu)) hadvance.threw rfl
      -- what is foretold for the steps to come was open at the first one
      have hfirst : step J P config query event₂ s a = some u := step_agree hu hagree₂
      refine ⟨event₂, a :: bs, s', fun k hk => ?_, ?_, ⟨hhelps, ?_⟩, hs', ?_,
        hexecuted.trans hadvance.executed⟩
      · exact (hagree₂ k (not_new_step hu hk)).trans (hagree₁ k hk)
      · exact (Machine.run_cons_of_step hfirst bs).trans hrun
      · rw [hfirst]
        exact hmeets
      · rw [List.length_cons]
        omega

/-- **Evaluations wait for critical sections only.**  In every run the client does what it may do
    without its mutexes, too, and an evaluation takes sixteen steps at most, those of its emit call
    and of its mutexes included.  And as long as no exception has ended the process, every run can
    be continued to one in which the evaluation has returned, by twenty-six steps at most: its own,
    those of threads that are in a critical section, and those of the event thread while it has the
    queue's mutex; no callback is executed. -/
theorem evaluation_returns (J : JsonLib) (P : StorageProvider σ) (config : ClientConfig)
    (query : Nat → Query) (event : Nat → ClientEvent) (client : UnleashClient σ) (ctx : Context)
    (store : MetricsStore) (as : List (Act C)) (s : State σ C)
    (hrun : Machine.run (step J P config query event) (initial client ctx store) as = some s) :
    Machine.run (ClientEvents.step J P config query event) (ClientEvents.initial client ctx)
      (Machine.answers (step J P config query event) baseActs (initial client ctx store) as) =
        some s.base ∧
    (∀ t, Machine.total (step J P config query event) (ownStep t) (initial client ctx store) as ≤
      16) ∧
    ∀ t, s.base.client.polling.isThrew = false → ∃ event' bs s',
      Machine.run (step J P config query event') (initial client ctx store) (as ++ bs) = some s' ∧
      (∃ answer, s'.base.client.calls t = .returned answer) ∧ bs.length ≤ 26 ∧
      Machine.Meets (step J P config query event') (Helps t) s bs ∧
      s'.base.events.executed = s.base.events.executed := by
  refine ⟨?_, fun t => ?_, fun t hthrew => ?_⟩
  · obtain ⟨b, hb, rfl⟩ := (simulates_base J P config query event).run rfl hrun
    exact hb
  · refine (Machine.total_le_balance (fun s => ownLeft s t) Inv
      (fun _ _ _ hu hv => inv_change hu (step_change hv))
      (fun _ _ _ hu hv => own_pays hu (step_change hv) t)
      (inv_initial client ctx store) hrun).trans (ownLeft_le _ t)
  · have hinv := inv_run hrun
    obtain ⟨event', bs, s', hagree, hbs, hmeets, hreturned, hlength, hexecuted⟩ :=
      finishes J P config query event hinv t hthrew
    exact ⟨event', bs, s', Machine.run_append.mpr ⟨s, run_agree hrun hagree, hbs⟩, hreturned,
      hlength.trans (stepsLeft_le hinv t), hmeets, hexecuted⟩

/-- Every call is `isEnabled("a")`. -/
def isEnabledStep (event : Nat → ClientEvent) :
    State Unit Nat → Act Nat → Option (State Unit Nat) :=
  step JsonText.compact localStorageProvider ClientMachine.allImpressions
    (fun _ => ⟨.isEnabled, bytes "a"⟩) event

def hearing : State Unit Nat :=
  initial ClientMachine.variantClient UnleashClient.plainContext (MetricsStore.make [] [] 0)

/-- An evaluation is to be counted while the metrics thread is in `reset`.  An `updateContext` has
    the polling mutex, and the event thread that of the queue. -/
def heldUp : List (Act Nat) :=
  [.base (.events (.register .impression (some 0))), .base (.events .start),
    .base (.events .control), .acquire .polling (.update UnleashClient.plainContext.mutableContext),
    .inside .polling] ++
    List.replicate 4 (.base (.client (.call 0))) ++
    [.acquire .metrics (.clearList 5), .inside .metrics] ++
    List.replicate 2 (.base (.events .loop))

theorem evaluation_returns_heldUp :
    ∃ s, Machine.run (isEnabledStep fun _ => .impression heardImpression) hearing heldUp = some s ∧
      isEnabledStep (fun _ => .impression heardImpression) s (.acquire .metrics (.add 0)) = none ∧
      isEnabledStep (fun _ => .impression heardImpression) s (.base (.client (.call 0))) = none ∧
      (s.held .polling).isSome = true ∧ s.base.events.loop.holds = true ∧ ∃ event' bs s',
        Machine.run (isEnabledStep event') hearing (heldUp ++ bs) = some s' ∧
        (∃ answer, s'.base.client.calls 0 = .returned answer) ∧ bs.length ≤ 26 ∧
        s'.base.events.executed = [] := by
  have hheld : (Machine.run (isEnabledStep fun _ => .impression heardImpression) hearing
      heldUp).map (fun s =>
        ((isEnabledStep (fun _ => .impression heardImpression) s
            (.acquire .metrics (.add 0))).isNone,
          (isEnabledStep (fun _ => .impression heardImpression) s
            (.base (.client (.call 0)))).isNone,
          (s.held .polling).isSome, s.base.events.loop.holds, s.base.client.polling.isThrew,
          s.base.events.executed.isEmpty)) =
        some (true, true, true, true, false, true) := by
    decide +kernel
  obtain ⟨s, hs, hsummary⟩ := Option.map_eq_some_iff.mp hheld
  simp only [Prod.mk.injEq, Option.isNone_iff_eq_none, List.isEmpty_iff] at hsummary
  obtain ⟨hwaits, hstands, hpolling, hqueue, hthrew, hnone⟩ := hsummary
  obtain ⟨-, -, hreturns⟩ := evaluation_returns JsonText.compact localStorageProvider
    ClientMachine.allImpressions (fun _ => ⟨.isEnabled, bytes "a"⟩)
    (fun _ => .impression heardImpression) ClientMachine.variantClient UnleashClient.plainContext
    (MetricsStore.make [] [] 0) heldUp s hs
  obtain ⟨event', bs, s', hbs, hreturned, hlength, -, hexecuted⟩ := hreturns 0 hthrew
  exact ⟨s, hs, hwaits, hstands, hpolling, hqueue, event', bs, s', hbs, hreturned, hlength,
    hexecuted.trans hnone⟩

end ClientMutexes

end Unleash
