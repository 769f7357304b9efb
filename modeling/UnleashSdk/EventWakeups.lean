/-
  THE EVENT THREAD DOES NOT OVERSLEEP.

  A notification wakes the event thread only if it is blocked already.  So the thread could sleep
  through one that comes between the evaluation of its predicate (`predicate`) and the moment it
  blocks (`block`); it holds the mutex there, and that is what saves it:

  * an emit call pushes under the mutex, so it finds the thread BEFORE the predicate or blocked,
    and it notifies afterwards;
  * `stop()` clears `_started` without the mutex, but takes the mutex (to drop the pending tasks)
    before it notifies.

  `Attended` says this of every state: a blocked thread with work in the queue has a notification
  on its way, and so has a blocked thread that is to stop.  At the join it is awake, and `rank`
  counts the steps it still has to take.
-/
import UnleashSdk.EventHandler

set_option linter.unusedVariables false

namespace Unleash

namespace EventHandler

variable {C : Type}

/-! ## Oversleeping -/

/-- A `stop()` has executed its `notify_all`. -/
def StopNotified (s : State C) : Prop :=
  s.started = false ∧ s.control ≠ .swap ∧ s.control ≠ .notifyAll

/-- The event thread is blocked with no notification pending, though there are tasks and every
    emit call that pushed one has finished its `notify`, or though `stop()` has notified. -/
def Overslept (s : State C) : Prop :=
  s.loop = .blocked ∧
    (((∀ t, s.calls t ≠ .notify .accepted) ∧ s.queue ≠ []) ∨ StopNotified s)

/-! ## Whoever could be overslept is still to notify -/

theorem LoopPc.notified_ne_blocked (p : LoopPc C) : p.notified ≠ .blocked := by
  intro h
  cases p <;> cases h

theorem LoopPc.notified_eq_block {p : LoopPc C} (h : p.notified = .block) : p = .block := by
  cases p <;> first | rfl | cases h

theorem LoopPc.ne_block_of_free {p : LoopPc C} (h : p.holds = false) : p ≠ .block := by
  rintro rfl
  cases h

structure Attended (s : State C) : Prop where
  -- the predicate was false, and only a `stop()` that waits for the mutex can have changed that
  block : s.loop = .block → s.queue = [] ∧ (s.started = false → s.control = .swap)
  task : s.loop = .blocked → s.queue ≠ [] → ∃ t, s.calls t = .notify .accepted
  shutdown : s.loop = .blocked → s.started = false → s.control = .swap ∨ s.control = .notifyAll
  stopping : s.control = .swap ∨ s.control = .notifyAll ∨ s.control = .join → s.started = false

theorem Attended.initial : Attended ({} : State C) where
  block h := by cases h
  task h := by cases h
  shutdown h := by cases h
  stopping h := rfl

/-- The thread is neither blocked nor about to block. -/
def LoopPc.awake : LoopPc C → Bool
  | .block | .blocked => false
  | _ => true

theorem LoopPc.awake_notified {p : LoopPc C} (h : p ≠ .block) : p.notified.awake = true := by
  cases p with
  | block => exact absurd rfl h
  | _ => rfl

/-- A thread that is awake needs no attention. -/
theorem attended_awake {s : State C} (hawake : s.loop.awake = true)
    (hstop : s.control = .swap ∨ s.control = .notifyAll ∨ s.control = .join → s.started = false) :
    Attended s where
  block h := by
    rw [h] at hawake
    cases hawake
  task h := by
    rw [h] at hawake
    cases hawake
  shutdown h := by
    rw [h] at hawake
    cases hawake
  stopping := hstop

/-- Past its join a `stop()` is no concern any more. -/
theorem not_stopping {c : Control} {P : Prop} (hswap : c ≠ .swap) (hnotify : c ≠ .notifyAll)
    (hjoin : c ≠ .join) (h : c = .swap ∨ c = .notifyAll ∨ c = .join) : P := by
  rcases h with h | h | h
  · exact absurd h hswap
  · exact absurd h hnotify
  · exact absurd h hjoin

/-- An emit call that has no task to notify of may go on. -/
theorem Attended.goto {s : State C} (h : Attended s) {t : Nat}
    (ht : s.calls t ≠ .notify .accepted) (p : CallPc C) : Attended (s.goto t p) where
  block := h.block
  task hloop hq := by
    obtain ⟨t', ht'⟩ := h.task hloop hq
    have hne : t' ≠ t := by
      rintro rfl
      exact ht ht'
    exact ⟨t', by simpa only [State.goto, Function.update_of_ne hne] using ht'⟩
  shutdown := h.shutdown
  stopping := h.stopping

theorem attended_moves {s : State C} (h : Attended s) {q : LoopPc C} (hq : Moves s s.loop q) :
    Attended { s with loop := q } := by
  generalize hp : s.loop = p at hq
  cases hq with
  | sleep hqueue hs =>
    -- the predicate has just been found false
    refine ⟨fun _ => ⟨hqueue, fun hs' => ?_⟩, fun hl => ?_, fun hl => ?_, h.stopping⟩
    · rw [hs] at hs'
      cases hs'
    · cases hl
    · cases hl
  | block =>
    -- nothing was pushed since the predicate was found false
    obtain ⟨hqueue, hstop⟩ := h.block hp
    refine ⟨fun hl => ?_, fun _ hne => absurd hqueue hne, fun _ hs => Or.inl (hstop hs),
      h.stopping⟩
    cases hl
  | _ => exact attended_awake rfl h.stopping

/-- **Step lemma.** -/
theorem attended_change {event : Nat → ClientEvent} {s s' : State C} {a : Act C}
    (h : Attended s) (hc : Change event s a s') : Attended s' := by
  cases hc with
  | register kind cb => exact ⟨h.block, h.task, h.shutdown, h.stopping⟩
  | entered t ht hs => exact h.goto (fun hn => by cases ht.symm.trans hn) _
  | refused t ht hs => exact h.goto (fun hn => by cases ht.symm.trans hn) _
  | loaded t cb ht hcb => exact h.goto (fun hn => by cases ht.symm.trans hn) _
  | unregistered t ht hcb => exact h.goto (fun hn => by cases ht.symm.trans hn) _
  | accepted t cb ht hfree hroom =>
    -- the call that pushed is the one that will notify
    refine ⟨fun hl => ?_, fun _ _ => ⟨t, Function.update_self t _ s.calls⟩, h.shutdown,
      h.stopping⟩
    exact absurd hl (LoopPc.ne_block_of_free hfree)
  | discarded t cb ht hfree hfull => exact h.goto (fun hn => by cases ht.symm.trans hn) _
  | notified t outcome ht =>
    refine ⟨fun hl => h.block (LoopPc.notified_eq_block hl), fun hl => ?_, fun hl => ?_,
      h.stopping⟩
    · exact absurd hl s.loop.notified_ne_blocked
    · exact absurd hl s.loop.notified_ne_blocked
  | moved q hq => exact attended_moves h hq
  | pop task rest hp hq => exact attended_awake rfl h.stopping
  | invoke task hp => exact attended_awake rfl h.stopping
  | wake hp => exact attended_awake rfl h.stopping
  | callbackEnds threw task hp => exact attended_awake rfl h.stopping
  | startedAlready hc hs => exact h
  | start hc hs =>
    refine ⟨fun hl => ⟨(h.block hl).1, fun hs' => ?_⟩, h.task, fun _ hs' => ?_,
      not_stopping (by simp) (by simp) (by simp)⟩
    · cases hs'
    · cases hs'
  | stoppedAlready hc hs => exact h
  | stop hc hs =>
    exact ⟨fun hl => ⟨(h.block hl).1, fun _ => rfl⟩, h.task, fun _ _ => Or.inl rfl, fun _ => rfl⟩
  | createThread hc hp =>
    exact attended_awake rfl (not_stopping (by simp) (by simp) (by simp))
  | swap hc hfree =>
    -- the mutex is free, so the thread is not between its predicate and its sleep
    have hs : s.started = false := h.stopping (Or.inl hc)
    refine ⟨fun hl => ?_, fun _ hq => absurd rfl hq, fun _ _ => Or.inr rfl, fun _ => hs⟩
    exact absurd hl (LoopPc.ne_block_of_free hfree)
  | notifyAll hc =>
    have hs : s.started = false := h.stopping (Or.inr (Or.inl hc))
    refine attended_awake (LoopPc.awake_notified fun hl => ?_) fun _ => hs
    -- a thread about to block would have let no `stop()` past the mutex
    have hswap := (h.block hl).2 hs
    rw [hc] at hswap
    cases hswap
  | notJoinable hc hp =>
    refine attended_awake ?_ (not_stopping (by simp) (by simp) (by simp))
    show s.loop.awake = true
    rw [hp]
    rfl
  | join hc hp =>
    exact attended_awake rfl (not_stopping (by simp) (by simp) (by simp))

/-- **Run lemma.** -/
theorem attended_run {event : Nat → ClientEvent} {as : List (Act C)} {s : State C}
    (hrun : Machine.run (step event) {} as = some s) : Attended s :=
  Machine.run_inv (I := Attended) (fun _ _ _ h hs => attended_change h (step_change hs))
    Attended.initial hrun

/-! ## The join returns -/

/-- The steps that need nobody but the event thread and the callback it runs. -/
def Act.isThread : Act C → Bool
  | .loop | .callbackEnds _ => true
  | _ => false

/-- How many steps a thread that is to stop has to take: four for each task, and the way out. -/
def rank (s : State C) : Nat :=
  match s.loop with
  | .top => 1
  | .testEmpty => 4 * s.queue.length + 2
  | .predicate | .relock => 4 * s.queue.length + 3
  | .lock | .woken | .running _ => 4 * s.queue.length + 4
  | .popped _ => 4 * s.queue.length + 5
  | .absent | .exited | .block | .blocked => 0

/-- A thread that is to stop and is awake, or has ended. -/
structure Leaving (s : State C) : Prop where
  started : s.started = false
  block : s.loop ≠ .block
  blocked : s.loop ≠ .blocked

/-- The thread moves to `q`, where it is awake and has fewer steps left. -/
theorem Leaving.move {event : Nat → ClientEvent} {s : State C} (h : Leaving s) {a : Act C}
    (ha : Act.isThread a = true) {q : LoopPc C} (hq : q ≠ .block) (hq' : q ≠ .blocked)
    (hstep : step event s a = some { s with loop := q })
    (hlt : rank { s with loop := q } < rank s) :
    ∃ a s', Act.isThread a = true ∧ step event s a = some s' ∧ Leaving s' ∧
      s'.control = s.control ∧ rank s' < rank s :=
  ⟨a, { s with loop := q }, ha, hstep, ⟨h.started, hq, hq'⟩, rfl, hlt⟩

theorem leaving_progress (event : Nat → ClientEvent) {s : State C} (h : Leaving s)
    (hexited : s.loop ≠ .exited) (habsent : s.loop ≠ .absent) :
    ∃ a s', Act.isThread a = true ∧ step event s a = some s' ∧ Leaving s' ∧
      s'.control = s.control ∧ rank s' < rank s := by
  have hs : s.started = false := h.started
  cases hp : s.loop with
  | absent => exact absurd hp habsent
  | exited => exact absurd hp hexited
  | block => exact absurd hp h.block
  | blocked => exact absurd hp h.blocked
  | top =>
    refine h.move (a := .loop) (q := .exited) rfl (by simp) (by simp) ?_ ?_
    · simp only [step, hp, loopStep, hs, Bool.false_eq_true, if_false]
    · simp only [rank, hp]
      omega
  | lock =>
    refine h.move (a := .loop) (q := .predicate) rfl (by simp) (by simp) ?_ ?_
    · simp only [step, hp, loopStep]
    · simp only [rank, hp]
      omega
  | predicate =>
    -- `_started` is false, so the wait ends at once
    refine h.move (a := .loop) (q := .testEmpty) rfl (by simp) (by simp) ?_ ?_
    · simp only [step, hp, loopStep, hs, Bool.and_false, Bool.false_eq_true, if_false]
    · simp only [rank, hp]
      omega
  | woken =>
    refine h.move (a := .loop) (q := .predicate) rfl (by simp) (by simp) ?_ ?_
    · simp only [step, hp, loopStep]
    · simp only [rank, hp]
      omega
  | testEmpty =>
    cases hq : s.queue with
    | nil =>
      refine h.move (a := .loop) (q := .top) rfl (by simp) (by simp) ?_ ?_
      · simp only [step, hp, loopStep, hq]
      · simp only [rank, hp]
        omega
    | cons task rest =>
      refine ⟨.loop, { s with queue := rest, loop := .popped task }, rfl, ?_,
        ⟨hs, by simp, by simp⟩, rfl, ?_⟩
      · simp only [step, hp, loopStep, hq]
      · simp only [rank, hp, hq, List.length_cons]
        omega
  | popped task =>
    refine ⟨.loop, { s with executed := s.executed ++ [task], loop := .running task }, rfl, ?_,
      ⟨hs, by simp, by simp⟩, rfl, ?_⟩
    · simp only [step, hp, loopStep]
    · simp only [rank, hp]
      omega
  | running task =>
    refine h.move (a := .callbackEnds false) (q := .relock) rfl (by simp) (by simp) ?_ ?_
    · simp only [step, hp]
    · simp only [rank, hp]
      omega
  | relock =>
    refine h.move (a := .loop) (q := .testEmpty) rfl (by simp) (by simp) ?_ ?_
    · simp only [step, hp, loopStep]
    · simp only [rank, hp]
      omega

/-- The event thread alone brings a `stop()` past its join. -/
theorem join_returns (event : Nat → ClientEvent) {s : State C} (h : Leaving s)
    (hjoin : s.control = .join) :
    ∃ bs t, (∀ b ∈ bs, Act.isThread b = true) ∧
      Machine.run (step event) s (bs ++ [.control]) = some t ∧ t.control = .idle := by
  -- induction on the number of steps that the thread still has to take
  induction hn : rank s using Nat.strong_induction_on generalizing s with
  | h n ih =>
    by_cases habsent : s.loop = .absent
    · refine ⟨[], { s with control := .idle }, by simp, ?_, rfl⟩
      simp only [List.nil_append, Machine.run, step, hjoin, controlStep, habsent]
    by_cases hexited : s.loop = .exited
    · refine ⟨[], { s with loop := .absent, control := .idle }, by simp, ?_, rfl⟩
      simp only [List.nil_append, Machine.run, step, hjoin, controlStep, hexited]
    obtain ⟨a, s', ha, hstep, hs', hcontrol, hlt⟩ := leaving_progress event h hexited habsent
    obtain ⟨bs, t, hbs, hrun, ht⟩ := ih (rank s') (by omega) hs' (hcontrol.trans hjoin) rfl
    refine ⟨a :: bs, t, ?_, ?_, ht⟩
    · intro b hb
      rcases List.mem_cons.mp hb with rfl | hb
      · exact ha
      · exact hbs b hb
    · rw [List.cons_append, Machine.run_cons_of_step hstep]
      exact hrun

/-- **The event thread never sleeps through work or shutdown.**  In every state of every run of a
    handler the thread is not overslept, and a `stop()` that waits at its join gets past it by
    steps of the event thread alone. -/
theorem event_thread_attended (event : Nat → ClientEvent) (as : List (Act C)) (s : State C)
    (hrun : Machine.run (step event) {} as = some s) :
    ¬ Overslept s ∧
    (s.control = .join → ∃ bs t, (∀ b ∈ bs, Act.isThread b = true) ∧
      Machine.run (step event) s (bs ++ [.control]) = some t ∧ t.control = .idle) := by
  have h := attended_run hrun
  constructor
  · rintro ⟨hloop, ⟨hfinished, hqueue⟩ | ⟨hs, hswap, hnotify⟩⟩
    · obtain ⟨t, ht⟩ := h.task hloop hqueue
      exact hfinished t ht
    · rcases h.shutdown hloop hs with hc | hc
      · exact hswap hc
      · exact hnotify hc
  · intro hjoin
    have hs : s.started = false := h.stopping (Or.inr (Or.inr hjoin))
    refine join_returns event ⟨hs, fun hl => ?_, fun hl => ?_⟩ hjoin
    · have hswap := (h.block hl).2 hs
      rw [hjoin] at hswap
      cases hswap
    · rcases h.shutdown hl hs with hc | hc
      · rw [hjoin] at hc
        cases hc
      · rw [hjoin] at hc
        cases hc

/-- A stop that begins while the thread is on its way to sleep has to wait for the mutex. -/
def lateStop : List (Act Nat) :=
  [.start, .control, .loop, .loop, .loop, .stop, .loop, .control, .control]

theorem event_thread_attended_late :
    ∃ s, Machine.run (step fun _ => .init) ({} : State Nat) lateStop = some s ∧
      s.control = .join ∧ ¬ Overslept s :=
  ⟨_, rfl, rfl, (event_thread_attended (fun _ => .init) lateStop _ rfl).1⟩

end EventHandler

end Unleash
