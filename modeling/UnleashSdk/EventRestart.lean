/-
  STOP, THEN START AGAIN: what is left over from before.

  `stop()` clears `_started`, drops the pending tasks and joins the event thread.  An emit call
  tests `_started` BEFORE it takes the mutex and pushes without testing it again.  So a call that
  passed its test and was then suspended can push at any later point: into a queue that nobody
  will empty, and whose content the next event thread takes for its own.

  `NoStalePush` excludes exactly the pushes that do harm.  A push with room in the queue is
  harmless if

  * the call passed its test after every start so far (`Fresh`), and
  * someone will still look at the queue (`Awaited`): the handler is started, or `stop()` has its
    drop before it, or the event thread is still on its way to another test of the queue.

  Under this condition the queue of a stopped handler is empty, its thread is gone, and whatever
  is executed after a start was emitted after it.
-/
import UnleashSdk.EventHandler

set_option linter.unusedVariables false

namespace Unleash

namespace EventHandler

variable {C : Type}

/-! ## The condition on a schedule -/

/-- The schedule `as` starts the stopped handler in state `v`, and goes on with `es`. -/
def StartedAfter (event : Nat → ClientEvent) (as es : List (Act C)) (v : State C) : Prop :=
  ∃ ds, as = ds ++ .start :: es ∧ Machine.run (step event) {} ds = some v ∧ v.started = false

/-- Emit call `t` began after every start of the schedule. -/
def Fresh (event : Nat → ClientEvent) (as : List (Act C)) (t : Nat) : Prop :=
  ∀ es v, StartedAfter event as es v → Act.enter t ∈ es

/-- The event thread will not look at the queue any more, if it is to stop. -/
def LoopPc.past : LoopPc C → Bool
  | .top | .exited | .absent => true
  | _ => false

/-- The queue will be emptied, by the event thread or by `stop()`. -/
def Awaited (s : State C) : Prop :=
  s.started = true ∨ s.control = .swap ∨ s.loop.past = false

def NoStalePush (event : Nat → ClientEvent) (as : List (Act C)) : Prop :=
  ∀ bs t cs u, as = bs ++ .push t :: cs → Machine.run (step event) {} bs = some u →
    u.queue.length < maxEventQueueSize → Fresh event bs t ∧ Awaited u

theorem NoStalePush.init {event : Nat → ClientEvent} {as : List (Act C)} {a : Act C}
    (h : NoStalePush event (as ++ [a])) : NoStalePush event as := by
  rintro bs t cs u rfl hu hroom
  exact h bs t (cs ++ [a]) u (by simp) hu hroom

/-- A start of `as ++ [a]` is `a` itself or a start of `as`. -/
theorem startedAfter_snoc {event : Nat → ClientEvent} {as es : List (Act C)} {a : Act C}
    {s v : State C} (hs : Machine.run (step event) {} as = some s)
    (h : StartedAfter event (as ++ [a]) es v) :
    (a = .start ∧ es = [] ∧ v = s ∧ s.started = false) ∨
    ∃ es', es = es' ++ [a] ∧ StartedAfter event as es' v := by
  obtain ⟨ds, heq, hv, hstopped⟩ := h
  rcases List.eq_nil_or_concat es with rfl | ⟨es', b, rfl⟩
  · obtain ⟨rfl, hlast⟩ := List.append_inj' heq rfl
    obtain rfl : a = .start := (List.cons.inj hlast).1
    obtain rfl : s = v := Option.some.inj (hs.symm.trans hv)
    exact Or.inl ⟨rfl, rfl, rfl, hstopped⟩
  · rw [List.concat_eq_append, ← List.cons_append, ← List.append_assoc] at heq
    obtain ⟨hinit, hlast⟩ := List.append_inj' heq rfl
    obtain rfl : a = b := (List.cons.inj hlast).1
    exact Or.inr ⟨es', by rw [List.concat_eq_append], ds, hinit, hv, hstopped⟩

/-! ## A stopped handler is empty -/

structure Emptied (s : State C) : Prop where
  createThread : s.control = .createThread → s.started = true
  stopped : s.started = false → s.control = .idle → s.loop = .absent
  past : s.started = false → s.control ≠ .swap → s.loop.past = true → s.queue = []

theorem Emptied.initial : Emptied ({} : State C) where
  createThread h := by cases h
  stopped _ _ := rfl
  past _ _ _ := rfl

theorem LoopPc.past_notified (p : LoopPc C) : p.notified.past = p.past := by
  cases p <;> rfl

theorem LoopPc.notified_absent {p : LoopPc C} (h : p = .absent) : p.notified = .absent := by
  rw [h]
  rfl

theorem Moves.ne_absent {s : State C} {p q : LoopPc C} (h : Moves s p q) : p ≠ .absent := by
  intro hp
  cases h <;> cases hp

theorem emptied_started {s : State C} (hs : s.started = true) : Emptied s where
  createThread _ := hs
  stopped hs' := absurd (hs.symm.trans hs') (by decide)
  past hs' := absurd (hs.symm.trans hs') (by decide)

/-- The event thread, which is there, moves to a place from which it will test the queue. -/
theorem Emptied.working {s s' : State C} (h : Emptied s) (hloop : s.loop ≠ .absent)
    (hstarted : s'.started = s.started) (hcontrol : s'.control = s.control)
    (hpast : s'.loop.past = false) : Emptied s' where
  createThread hc := hstarted.trans (h.createThread (hcontrol.symm.trans hc))
  stopped hs hc := absurd (h.stopped (hstarted.symm.trans hs) (hcontrol.symm.trans hc)) hloop
  past _ _ hp := by
    rw [hpast] at hp
    cases hp

theorem emptied_moves {s : State C} (h : Emptied s) {q : LoopPc C} (hq : Moves s s.loop q) :
    Emptied { s with loop := q } := by
  have hloop : s.loop ≠ .absent := hq.ne_absent
  generalize hp : s.loop = p at hq
  cases hq with
  | drained hqueue => exact ⟨h.createThread, fun hs hc => absurd (h.stopped hs hc) hloop,
      fun _ _ _ => hqueue⟩
  | exit hs =>
    refine ⟨h.createThread, fun hs hc => absurd (h.stopped hs hc) hloop, fun hs hc _ => ?_⟩
    exact h.past hs hc (by rw [hp]; rfl)
  | _ => exact h.working hloop rfl rfl rfl

/-- **Step lemma**, for the state: what is pushed is awaited, so nothing is left behind. -/
theorem emptied_change {event : Nat → ClientEvent} {s s' : State C} {a : Act C} (h : Emptied s)
    (hpush : ∀ t, a = .push t → s.queue.length < maxEventQueueSize → Awaited s)
    (hc : Change event s a s') : Emptied s' := by
  cases hc with
  | register kind cb => exact ⟨h.createThread, h.stopped, h.past⟩
  | entered t ht hs => exact ⟨h.createThread, h.stopped, h.past⟩
  | refused t ht hs => exact ⟨h.createThread, h.stopped, h.past⟩
  | loaded t cb ht hcb => exact ⟨h.createThread, h.stopped, h.past⟩
  | unregistered t ht hcb => exact ⟨h.createThread, h.stopped, h.past⟩
  | accepted t cb ht hfree hroom =>
    refine ⟨h.createThread, h.stopped, fun hs hc hp => ?_⟩
    rcases hpush t rfl hroom with hs' | hc' | hp'
    · exact absurd (hs'.symm.trans hs) (by decide)
    · exact absurd hc' hc
    · exact absurd (hp'.symm.trans hp) (by decide)
  | discarded t cb ht hfree hfull => exact ⟨h.createThread, h.stopped, h.past⟩
  | notified t outcome ht =>
    refine ⟨h.createThread, fun hs hc => LoopPc.notified_absent (h.stopped hs hc), ?_⟩
    intro hs hc hp
    exact h.past hs hc ((LoopPc.past_notified s.loop).symm.trans hp)
  | moved q hq => exact emptied_moves h hq
  | pop task rest hp hq => exact h.working (fun hl => by cases hp.symm.trans hl) rfl rfl rfl
  | invoke task hp => exact h.working (fun hl => by cases hp.symm.trans hl) rfl rfl rfl
  | wake hp => exact h.working (fun hl => by cases hp.symm.trans hl) rfl rfl rfl
  | callbackEnds threw task hp => exact h.working (fun hl => by cases hp.symm.trans hl) rfl rfl rfl
  | startedAlready hc hs => exact h
  | start hc hs => exact emptied_started rfl
  | stoppedAlready hc hs => exact h
  | stop hc hs =>
    refine ⟨fun hc' => ?_, fun _ hc' => ?_, fun _ hc' => absurd rfl hc'⟩
    · cases hc'
    · cases hc'
  | createThread hc hp => exact emptied_started (h.createThread hc)
  | swap hc hfree =>
    refine ⟨fun hc' => ?_, fun _ hc' => ?_, fun _ _ _ => rfl⟩
    · cases hc'
    · cases hc'
  | notifyAll hc =>
    refine ⟨fun hc' => ?_, fun _ hc' => ?_, fun hs _ hp => ?_⟩
    · cases hc'
    · cases hc'
    · exact h.past hs (by rw [hc]; decide) ((LoopPc.past_notified s.loop).symm.trans hp)
  | notJoinable hc hp =>
    refine ⟨fun hc' => ?_, fun _ _ => hp, fun hs _ hpast => ?_⟩
    · cases hc'
    · exact h.past hs (by rw [hc]; decide) hpast
  | join hc hp =>
    refine ⟨fun hc' => ?_, fun _ _ => rfl, fun hs _ _ => ?_⟩
    · cases hc'
    · exact h.past hs (by rw [hc]; decide) (by rw [hp]; rfl)

/-! ## What is executed after a start -/

/-- Everything that is executed after the start in state `v`, or waits for it, was emitted by a
    call that began in the schedule `es` since. -/
structure Since (es : List (Act C)) (v s : State C) : Prop where
  executed : ∃ later, s.executed = v.executed ++ later ∧ ∀ task ∈ later, Act.enter task.call ∈ es
  queue : ∀ task ∈ s.queue, Act.enter task.call ∈ es
  inflight : ∀ task, s.loop.inflight = some task → Act.enter task.call ∈ es

/-- The event thread of a handler that has just been started finds nothing. -/
theorem Since.start {s s' : State C} (hqueue : s'.queue = []) (hloop : s'.loop.inflight = none)
    (hexec : s'.executed = s.executed) : Since [] s s' where
  executed := ⟨[], by rw [hexec, List.append_nil], by simp⟩
  queue task htask := by
    rw [hqueue] at htask
    cases htask
  inflight task htask := by
    rw [hloop] at htask
    cases htask

/-- A step that brings no task into the queue or out of the thread. -/
theorem Since.frame {es : List (Act C)} {v s s' : State C} (h : Since es v s) (a : Act C)
    (hexec : s'.executed = s.executed) (hqueue : ∀ task ∈ s'.queue, task ∈ s.queue)
    (hloop : ∀ task, s'.loop.inflight = some task →
      s.loop.inflight = some task ∨ task ∈ s.queue) : Since (es ++ [a]) v s' where
  executed := by
    obtain ⟨later, hlater, hmem⟩ := h.executed
    exact ⟨later, hexec.trans hlater, fun task ht => List.mem_append_left _ (hmem task ht)⟩
  queue task htask := List.mem_append_left _ (h.queue task (hqueue task htask))
  inflight task htask := by
    rcases hloop task htask with hl | hq
    · exact List.mem_append_left _ (h.inflight task hl)
    · exact List.mem_append_left _ (h.queue task hq)

/-- **Step lemma**, for the books of one start. -/
theorem since_change {event : Nat → ClientEvent} {es : List (Act C)} {v s s' : State C}
    {a : Act C} (h : Since es v s)
    (hpush : ∀ t, a = .push t → s.queue.length < maxEventQueueSize → Act.enter t ∈ es)
    (hc : Change event s a s') : Since (es ++ [a]) v s' := by
  have hall : ∀ task ∈ s.queue, task ∈ s.queue := fun _ ht => ht
  have hnone : ∀ {p : LoopPc C}, p.inflight = none → ∀ task, p.inflight = some task →
      s.loop.inflight = some task ∨ task ∈ s.queue := by
    intro p hp task ht
    rw [hp] at ht
    cases ht
  cases hc with
  | register kind cb => exact h.frame _ rfl hall fun _ => Or.inl
  | entered t ht hs => exact h.frame _ rfl hall fun _ => Or.inl
  | refused t ht hs => exact h.frame _ rfl hall fun _ => Or.inl
  | loaded t cb ht hcb => exact h.frame _ rfl hall fun _ => Or.inl
  | unregistered t ht hcb => exact h.frame _ rfl hall fun _ => Or.inl
  | accepted t cb ht hfree hroom =>
    have hframe : Since (es ++ [.push t]) v s := h.frame _ rfl hall fun _ => Or.inl
    refine ⟨hframe.executed, fun task htask => ?_, hframe.inflight⟩
    -- the new task is that of a call that began since
    rcases List.mem_append.mp htask with hold | hnew
    · exact hframe.queue task hold
    · obtain rfl := List.mem_singleton.mp hnew
      exact List.mem_append_left _ (hpush t rfl hroom)
  | discarded t cb ht hfree hfull => exact h.frame _ rfl hall fun _ => Or.inl
  | notified t outcome ht =>
    exact h.frame _ rfl hall fun _ ht => Or.inl ((LoopPc.inflight_notified _).symm.trans ht)
  | moved q hq => exact h.frame _ rfl hall fun _ ht => Or.inl (hq.inflight.trans ht)
  | pop task rest hp hq =>
    refine h.frame _ rfl (fun other hother => ?_) fun other hother => Or.inr ?_
    · rw [hq]
      exact List.mem_cons_of_mem _ hother
    · obtain rfl : task = other := Option.some.inj hother
      rw [hq]
      exact List.mem_cons_self
  | invoke task hp =>
    have hframe : Since (es ++ [.loop]) v s := h.frame _ rfl hall fun _ => Or.inl
    obtain ⟨later, hlater, hmem⟩ := hframe.executed
    refine ⟨⟨later ++ [task], ?_, fun other hother => ?_⟩, hframe.queue, fun other hother => ?_⟩
    · show s.executed ++ [task] = _
      rw [hlater, List.append_assoc]
    · rcases List.mem_append.mp hother with hold | hnew
      · exact hmem other hold
      · obtain rfl := List.mem_singleton.mp hnew
        exact hframe.inflight other (by rw [hp]; rfl)
    · cases hother
  | wake hp => exact h.frame _ rfl hall (hnone rfl)
  | callbackEnds threw task hp => exact h.frame _ rfl hall (hnone rfl)
  | startedAlready hc hs => exact h.frame _ rfl hall fun _ => Or.inl
  | start hc hs => exact h.frame _ rfl hall fun _ => Or.inl
  | stoppedAlready hc hs => exact h.frame _ rfl hall fun _ => Or.inl
  | stop hc hs => exact h.frame _ rfl hall fun _ => Or.inl
  | createThread hc hp => exact h.frame _ rfl hall (hnone rfl)
  | swap hc hfree =>
    refine h.frame _ rfl (fun task htask => ?_) fun _ => Or.inl
    cases htask
  | notifyAll hc =>
    exact h.frame _ rfl hall fun _ ht => Or.inl ((LoopPc.inflight_notified _).symm.trans ht)
  | notJoinable hc hp => exact h.frame _ rfl hall fun _ => Or.inl
  | join hc hp => exact h.frame _ rfl hall (hnone rfl)

/-! ## Runs without a stale push -/

/-- What a run without a stale push has kept up to now. -/
structure Clean (event : Nat → ClientEvent) (as : List (Act C)) (s : State C) : Prop where
  emptied : Emptied s
  since : ∀ es v, StartedAfter event as es v → Since es v s

theorem Clean.initial (event : Nat → ClientEvent) : Clean event [] ({} : State C) where
  emptied := Emptied.initial
  since es v h := by
    obtain ⟨ds, heq, -⟩ := h
    exact absurd heq (by simp)

theorem clean_step {event : Nat → ClientEvent} {as : List (Act C)} {s s' : State C} {a : Act C}
    (hs : Machine.run (step event) {} as = some s) (h : Clean event as s)
    (hpush : NoStalePush event (as ++ [a])) (hc : Change event s a s') :
    Clean event (as ++ [a]) s' := by
  have hlast : ∀ t, a = .push t → s.queue.length < maxEventQueueSize →
      Fresh event as t ∧ Awaited s := by
    rintro t rfl hroom
    exact hpush as t [] s rfl hs hroom
  refine ⟨emptied_change h.emptied (fun t ha hroom => (hlast t ha hroom).2) hc, ?_⟩
  intro es v hafter
  rcases startedAfter_snoc hs hafter with ⟨rfl, rfl, rfl, hstopped⟩ | ⟨es', rfl, hafter'⟩
  · -- the start itself: the handler was stopped, so it is empty
    cases hc with
    | startedAlready hidle hstarted => exact absurd (hstarted.symm.trans hstopped) (by decide)
    | start hidle _ =>
      have hloop : v.loop = .absent := h.emptied.stopped hstopped hidle
      have hqueue : v.queue = [] :=
        h.emptied.past hstopped (by rw [hidle]; decide) (by rw [hloop]; rfl)
      refine Since.start hqueue ?_ rfl
      show v.loop.inflight = none
      rw [hloop]
      rfl
  · exact since_change (h.since es' v hafter')
      (fun t ha hroom => (hlast t ha hroom).1 es' v hafter') hc

/-- **No stale events across a restart.**  In every run without a stale push, a handler that is
    stopped has an empty queue and no thread to run a callback, and every callback executed after
    a start belongs to an emit call that began after it. -/
theorem restart_clean (event : Nat → ClientEvent) (as : List (Act C)) (s : State C)
    (hrun : Machine.run (step event) {} as = some s) (hpush : NoStalePush event as) :
    (s.started = false → s.control = .idle → s.queue = [] ∧ s.loop = .absent) ∧
    (∀ es v, StartedAfter event as es v → ∃ later, s.executed = v.executed ++ later ∧
      ∀ task ∈ later, Act.enter task.call ∈ es) := by
  have h : Clean event as s := by
    refine Machine.run_history (I := fun s as => NoStalePush event as → Clean event as s)
      (fun _ => Clean.initial event) ?_ hrun hpush
    intro bs u a v hu ih hv hno
    exact clean_step hu (ih hno.init) hno (step_change hv)
  refine ⟨fun hs hidle => ?_, fun es v hafter => (h.since es v hafter).executed⟩
  have hloop : s.loop = .absent := h.emptied.stopped hs hidle
  exact ⟨h.emptied.past hs (by rw [hidle]; decide) (by rw [hloop]; rfl), hloop⟩

/-- The handler is started, and call 0 has its callback in hand. -/
def suspendedCall : List (Act Nat) :=
  [.register .init (some 7), .start, .control, .enter 0, .load 0]

/-- A whole stop; the event thread finds `_started` cleared. -/
def wholeStop : List (Act Nat) :=
  [.stop, .control, .control, .loop, .control]

/-- A new event thread, which runs the first task it finds. -/
def newThread : List (Act Nat) :=
  [.control, .loop, .loop, .loop, .loop, .loop]

/-- The suspended call pushes while `stop()` is on its way to the mutex. -/
def droppedPush : List (Act Nat) :=
  suspendedCall ++ [.stop, .push 0, .control, .control, .loop, .control]

/-- Where `a` stands on a schedule, and what is before and behind it. -/
theorem split_at {as bs cs : List (Act C)} {a : Act C} (h : as = bs ++ a :: cs) :
    as[bs.length]? = some a ∧ bs = as.take bs.length ∧ cs = as.drop (bs.length + 1) := by
  subst h
  refine ⟨by simp, by simp, ?_⟩
  rw [← List.drop_drop, List.drop_left, List.drop_one, List.tail_cons]

theorem droppedPush_clean : NoStalePush (fun _ => .init) droppedPush := by
  intro bs t cs u heq hu hroom
  obtain ⟨hpush, hbs, -⟩ := split_at heq
  obtain ⟨hlen, rfl⟩ : bs.length = 6 ∧ t = 0 := by
    generalize bs.length = n at hpush
    rcases n with _ | _ | _ | _ | _ | _ | _ | _ | _ | _ | _ | n
    all_goals cases hpush
    exact ⟨rfl, rfl⟩
  rw [hlen] at hbs
  subst hbs
  refine ⟨fun es v hafter => ?_, Or.inr (Or.inl ?_)⟩
  · -- the call began after the one start of the schedule
    obtain ⟨ds, heq', -⟩ := hafter
    obtain ⟨hstart, -, hes⟩ := split_at heq'
    have hlen' : ds.length = 1 := by
      generalize ds.length = n at hstart
      rcases n with _ | _ | _ | _ | _ | _ | n
      all_goals cases hstart
      rfl
    rw [hes, hlen']
    exact List.mem_cons_of_mem _ List.mem_cons_self
  · cases hu
    rfl

/-- It does no harm: `stop()` drops the task. -/
theorem restart_clean_dropped :
    ∃ s, Machine.run (step fun _ => .init) {} droppedPush = some s ∧
      s.accepted.map EventTask.call = [0] ∧ s.queue = [] ∧ s.loop = .absent :=
  ⟨_, rfl, rfl, (restart_clean (fun _ => .init) droppedPush _ rfl droppedPush_clean).1 rfl rfl⟩

/-- The suspended call pushes after `stop()` has returned; after the next start its callback is
    executed, though the call began long before. -/
theorem stale_event_executed :
    (∃ s, Machine.run (step fun _ => .init) {} (suspendedCall ++ wholeStop ++ [.push 0]) =
        some s ∧ s.started = false ∧ s.control = .idle ∧ s.queue.map EventTask.call = [0]) ∧
    ∃ s, Machine.run (step fun _ => .init) {}
        (suspendedCall ++ wholeStop ++ [.push 0] ++ .start :: newThread) = some s ∧
      s.executed.map EventTask.call = [0] ∧ ∀ a ∈ newThread, a ≠ .enter 0 := by
  refine ⟨⟨_, rfl, rfl, rfl, rfl⟩, ⟨_, rfl, rfl, ?_⟩⟩
  simp [newThread]

end EventHandler

end Unleash
