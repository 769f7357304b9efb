/-
  THE EVENT QUEUE between a start and the next stop.

  While no `stop()` has begun, the queue is only pushed to by emit calls and only popped by the
  event thread, so the tasks accepted so far are always

      executed ++ in flight ++ queue

  in the order in which they were accepted.  Whether a callback returns or throws is an input of
  the run that nothing depends on.  `Records` is the invariant: these books, and for every emit
  call the step that decided about it.
-/
import UnleashSdk.EventHandler

set_option linter.unusedVariables false

namespace Unleash

namespace EventHandler

variable {C : Type}

/-! ## What is kept -/

/-- Before a start: no event thread, an empty queue, and nothing recorded yet.  Emit calls may be
    anywhere, and anything may be registered. -/
structure Stopped (s : State C) : Prop where
  started : s.started = false
  queue : s.queue = []
  loop : s.loop = .absent
  control : s.control = .idle
  accepted : s.accepted = []
  executed : s.executed = []

/-- Emit call `t` loaded the callback `cb`: the one that is registered at that step. -/
def Loaded (event : Nat → ClientEvent) (s₀ : State C) (as : List (Act C)) (t : Nat)
    (cb : Option C) : Prop :=
  Machine.Took (step event) s₀ as (.load t) fun u => u.slots (event t).kind = cb

/-- Emit call `t` found the queue full. -/
def FoundFull (event : Nat → ClientEvent) (s₀ : State C) (as : List (Act C)) (t : Nat) : Prop :=
  Machine.Took (step event) s₀ as (.push t) fun u => u.queue.length = maxEventQueueSize

/-- The action begins a `stop()`. -/
def Act.isStop : Act C → Bool
  | .stop => true
  | _ => false

/-- The discipline of the queue on a run.  `bound`: it is never longer than its maximum; `order`:
    the callbacks are executed in the order of acceptance, none is left out; `once`: no emit call
    is accepted twice; `faithful`: each is executed with the argument of its emit call and the
    callback registered when that was made; `discards`: an emit call that is not accepted found
    no callback, or a full queue. -/
structure Discipline (event : Nat → ClientEvent) (s₀ : State C) (as : List (Act C)) (s : State C) :
    Prop where
  bound : s.queue.length ≤ maxEventQueueSize
  order : s.executed ++ s.loop.inflight.toList ++ s.queue = s.accepted
  once : (s.accepted.map EventTask.call).Nodup
  faithful : ∀ task ∈ s.accepted, task.event = event task.call ∧
    (s₀.calls task.call = .push task.cb ∨ Loaded event s₀ as task.call (some task.cb))
  discards : ∀ t, (s₀.calls t).finished = false → (s.calls t).finished = true →
    (∃ task ∈ s.accepted, task.call = t) ∨ Loaded event s₀ as t none ∨ FoundFull event s₀ as t

/-! ## The invariant -/

structure Records (event : Nat → ClientEvent) (s₀ : State C) (as : List (Act C)) (s : State C) :
    Prop extends Discipline event s₀ as s where
  started : s.started = true
  control : s.control = .createThread ∨ s.control = .idle
  finished : ∀ task ∈ s.accepted, (s.calls task.call).finished = true
  loaded : ∀ t cb, s.calls t = .push cb →
    s₀.calls t = .push cb ∨ Loaded event s₀ as t (some cb)

/-- What an earlier step has decided stays decided. -/
theorem Records.snoc {event : Nat → ClientEvent} {s₀ s : State C} {as : List (Act C)}
    (h : Records event s₀ as s) (a : Act C) : Records event s₀ (as ++ [a]) s := by
  refine ⟨⟨h.bound, h.order, h.once, fun task ht => ?_, fun t h₀ ht => ?_⟩, h.started, h.control,
    h.finished, fun t cb ht => (h.loaded t cb ht).imp_right fun hl => hl.snoc a⟩
  · obtain ⟨hev, hcb⟩ := h.faithful task ht
    exact ⟨hev, hcb.imp_right fun hl => hl.snoc a⟩
  · exact (h.discards t h₀ ht).imp_right (Or.imp (fun hl => hl.snoc a) fun hf => hf.snoc a)

/-- A step that accepts nothing: the books stay even, whoever has the tasks. -/
theorem Records.frame {event : Nat → ClientEvent} {s₀ s s' : State C} {as : List (Act C)}
    (h : Records event s₀ as s) (hstarted : s'.started = s.started)
    (hcontrol : s'.control = .createThread ∨ s'.control = .idle) (hcalls : s'.calls = s.calls)
    (haccepted : s'.accepted = s.accepted) (hbound : s'.queue.length ≤ s.queue.length)
    (horder : s'.executed ++ s'.loop.inflight.toList ++ s'.queue =
      s.executed ++ s.loop.inflight.toList ++ s.queue) : Records event s₀ as s' := by
  refine ⟨⟨hbound.trans h.bound, ?_, ?_, ?_, ?_⟩, hstarted.trans h.started, hcontrol, ?_, ?_⟩
  · rw [horder, haccepted]; exact h.order
  · rw [haccepted]; exact h.once
  · rw [haccepted]; exact h.faithful
  · rw [hcalls, haccepted]; exact h.discards
  · rw [hcalls, haccepted]; exact h.finished
  · rw [hcalls]; exact h.loaded

/-- A step of an emit call that accepts nothing. -/
theorem Records.goto {event : Nat → ClientEvent} {s₀ s : State C} {as : List (Act C)}
    (h : Records event s₀ as s) (t : Nat) (p : CallPc C)
    (hkeep : (s.calls t).finished = true → p.finished = true)
    (hfinish : p.finished = true → (s.calls t).finished = true ∨ Loaded event s₀ as t none ∨
      FoundFull event s₀ as t)
    (hpush : ∀ cb, p = .push cb → Loaded event s₀ as t (some cb)) :
    Records event s₀ as (s.goto t p) := by
  refine ⟨⟨h.bound, h.order, h.once, h.faithful, fun u h₀ hu => ?_⟩, h.started, h.control,
    fun task ht => ?_, fun u cb hu => ?_⟩
  · have hu : (Function.update s.calls t p u).finished = true := hu
    by_cases hut : u = t
    · subst hut
      rw [Function.update_self] at hu
      rcases hfinish hu with hfin | hnew
      · exact h.discards u h₀ hfin
      · exact Or.inr hnew
    · rw [Function.update_of_ne hut] at hu
      exact h.discards u h₀ hu
  · show (Function.update s.calls t p task.call).finished = true
    have hfin := h.finished task ht
    by_cases hut : task.call = t
    · rw [hut, Function.update_self]
      exact hkeep (hut ▸ hfin)
    · rw [Function.update_of_ne hut]
      exact hfin
  · have hu : Function.update s.calls t p u = .push cb := hu
    by_cases hut : u = t
    · subst hut
      rw [Function.update_self] at hu
      exact Or.inr (hpush cb hu)
    · rw [Function.update_of_ne hut] at hu
      exact h.loaded u cb hu

/-- An emit call finds room: its task is the last one accepted, and the last one of the queue. -/
theorem Records.push {event : Nat → ClientEvent} {s₀ s : State C} {as : List (Act C)}
    (h : Records event s₀ as s) {t : Nat} {cb : C} (ht : s.calls t = .push cb)
    (hroom : s.queue.length < maxEventQueueSize) :
    Records event s₀ as (State.goto { s with
      queue := s.queue ++ [⟨t, cb, event t⟩]
      accepted := s.accepted ++ [⟨t, cb, event t⟩] } t (.notify .accepted)) := by
  have hother : ∀ u, u ≠ t → Function.update s.calls t (.notify .accepted) u = s.calls u :=
    fun u hu => Function.update_of_ne hu _ _
  refine ⟨⟨?_, ?_, ?_, fun task htask => ?_, fun u h₀ hu => ?_⟩, h.started, h.control,
    fun task htask => ?_, fun u cb' hu => ?_⟩
  · show (s.queue ++ [_]).length ≤ maxEventQueueSize
    rw [List.length_append, List.length_singleton]
    exact hroom
  · show s.executed ++ s.loop.inflight.toList ++ (s.queue ++ [_]) = s.accepted ++ [_]
    rw [← List.append_assoc, h.order]
  · -- a call that is at its push has not been accepted before
    show ((s.accepted ++ [_]).map EventTask.call).Nodup
    rw [List.map_append, List.nodup_append]
    refine ⟨h.once, List.pairwise_singleton _ _, fun u hu v hv huv => ?_⟩
    obtain ⟨task, htask, rfl⟩ := List.mem_map.mp hu
    have hfin := h.finished task htask
    have hv : v = t := List.mem_singleton.mp hv
    rw [huv, hv, ht] at hfin
    cases hfin
  · rcases List.mem_append.mp htask with hold | hnew
    · exact h.faithful task hold
    · rw [List.mem_singleton.mp hnew]
      exact ⟨rfl, h.loaded t cb ht⟩
  · by_cases hut : u = t
    · exact Or.inl ⟨⟨t, cb, event t⟩, List.mem_append_right _ (List.mem_singleton.mpr rfl),
        hut.symm⟩
    · have hu : (Function.update s.calls t (.notify .accepted) u).finished = true := hu
      rw [hother u hut] at hu
      rcases h.discards u h₀ hu with ⟨task, htask, hcall⟩ | hnot
      · exact Or.inl ⟨task, List.mem_append_left _ htask, hcall⟩
      · exact Or.inr hnot
  · show (Function.update s.calls t (.notify .accepted) task.call).finished = true
    by_cases hut : task.call = t
    · rw [hut, Function.update_self]
      rfl
    · rw [hother _ hut]
      rcases List.mem_append.mp htask with hold | hnew
      · exact h.finished task hold
      · rw [List.mem_singleton.mp hnew] at hut
        exact absurd rfl hut
  · have hu : Function.update s.calls t (.notify .accepted) u = .push cb' := hu
    by_cases hut : u = t
    · rw [hut, Function.update_self] at hu
      cases hu
    · rw [hother u hut] at hu
      exact h.loaded u cb' hu

/-- **Step lemma.**  Every step that does not begin a stop keeps the records. -/
theorem records_change {event : Nat → ClientEvent} {s₀ s s' : State C} {as : List (Act C)}
    {a : Act C} (hrun : Machine.run (step event) s₀ as = some s) (h : Records event s₀ as s)
    (ha : a.isStop = false) (hchange : Change event s a s') : Records event s₀ (as ++ [a]) s' := by
  have hnoStop : s.control ≠ .swap ∧ s.control ≠ .notifyAll ∧ s.control ≠ .join := by
    rcases h.control with hc | hc <;> rw [hc] <;> decide
  have h' := h.snoc a
  -- where the event thread goes without a task, the books are the same
  have hloop : ∀ q : LoopPc C, s.loop.inflight = q.inflight →
      s.executed ++ q.inflight.toList ++ s.queue =
        s.executed ++ s.loop.inflight.toList ++ s.queue := fun q hq => by rw [hq]
  cases hchange with
  | register kind cb => exact h'.frame rfl h.control rfl rfl (Nat.le_refl _) rfl
  | entered t ht hs =>
    exact h'.goto t .load (fun hfin => by rw [ht] at hfin; cases hfin) (fun hfin => by cases hfin)
      fun cb hcb => by cases hcb
  | refused t ht hs =>
    rw [h.started] at hs
    cases hs
  | loaded t cb ht hcb =>
    refine h'.goto t (.push cb) (fun hfin => by rw [ht] at hfin; cases hfin)
      (fun hfin => by cases hfin) fun cb' hcb' => ?_
    cases hcb'
    exact Machine.took_last hrun hcb
  | unregistered t ht hcb =>
    exact h'.goto t _ (fun _ => rfl) (fun _ => Or.inr (Or.inl (Machine.took_last hrun hcb)))
      fun cb hcb' => by cases hcb'
  | accepted t cb ht hfree hroom => exact h'.push ht hroom
  | discarded t cb ht hfree hfull =>
    have heq : s.queue.length = maxEventQueueSize := Nat.le_antisymm h.bound (Nat.not_lt.mp hfull)
    exact h'.goto t _ (fun _ => rfl) (fun _ => Or.inr (Or.inr (Machine.took_last hrun heq)))
      fun cb hcb => by cases hcb
  | notified t outcome ht =>
    have hwoken : Records event s₀ (as ++ [.notify t]) { s with loop := s.loop.notified } :=
      h'.frame rfl h.control rfl rfl (Nat.le_refl _) (hloop _ s.loop.inflight_notified.symm)
    exact hwoken.goto t _ (fun _ => rfl) (fun _ => Or.inl (by rw [ht]; rfl))
      fun cb hcb => by cases hcb
  | moved q hq => exact h'.frame rfl h.control rfl rfl (Nat.le_refl _) (hloop q hq.inflight)
  | pop task rest hp hq =>
    refine h'.frame rfl h.control rfl rfl ?_ ?_
    · rw [hq]
      exact Nat.le_succ _
    · rw [hp, hq]
      simp [LoopPc.inflight]
  | invoke task hp =>
    refine h'.frame rfl h.control rfl rfl (Nat.le_refl _) ?_
    rw [hp]
    simp [LoopPc.inflight]
  | wake hp => exact h'.frame rfl h.control rfl rfl (Nat.le_refl _) (hloop .woken (by rw [hp]; rfl))
  | callbackEnds threw task hp =>
    exact h'.frame rfl h.control rfl rfl (Nat.le_refl _) (hloop .relock (by rw [hp]; rfl))
  | startedAlready hc hs => exact h'
  | start hc hs =>
    rw [h.started] at hs
    cases hs
  | stoppedAlready hc hs => cases ha
  | stop hc hs => cases ha
  | createThread hc hp =>
    exact h'.frame rfl (Or.inr rfl) rfl rfl (Nat.le_refl _) (hloop .top (by rw [hp]; rfl))
  | swap hc hfree => exact absurd hc hnoStop.1
  | notifyAll hc => exact absurd hc hnoStop.2.1
  | notJoinable hc hp => exact absurd hc hnoStop.2.2
  | join hc hp => exact absurd hc hnoStop.2.2

/-- The start opens the books. -/
theorem records_start {event : Nat → ClientEvent} {s₀ s : State C} (h₀ : Stopped s₀)
    (hstep : step event s₀ .start = some s) : Records event s₀ [.start] s := by
  simp only [step, h₀.control, h₀.started] at hstep
  cases hstep
  refine ⟨⟨?_, ?_, ?_, fun task ht => ?_, fun t hnew ht => ?_⟩, rfl, Or.inl rfl, fun task ht => ?_,
    fun t cb ht => Or.inl ht⟩
  · show s₀.queue.length ≤ maxEventQueueSize
    rw [h₀.queue]
    exact Nat.zero_le _
  · show s₀.executed ++ s₀.loop.inflight.toList ++ s₀.queue = s₀.accepted
    rw [h₀.executed, h₀.loop, h₀.queue, h₀.accepted]
    rfl
  · show (s₀.accepted.map EventTask.call).Nodup
    rw [h₀.accepted]
    exact List.nodup_nil
  · have ht : task ∈ s₀.accepted := ht
    rw [h₀.accepted] at ht
    cases ht
  · have ht : (s₀.calls t).finished = true := ht
    rw [hnew] at ht
    cases ht
  · have ht : task ∈ s₀.accepted := ht
    rw [h₀.accepted] at ht
    cases ht

/-- **Event queue discipline.**  On every run that starts the handler on an empty queue and does
    not begin to stop it, whatever emit calls, registrations and callbacks do in between. -/
theorem event_queue_discipline (event : Nat → ClientEvent) (s₀ : State C) (h₀ : Stopped s₀)
    (as : List (Act C)) (hstop : ∀ a ∈ as, a.isStop = false) (s : State C)
    (hrun : Machine.run (step event) s₀ (.start :: as) = some s) :
    Discipline event s₀ (.start :: as) s := by
  obtain ⟨s₁, hstart, hrest⟩ := Machine.run_cons_some hrun
  have hrecords : Records event s₀ (.start :: as) s := by
    refine Machine.run_history (I := fun s as => (∀ a ∈ as, a.isStop = false) →
      Records event s₀ (.start :: as) s) (fun _ => records_start h₀ hstart) ?_ hrest hstop
    intro bs u a v hu ih hv hno
    have hu' : Machine.run (step event) s₀ (.start :: bs) = some u := by
      rw [Machine.run_cons_of_step hstart]
      exact hu
    exact records_change hu' (ih fun b hb => hno b (List.mem_append_left _ hb))
      (hno a (List.mem_append_right _ (List.mem_singleton.mpr rfl))) (step_change hv)
  exact hrecords.toDiscipline

/-- A callback is registered, two emit calls are made, and the first callback throws. -/
def throwingRun : List (Act Nat) :=
  [.register .init (some 7), .control, .enter 0, .enter 1, .load 0, .push 0, .load 1, .push 1,
    .loop, .loop, .loop, .notify 0, .loop, .loop, .callbackEnds true, .notify 1,
    .loop, .loop, .loop]

theorem event_queue_discipline_throwing :
    ∃ s, Machine.run (step fun _ => .init) ({} : State Nat) (.start :: throwingRun) = some s ∧
      s.executed.map EventTask.call = [0, 1] ∧
      Discipline (fun _ => .init) ({} : State Nat) (.start :: throwingRun) s :=
  ⟨_, rfl, rfl, event_queue_discipline (fun _ => .init) {} ⟨rfl, rfl, rfl, rfl, rfl, rfl⟩
    throwingRun (by decide) _ rfl⟩

end EventHandler

end Unleash
