/-
  THE EVENT HANDLER: emit calls of any threads, one event thread, one queue between them.

  An emit call tests `_started`, loads its callback, pushes a task under the mutex if there is
  room, and notifies.  The event thread takes the tasks out one by one and runs each of them with
  the mutex released:

      top ─▶ lock ─▶ predicate ─▶ testEmpty ─▶ popped ─▶ running ─▶ relock ─▶ testEmpty …
                       │  ▲
                       ▼  └── woken ◀── blocked
                      block ──────────────▲

  The critical sections of the emit calls and of `stop()` are one step each, taken while the
  event thread does not hold the mutex (`LoopPc.holds`).  What was accepted and what was executed
  so far is recorded in the state; between a start and the next stop (`event_queue_discipline`)

      accepted  =  executed ++ in flight ++ queue.
-/
import Mathlib.Logic.Function.Basic
import UnleashSdk.Events
import UnleashSdk.Lib.Machine

set_option linter.unusedVariables false

namespace Unleash

/-- `utils::maxEventQueueSize` -/
def maxEventQueueSize : Nat := 30

namespace EventHandler

/-! ## The state -/

/-- A task: the callback and the argument that emit call number `call` has captured. -/
structure EventTask (C : Type) where
  call : Nat
  cb : C
  event : ClientEvent

/-- How an emit call ended. -/
inductive Outcome where
  | notStarted
  | noCallback
  | accepted
  | discarded
  deriving DecidableEq

/-- Where an emit call is. -/
inductive CallPc (C : Type) where
  | new
  | load
  | push (cb : C)
  | notify (outcome : Outcome)
  | returned (outcome : Outcome)

/-- Where the event thread is; `absent` before it is created and after it is joined. -/
inductive LoopPc (C : Type) where
  | absent
  | top
  | lock
  | predicate
  | block
  | blocked
  | woken
  | testEmpty
  | popped (task : EventTask C)
  | running (task : EventTask C)
  | relock
  | exited

/-- Where the thread that starts and stops the handler is. -/
inductive Control where
  | idle
  | createThread
  | swap
  | notifyAll
  | join
  deriving DecidableEq

structure State (C : Type) where
  started : Bool := false
  queue : List (EventTask C) := []
  slots : EventKind → Option C := fun _ => none
  calls : Nat → CallPc C := fun _ => .new
  loop : LoopPc C := .absent
  control : Control := .idle
  -- the records
  accepted : List (EventTask C) := []
  executed : List (EventTask C) := []

inductive Act (C : Type) where
  | register (kind : EventKind) (cb : Option C)
  | enter (t : Nat)
  | load (t : Nat)
  | push (t : Nat)
  | notify (t : Nat)
  | loop
  | wake
  | callbackEnds (threw : Bool)
  | start
  | stop
  | control

variable {C : Type}

/-- The event thread holds the mutex. -/
def LoopPc.holds : LoopPc C → Bool
  | .predicate | .block | .testEmpty => true
  | _ => false

/-- A notification wakes the event thread if it is blocked, and is lost otherwise. -/
def LoopPc.notified : LoopPc C → LoopPc C
  | .blocked => .woken
  | p => p

/-- The task that is taken out and not yet run. -/
def LoopPc.inflight : LoopPc C → Option (EventTask C)
  | .popped task => some task
  | _ => none

/-- An emit call past its push, or that has returned before it. -/
def CallPc.finished : CallPc C → Bool
  | .notify _ | .returned _ => true
  | _ => false

/-! ## The steps -/

def State.goto (s : State C) (t : Nat) (p : CallPc C) : State C :=
  { s with calls := Function.update s.calls t p }

/-- The critical section of an emit call. -/
def pushTask (s : State C) (task : EventTask C) : State C :=
  if s.queue.length < maxEventQueueSize then
    State.goto { s with queue := s.queue ++ [task], accepted := s.accepted ++ [task] } task.call
      (.notify .accepted)
  else s.goto task.call (.notify .discarded)

/-- The next step of the event thread. -/
def loopStep (s : State C) : LoopPc C → Option (State C)
  | .absent => none
  | .top => some { s with loop := if s.started then .lock else .exited }
  | .lock => some { s with loop := .predicate }
  | .predicate =>
    some { s with loop := if s.queue.isEmpty && s.started then .block else .testEmpty }
  | .block => some { s with loop := .blocked }
  | .blocked => none
  | .woken => some { s with loop := .predicate }
  | .testEmpty =>
    match s.queue with
    | [] => some { s with loop := .top }
    | task :: rest => some { s with queue := rest, loop := .popped task }
  | .popped task => some { s with executed := s.executed ++ [task], loop := .running task }
  | .running _ => none
  | .relock => some { s with loop := .testEmpty }
  | .exited => none

/-- The next step of `start()` or `stop()` past their exchange of `_started`. -/
def controlStep (s : State C) : Control → Option (State C)
  | .idle => none
  | .createThread =>
    match s.loop with
    | .absent => some { s with loop := .top, control := .idle }
    | _ => none
  | .swap => if s.loop.holds then none else some { s with queue := [], control := .notifyAll }
  | .notifyAll => some { s with loop := s.loop.notified, control := .join }
  | .join =>
    match s.loop with
    | .absent => some { s with control := .idle }
    | .exited => some { s with loop := .absent, control := .idle }
    | _ => none

/-- One step; emit call `t` is made with the event `event t`. -/
def step (event : Nat → ClientEvent) (s : State C) : Act C → Option (State C)
  | .register kind cb => some { s with slots := Function.update s.slots kind cb }
  | .enter t =>
    match s.calls t with
    | .new => some (s.goto t (if s.started then .load else .returned .notStarted))
    | _ => none
  | .load t =>
    match s.calls t with
    | .load =>
      match s.slots (event t).kind with
      | none => some (s.goto t (.returned .noCallback))
      | some cb => some (s.goto t (.push cb))
    | _ => none
  | .push t =>
    match s.calls t with
    | .push cb => if s.loop.holds then none else some (pushTask s ⟨t, cb, event t⟩)
    | _ => none
  | .notify t =>
    match s.calls t with
    | .notify outcome => some (State.goto { s with loop := s.loop.notified } t (.returned outcome))
    | _ => none
  | .loop => loopStep s s.loop
  | .wake =>
    match s.loop with
    | .blocked => some { s with loop := .woken }
    | _ => none
  | .callbackEnds _ =>
    -- what a callback throws is caught: the loop goes on alike
    match s.loop with
    | .running _ => some { s with loop := .relock }
    | _ => none
  | .start =>
    if s.control = .idle then
      if s.started then some s else some { s with started := true, control := .createThread }
    else none
  | .stop =>
    if s.control = .idle then
      if s.started then some { s with started := false, control := .swap } else some s
    else none
  | .control => controlStep s s.control

/-- The moves of the event thread that touch nothing but where it is. -/
inductive Moves (s : State C) : LoopPc C → LoopPc C → Prop where
  | enter (hs : s.started = true) : Moves s .top .lock
  | exit (hs : s.started = false) : Moves s .top .exited
  | lock : Moves s .lock .predicate
  | sleep (hq : s.queue = []) (hs : s.started = true) : Moves s .predicate .block
  | proceed (h : s.queue ≠ [] ∨ s.started = false) : Moves s .predicate .testEmpty
  | block : Moves s .block .blocked
  | reacquire : Moves s .woken .predicate
  | drained (hq : s.queue = []) : Moves s .testEmpty .top
  | relock : Moves s .relock .testEmpty

theorem Moves.inflight {s : State C} {p q : LoopPc C} (h : Moves s p q) :
    p.inflight = q.inflight := by
  cases h <;> rfl

theorem LoopPc.inflight_notified (p : LoopPc C) : p.notified.inflight = p.inflight := by
  cases p <;> rfl

/-- Everything a step can do. -/
inductive Change (event : Nat → ClientEvent) (s : State C) : Act C → State C → Prop where
  | register (kind : EventKind) (cb : Option C) :
    Change event s (.register kind cb) { s with slots := Function.update s.slots kind cb }
  | entered (t : Nat) (ht : s.calls t = .new) (hs : s.started = true) :
    Change event s (.enter t) (s.goto t .load)
  | refused (t : Nat) (ht : s.calls t = .new) (hs : s.started = false) :
    Change event s (.enter t) (s.goto t (.returned .notStarted))
  | loaded (t : Nat) (cb : C) (ht : s.calls t = .load) (hcb : s.slots (event t).kind = some cb) :
    Change event s (.load t) (s.goto t (.push cb))
  | unregistered (t : Nat) (ht : s.calls t = .load) (hcb : s.slots (event t).kind = none) :
    Change event s (.load t) (s.goto t (.returned .noCallback))
  | accepted (t : Nat) (cb : C) (ht : s.calls t = .push cb) (hfree : s.loop.holds = false)
    (hroom : s.queue.length < maxEventQueueSize) :
    Change event s (.push t) (State.goto { s with
      queue := s.queue ++ [⟨t, cb, event t⟩]
      accepted := s.accepted ++ [⟨t, cb, event t⟩] } t (.notify .accepted))
  | discarded (t : Nat) (cb : C) (ht : s.calls t = .push cb) (hfree : s.loop.holds = false)
    (hfull : ¬ s.queue.length < maxEventQueueSize) :
    Change event s (.push t) (s.goto t (.notify .discarded))
  | notified (t : Nat) (outcome : Outcome) (ht : s.calls t = .notify outcome) :
    Change event s (.notify t) (State.goto { s with loop := s.loop.notified } t (.returned outcome))
  | moved (q : LoopPc C) (hq : Moves s s.loop q) : Change event s .loop { s with loop := q }
  | pop (task : EventTask C) (rest : List (EventTask C)) (hp : s.loop = .testEmpty)
    (hq : s.queue = task :: rest) :
    Change event s .loop { s with queue := rest, loop := .popped task }
  | invoke (task : EventTask C) (hp : s.loop = .popped task) :
    Change event s .loop { s with executed := s.executed ++ [task], loop := .running task }
  | wake (hp : s.loop = .blocked) : Change event s .wake { s with loop := .woken }
  | callbackEnds (threw : Bool) (task : EventTask C) (hp : s.loop = .running task) :
    Change event s (.callbackEnds threw) { s with loop := .relock }
  | startedAlready (hc : s.control = .idle) (hs : s.started = true) : Change event s .start s
  | start (hc : s.control = .idle) (hs : s.started = false) :
    Change event s .start { s with started := true, control := .createThread }
  | stoppedAlready (hc : s.control = .idle) (hs : s.started = false) : Change event s .stop s
  | stop (hc : s.control = .idle) (hs : s.started = true) :
    Change event s .stop { s with started := false, control := .swap }
  | createThread (hc : s.control = .createThread) (hp : s.loop = .absent) :
    Change event s .control { s with loop := .top, control := .idle }
  | swap (hc : s.control = .swap) (hfree : s.loop.holds = false) :
    Change event s .control { s with queue := [], control := .notifyAll }
  | notifyAll (hc : s.control = .notifyAll) :
    Change event s .control { s with loop := s.loop.notified, control := .join }
  | notJoinable (hc : s.control = .join) (hp : s.loop = .absent) :
    Change event s .control { s with control := .idle }
  | join (hc : s.control = .join) (hp : s.loop = .exited) :
    Change event s .control { s with loop := .absent, control := .idle }

theorem loopStep_change {event : Nat → ClientEvent} {s s' : State C}
    (h : loopStep s s.loop = some s') : Change event s .loop s' := by
  have hmove : ∀ q, Moves s s.loop q → s' = { s with loop := q } → Change event s .loop s' :=
    fun q hq hs' => hs' ▸ .moved q hq
  generalize hp : s.loop = p at h hmove
  cases p with
  | absent => cases h
  | top =>
    simp only [loopStep] at h
    split at h <;> cases h
    · rename_i hs
      exact hmove .lock (.enter hs) rfl
    · rename_i hs
      exact hmove .exited (.exit (Bool.eq_false_iff.mpr hs)) rfl
  | lock => cases h; exact hmove .predicate .lock rfl
  | predicate =>
    simp only [loopStep] at h
    split at h <;> cases h
    · rename_i hsleep
      rw [Bool.and_eq_true, List.isEmpty_iff] at hsleep
      exact hmove .block (.sleep hsleep.1 hsleep.2) rfl
    · rename_i hgo
      refine hmove .testEmpty (.proceed ?_) rfl
      by_contra hnot
      rw [not_or, not_not, Bool.not_eq_false] at hnot
      exact hgo (by rw [hnot.1, hnot.2]; rfl)
  | block => cases h; exact hmove .blocked .block rfl
  | blocked => cases h
  | woken => cases h; exact hmove .predicate .reacquire rfl
  | testEmpty =>
    simp only [loopStep] at h
    split at h <;> cases h
    · rename_i hq
      exact hmove .top (.drained hq) rfl
    · rename_i task rest hq
      exact .pop task rest hp hq
  | popped task => cases h; exact .invoke task hp
  | running task => cases h
  | relock => cases h; exact hmove .testEmpty .relock rfl
  | exited => cases h

theorem controlStep_change {event : Nat → ClientEvent} {s s' : State C}
    (h : controlStep s s.control = some s') : Change event s .control s' := by
  generalize hc : s.control = p at h
  cases p with
  | idle => cases h
  | createThread =>
    simp only [controlStep] at h
    split at h <;> cases h
    rename_i hp
    exact .createThread hc hp
  | swap =>
    simp only [controlStep] at h
    split at h <;> cases h
    rename_i hfree
    exact .swap hc (Bool.eq_false_iff.mpr hfree)
  | notifyAll => cases h; exact .notifyAll hc
  | join =>
    simp only [controlStep] at h
    split at h <;> cases h
    · rename_i hp
      exact .notJoinable hc hp
    · rename_i hp
      exact .join hc hp

theorem step_change {event : Nat → ClientEvent} {s s' : State C} {a : Act C}
    (h : step event s a = some s') : Change event s a s' := by
  cases a with
  | register kind cb => cases h; exact .register kind cb
  | enter t =>
    simp only [step] at h
    split at h
    · rename_i ht
      split at h <;> cases h
      · rename_i hs
        exact .entered t ht hs
      · rename_i hs
        exact .refused t ht (Bool.eq_false_iff.mpr hs)
    · cases h
  | load t =>
    simp only [step] at h
    split at h
    · rename_i ht
      split at h <;> cases h
      · rename_i hcb
        exact .unregistered t ht hcb
      · rename_i cb hcb
        exact .loaded t cb ht hcb
    · cases h
  | push t =>
    simp only [step] at h
    split at h
    · rename_i cb ht
      split at h <;> cases h
      rename_i hfree
      have hfree := Bool.eq_false_iff.mpr hfree
      unfold pushTask
      split
      · rename_i hroom
        exact .accepted t cb ht hfree hroom
      · rename_i hfull
        exact .discarded t cb ht hfree hfull
    · cases h
  | notify t =>
    simp only [step] at h
    split at h <;> cases h
    rename_i outcome ht
    exact .notified t outcome ht
  | loop => exact loopStep_change h
  | wake =>
    simp only [step] at h
    split at h <;> cases h
    rename_i hp
    exact .wake hp
  | callbackEnds threw =>
    simp only [step] at h
    split at h <;> cases h
    rename_i task hp
    exact .callbackEnds threw task hp
  | start =>
    simp only [step] at h
    split at h
    · rename_i hc
      split at h <;> cases h
      · rename_i hs
        exact .startedAlready hc hs
      · rename_i hs
        exact .start hc (Bool.eq_false_iff.mpr hs)
    · cases h
  | stop =>
    simp only [step] at h
    split at h
    · rename_i hc
      split at h <;> cases h
      · rename_i hs
        exact .stop hc hs
      · rename_i hs
        exact .stoppedAlready hc (Bool.eq_false_iff.mpr hs)
    · cases h
  | control => exact controlStep_change h

end EventHandler

end Unleash
