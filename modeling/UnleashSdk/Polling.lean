/-
  THE POLLING THREAD, and the contexts it fetches with.

  The thread copies `_context` under its mutex and fetches with the copy.  `updateContext`
  replaces the mutable fields under the same mutex, sets `_contextUpdated` and notifies.  The
  thread clears the flag in the critical section in which it takes its next copy:

      initialSnapshot ─▶ fetch c ─▶ testExit ─▶ lock ─▶ predicate ─▶ testStopped ─▶ take
                            ▲                    │  ▲                    │           │
                            │                    ▼  └── woken ◀─ blocked ◀─ block    │
                            └──────────── testStoppedAgain c ◀───────────────────────┘

  `wait_for` is the stretch from `predicate` to the end of the wait: the predicate is evaluated
  with the mutex held, and blocking releases it.  A notification, a timeout or nothing at all may
  wake the thread.  The fetch itself is one step; what it does is the subject of other modules.
-/
import Mathlib.Logic.Function.Basic
import UnleashSdk.Context
import UnleashSdk.Lib.Machine

set_option linter.unusedVariables false

namespace Unleash

namespace Polling

/-! ## The state -/

/-- Where the polling thread is. -/
inductive Pc where
  | testEnabled
  | initialSnapshot
  | fetch (ctx : Context)
  | testExit
  | lock
  | predicate
  | block
  | blocked
  | woken (timedOut : Bool)
  | testStopped
  | take
  | testStoppedAgain (ctx : Context)
  | returned

/-- Where `stop()` is. -/
inductive StopPc where
  | idle
  | notify
  | join
  deriving DecidableEq

structure State where
  context : Context
  contextUpdated : Bool := false
  exitThreads : Bool := false
  pc : Pc := .testEnabled
  stopPc : StopPc := .idle
  -- the calls of `updateContext` that are about to notify
  notifying : Nat → Bool := fun _ => false
  -- the records: the copy that was taken last, and the context of the most recent fetch
  lastSnapshot : Option Context := none
  lastFetched : Option Context := none

inductive Act where
  | poll
  | timeout
  | spurious
  | updateContext (u : Nat) (mutableContext : MutableContext)
  | notifyOne (u : Nat)
  | stop
  | notifyAll

/-- The thread holds `_mutexPolling`. -/
def Pc.holds : Pc → Bool
  | .predicate | .block | .testStopped | .take => true
  | _ => false

/-- A notification wakes the thread if it is blocked, and is lost otherwise. -/
def Pc.notified : Pc → Pc
  | .blocked => .woken false
  | p => p

/-- The thread is in `wait_for`. -/
def Pc.waiting : Pc → Bool
  | .predicate | .block | .blocked | .woken _ => true
  | _ => false

/-! ## The steps -/

/-- The next step of the polling thread. -/
def pollStep (refreshEnabled : Bool) (s : State) : Option State :=
  match s.pc with
  | .testEnabled => some { s with pc := if refreshEnabled then .initialSnapshot else .returned }
  | .initialSnapshot => some { s with lastSnapshot := some s.context, pc := .fetch s.context }
  | .fetch ctx => some { s with lastFetched := some ctx, pc := .testExit }
  | .testExit => some { s with pc := if s.exitThreads then .returned else .lock }
  | .lock => some { s with pc := .predicate }
  | .predicate =>
    some { s with pc := if s.exitThreads || s.contextUpdated then .testStopped else .block }
  | .block => some { s with pc := .blocked }
  | .blocked => none
  -- after a timeout the predicate is evaluated once more, and its value is not used
  | .woken timedOut => some { s with pc := if timedOut then .testStopped else .predicate }
  | .testStopped =>
    -- the exit path returns a copy, too, and leaves the flag alone
    if s.exitThreads then
      some { s with lastSnapshot := some s.context, pc := .testStoppedAgain s.context }
    else some { s with pc := .take }
  | .take =>
    some { s with
      contextUpdated := false
      lastSnapshot := some s.context
      pc := .testStoppedAgain s.context }
  | .testStoppedAgain ctx => some { s with pc := if s.exitThreads then .returned else .fetch ctx }
  | .returned => none

def step (refreshEnabled : Bool) (s : State) : Act → Option State
  | .poll => pollStep refreshEnabled s
  | .timeout =>
    match s.pc with
    | .blocked => some { s with pc := .woken true }
    | _ => none
  | .spurious =>
    match s.pc with
    | .blocked => some { s with pc := .woken false }
    | _ => none
  | .updateContext u mutableContext =>
    if s.pc.holds || s.notifying u then none
    else
      some { s with
        context := s.context.updateMutableContext mutableContext
        contextUpdated := true
        notifying := Function.update s.notifying u true }
  | .notifyOne u =>
    if s.notifying u then
      some { s with pc := s.pc.notified, notifying := Function.update s.notifying u false }
    else none
  | .stop =>
    match s.stopPc with
    | .idle => some { s with exitThreads := true, stopPc := .notify }
    | _ => none
  | .notifyAll =>
    match s.stopPc with
    | .notify => some { s with pc := s.pc.notified, stopPc := .join }
    | _ => none

/-- A client that has been started with this context. -/
def initial (ctx : Context) : State := { context := ctx }

/-! ## Everything a step can do -/

/-- The step of the polling thread, from where it is. -/
inductive PollChange (refreshEnabled : Bool) (s : State) : Pc → State → Prop where
  | testEnabled : PollChange refreshEnabled s .testEnabled
      { s with pc := if refreshEnabled then .initialSnapshot else .returned }
  | initialSnapshot : PollChange refreshEnabled s .initialSnapshot
      { s with lastSnapshot := some s.context, pc := .fetch s.context }
  | fetch (ctx : Context) : PollChange refreshEnabled s (.fetch ctx)
      { s with lastFetched := some ctx, pc := .testExit }
  | testExit : PollChange refreshEnabled s .testExit
      { s with pc := if s.exitThreads then .returned else .lock }
  | lock : PollChange refreshEnabled s .lock { s with pc := .predicate }
  | predicate : PollChange refreshEnabled s .predicate
      { s with pc := if s.exitThreads || s.contextUpdated then .testStopped else .block }
  | block : PollChange refreshEnabled s .block { s with pc := .blocked }
  | woken (timedOut : Bool) : PollChange refreshEnabled s (.woken timedOut)
      { s with pc := if timedOut then .testStopped else .predicate }
  | stopped (hexit : s.exitThreads = true) : PollChange refreshEnabled s .testStopped
      { s with lastSnapshot := some s.context, pc := .testStoppedAgain s.context }
  | notStopped (hexit : s.exitThreads = false) : PollChange refreshEnabled s .testStopped
      { s with pc := .take }
  | take : PollChange refreshEnabled s .take
      { s with
        contextUpdated := false
        lastSnapshot := some s.context
        pc := .testStoppedAgain s.context }
  | testStoppedAgain (ctx : Context) : PollChange refreshEnabled s (.testStoppedAgain ctx)
      { s with pc := if s.exitThreads then .returned else .fetch ctx }

theorem pollStep_change {refreshEnabled : Bool} {s s' : State}
    (h : pollStep refreshEnabled s = some s') : PollChange refreshEnabled s s.pc s' := by
  unfold pollStep at h
  generalize s.pc = p at h
  cases p with
  | testEnabled =>
    cases h
    exact .testEnabled
  | initialSnapshot =>
    cases h
    exact .initialSnapshot
  | fetch ctx =>
    cases h
    exact .fetch ctx
  | testExit =>
    cases h
    exact .testExit
  | lock =>
    cases h
    exact .lock
  | predicate =>
    cases h
    exact .predicate
  | block =>
    cases h
    exact .block
  | blocked => cases h
  | woken timedOut =>
    cases h
    exact .woken timedOut
  | testStopped =>
    simp only at h
    split at h <;> cases h
    · rename_i hexit
      exact .stopped hexit
    · rename_i hexit
      exact .notStopped (Bool.eq_false_iff.mpr hexit)
  | take =>
    cases h
    exact .take
  | testStoppedAgain ctx =>
    cases h
    exact .testStoppedAgain ctx
  | returned => cases h

/-- The thread itself touches neither the exit flag nor the context, nor `stop()`. -/
theorem PollChange.frame {refreshEnabled : Bool} {s s' : State} {p : Pc}
    (h : PollChange refreshEnabled s p s') :
    s'.exitThreads = s.exitThreads ∧ s'.context = s.context ∧ s'.stopPc = s.stopPc := by
  cases h <;> exact ⟨rfl, rfl, rfl⟩

inductive Change (refreshEnabled : Bool) (s : State) : Act → State → Prop where
  | poll (s' : State) (h : PollChange refreshEnabled s s.pc s') : Change refreshEnabled s .poll s'
  | timeout (hp : s.pc = .blocked) :
    Change refreshEnabled s .timeout { s with pc := .woken true }
  | spurious (hp : s.pc = .blocked) :
    Change refreshEnabled s .spurious { s with pc := .woken false }
  | updateContext (u : Nat) (mutableContext : MutableContext) (hfree : s.pc.holds = false) :
    Change refreshEnabled s (.updateContext u mutableContext)
      { s with
        context := s.context.updateMutableContext mutableContext
        contextUpdated := true
        notifying := Function.update s.notifying u true }
  | notifyOne (u : Nat) :
    Change refreshEnabled s (.notifyOne u)
      { s with pc := s.pc.notified, notifying := Function.update s.notifying u false }
  | stop (hidle : s.stopPc = .idle) :
    Change refreshEnabled s .stop { s with exitThreads := true, stopPc := .notify }
  | notifyAll (hnotify : s.stopPc = .notify) :
    Change refreshEnabled s .notifyAll { s with pc := s.pc.notified, stopPc := .join }

theorem step_change {refreshEnabled : Bool} {s s' : State} {a : Act}
    (h : step refreshEnabled s a = some s') : Change refreshEnabled s a s' := by
  cases a with
  | poll => exact .poll s' (pollStep_change h)
  | timeout =>
    simp only [step] at h
    split at h <;> cases h
    rename_i hp
    exact .timeout hp
  | spurious =>
    simp only [step] at h
    split at h <;> cases h
    rename_i hp
    exact .spurious hp
  | updateContext u mutableContext =>
    simp only [step] at h
    split at h <;> cases h
    rename_i hfree
    rw [Bool.or_eq_true, not_or] at hfree
    exact .updateContext u mutableContext (Bool.eq_false_iff.mpr hfree.1)
  | notifyOne u =>
    simp only [step] at h
    split at h <;> cases h
    exact .notifyOne u
  | stop =>
    simp only [step] at h
    split at h <;> cases h
    rename_i hidle
    exact .stop hidle
  | notifyAll =>
    simp only [step] at h
    split at h <;> cases h
    rename_i hnotify
    exact .notifyAll hnotify

/-! ## What is kept -/

/-- What is recorded when the thread is here: it waits only after it has fetched with the copy
    that it took last. -/
def Located (p : Pc) (lastSnapshot lastFetched : Option Context) : Prop :=
  match p with
  | .testEnabled | .initialSnapshot => lastSnapshot = none
  | .fetch c | .testStoppedAgain c => lastSnapshot = some c
  | .returned => True
  | _ => lastSnapshot.isSome = true ∧ lastFetched = lastSnapshot

/-- The invariant.  `updated`: the flag is set while the last copy is out of date; `blocking`: the
    thread blocks only when there was nothing to do; `wakeup`: if there is something to do since,
    it will be notified; `stopped`: it returns only because it is told to. -/
structure Inv (s : State) : Prop where
  updated : ∀ c, s.lastSnapshot = some c → s.context ≠ c → s.contextUpdated = true
  located : Located s.pc s.lastSnapshot s.lastFetched
  blocking : s.pc = .block → s.contextUpdated = false
  wakeup : s.pc = .blocked → s.contextUpdated = true → ∃ u, s.notifying u = true
  stopped : s.pc = .returned → s.lastSnapshot.isSome = true → s.exitThreads = true

theorem inv_initial (ctx : Context) : Inv (initial ctx) :=
  ⟨fun c hc => (by cases hc), rfl, fun h => (by cases h), fun h => (by cases h),
    fun h => (by cases h)⟩

/-- The thread moves on without taking a copy. -/
theorem Inv.goto {s : State} (h : Inv s) {q : Pc} (hq : Located q s.lastSnapshot s.lastFetched)
    (hblock : q = .block → s.contextUpdated = false) (hblocked : q = .blocked → s.pc = .block)
    (hreturned : q = .returned → s.lastSnapshot.isSome = true → s.exitThreads = true) :
    Inv { s with pc := q } := by
  refine ⟨h.updated, hq, hblock, fun hp hflag => ?_, hreturned⟩
  have hflag : s.contextUpdated = true := hflag
  rw [h.blocking (hblocked hp)] at hflag
  cases hflag

/-- The thread moves on to a point where it neither sleeps nor has returned. -/
theorem Inv.move {s : State} (h : Inv s) {q : Pc} (hq : Located q s.lastSnapshot s.lastFetched)
    (hne : q ≠ .block ∧ q ≠ .blocked ∧ q ≠ .returned) : Inv { s with pc := q } :=
  h.goto hq (fun he => absurd he hne.1) (fun he => absurd he hne.2.1)
    fun he => absurd he hne.2.2

/-- The thread takes a copy. -/
theorem inv_snapshot {s s' : State} {q : Pc} (hcontext : s'.context = s.context)
    (hsnapshot : s'.lastSnapshot = some s.context) (hpc : s'.pc = q)
    (hq : q = .fetch s.context ∨ q = .testStoppedAgain s.context) : Inv s' := by
  refine ⟨fun c hc hne => ?_, ?_, fun hp => ?_, fun hp => ?_, fun hp => ?_⟩
  · rw [hsnapshot] at hc
    exact absurd (hcontext.trans (Option.some.inj hc)) hne
  · rw [hpc, hsnapshot]
    rcases hq with rfl | rfl <;> rfl
  all_goals
    rw [hpc] at hp
    rcases hq with rfl | rfl <;> cases hp

/-- **Step lemma for the polling thread.** -/
theorem inv_pollStep {refreshEnabled : Bool} {s s' : State} {p : Pc} (h : Inv s) (hp : s.pc = p)
    (hc : PollChange refreshEnabled s p s') : Inv s' := by
  have hloc : Located p s.lastSnapshot s.lastFetched := hp ▸ h.located
  cases hc with
  | testEnabled =>
    split
    · exact h.move hloc (by simp)
    · have hnone : s.lastSnapshot = none := hloc
      exact h.goto trivial (by simp) (by simp) fun _ hsome => by
        rw [hnone] at hsome
        cases hsome
  | initialSnapshot => exact inv_snapshot (s := s) rfl rfl rfl (Or.inl rfl)
  | fetch ctx =>
    have hsnap : s.lastSnapshot = some ctx := hloc
    refine ⟨h.updated, ⟨?_, hsnap.symm⟩, by simp, by simp, by simp⟩
    show s.lastSnapshot.isSome = true
    rw [hsnap]
    rfl
  | testExit =>
    split
    · rename_i hexit
      exact h.goto trivial (by simp) (by simp) fun _ _ => hexit
    · exact h.move hloc (by simp)
  | lock => exact h.move hloc (by simp)
  | predicate =>
    split
    · exact h.move hloc (by simp)
    · rename_i hidle
      rw [Bool.or_eq_true, not_or] at hidle
      exact h.goto hloc (fun _ => Bool.eq_false_iff.mpr hidle.2) (by simp) (by simp)
  | block => exact h.goto hloc (by simp) (fun _ => hp) (by simp)
  | woken timedOut =>
    cases timedOut with
    | true => exact h.move hloc (by simp)
    | false => exact h.move hloc (by simp)
  | stopped hexit => exact inv_snapshot (s := s) rfl rfl rfl (Or.inr rfl)
  | notStopped hexit => exact h.move hloc (by simp)
  | take => exact inv_snapshot (s := s) rfl rfl rfl (Or.inr rfl)
  | testStoppedAgain ctx =>
    split
    · rename_i hexit
      exact h.goto trivial (by simp) (by simp) fun _ _ => hexit
    · exact h.move hloc (by simp)

/-- A notification, whoever it wakes. -/
theorem Inv.notified {s s' : State} (h : Inv s) (hcontext : s'.context = s.context)
    (hflag : s'.contextUpdated = s.contextUpdated) (hexit : s.exitThreads = s'.exitThreads)
    (hpc : s'.pc = s.pc.notified) (hsnap : s'.lastSnapshot = s.lastSnapshot)
    (hfetched : s'.lastFetched = s.lastFetched) : Inv s' := by
  have hnot : s.pc.notified ≠ .blocked ∧ Located s.pc.notified s.lastSnapshot s.lastFetched ∧
      (s.pc.notified = .block → s.pc = .block) ∧
      (s.pc.notified = .returned → s.pc = .returned) := by
    have hloc := h.located
    cases hp : s.pc with
    | blocked => rw [hp] at hloc; exact ⟨nofun, hloc, nofun, nofun⟩
    | _ => rw [hp] at hloc; exact ⟨nofun, hloc, fun he => he, fun he => he⟩
  refine ⟨?_, ?_, fun hp => ?_, fun hp => ?_, fun hp => ?_⟩
  · rw [hcontext, hsnap, hflag]
    exact h.updated
  · rw [hpc, hsnap, hfetched]
    exact hnot.2.1
  · rw [hflag]
    exact h.blocking (hnot.2.2.1 (hpc ▸ hp))
  · exact absurd (hpc ▸ hp) hnot.1
  · rw [hsnap, ← hexit]
    exact h.stopped (hnot.2.2.2 (hpc ▸ hp))

/-- **Step lemma.** -/
theorem inv_step {refreshEnabled : Bool} {s s' : State} {a : Act} (h : Inv s)
    (hstep : step refreshEnabled s a = some s') : Inv s' := by
  have hloc := h.located
  cases step_change hstep with
  | poll _ hc => exact inv_pollStep h rfl hc
  | timeout hp =>
    rw [hp] at hloc
    exact h.move hloc (by simp)
  | spurious hp =>
    rw [hp] at hloc
    exact h.move hloc (by simp)
  | updateContext u mutableContext hfree =>
    refine ⟨fun _ _ _ => rfl, h.located, fun hp => ?_, fun _ _ => ⟨u, Function.update_self _ _ _⟩,
      h.stopped⟩
    -- the mutex keeps the flag as the predicate has seen it, until the thread is blocked
    have hp : s.pc = .block := hp
    rw [hp] at hfree
    cases hfree
  | notifyOne u => exact h.notified rfl rfl rfl rfl rfl rfl
  | stop hidle => exact ⟨h.updated, h.located, h.blocking, h.wakeup, fun _ _ => rfl⟩
  | notifyAll hnotify => exact h.notified rfl rfl rfl rfl rfl rfl

/-! ## The next fetch -/

def Act.isPoll : Act → Bool
  | .poll => true
  | _ => false

/-- After `s` the thread takes a copy of the context, and fetches with it. -/
def FetchesAfter (refreshEnabled : Bool) (s : State) (bs : List Act) : Prop :=
  ∃ b₁ b₂ b₃ u v, bs = b₁ ++ .poll :: (b₂ ++ .poll :: b₃) ∧
    Machine.run (step refreshEnabled) s b₁ = some u ∧ u.pc = .take ∧
    Machine.run (step refreshEnabled) s (b₁ ++ .poll :: b₂) = some v ∧ v.pc = .fetch u.context

/-- The steps of its own that the thread takes up to its next copy, that included, if the flag
    is set and the client is not stopped. -/
def Pc.distance : Pc → Nat
  | .testStoppedAgain _ => 7
  | .fetch _ => 6
  | .testExit => 5
  | .lock | .blocked | .woken _ => 4
  | .predicate => 3
  | .testStopped => 2
  | .take => 1
  | _ => 0

theorem Pc.distance_le (p : Pc) : p.distance ≤ 7 := by
  cases p <;> simp [Pc.distance]

/-- What other threads do does not move the thread, but for waking it. -/
theorem step_other {refreshEnabled : Bool} {s s' : State} {a : Act} (ha : a.isPoll = false)
    (h : step refreshEnabled s a = some s') :
    (s'.pc = s.pc ∨ s.pc = .blocked ∧ ∃ timedOut, s'.pc = .woken timedOut) ∧
      (s.contextUpdated = true → s'.contextUpdated = true) ∧ s'.lastSnapshot = s.lastSnapshot ∧
      (s.exitThreads = true → s'.exitThreads = true) := by
  have hnotified : s.pc.notified = s.pc ∨
      s.pc = .blocked ∧ ∃ timedOut, s.pc.notified = .woken timedOut := by
    cases hp : s.pc with
    | blocked => exact Or.inr ⟨rfl, false, rfl⟩
    | _ => exact Or.inl rfl
  cases step_change h with
  | poll _ hc => cases ha
  | timeout hp => exact ⟨Or.inr ⟨hp, true, rfl⟩, fun hf => hf, rfl, fun he => he⟩
  | spurious hp => exact ⟨Or.inr ⟨hp, false, rfl⟩, fun hf => hf, rfl, fun he => he⟩
  | updateContext u mutableContext hfree => exact ⟨Or.inl rfl, fun _ => rfl, rfl, fun he => he⟩
  | notifyOne u => exact ⟨hnotified, fun hf => hf, rfl, fun he => he⟩
  | stop hidle => exact ⟨Or.inl rfl, fun hf => hf, rfl, fun _ => rfl⟩
  | notifyAll hnotify => exact ⟨hnotified, fun hf => hf, rfl, fun he => he⟩

/-- A client that is not stopped at the end of a run was not stopped before. -/
theorem exit_of_run {refreshEnabled : Bool} {s t : State} {bs : List Act}
    (hrun : Machine.run (step refreshEnabled) s bs = some t) (ht : t.exitThreads = false) :
    s.exitThreads = false := by
  cases he : s.exitThreads with
  | false => rfl
  | true =>
    have hkeep : t.exitThreads = true := by
      refine Machine.run_inv (I := fun s => s.exitThreads = true) ?_ he hrun
      intro u a v hu hv
      cases ha : a.isPoll with
      | false => exact (step_other ha hv).2.2.2 hu
      | true =>
        cases a with
        | poll => exact (pollStep_change hv).frame.1.trans hu
        | _ => cases ha
    rw [hkeep] at ht
    cases ht

/-- Towards the next copy: every step of the thread brings it closer. -/
theorem pollStep_closer {refreshEnabled : Bool} {s s' : State} {p : Pc} (hinv : Inv s)
    (hsnap : s.lastSnapshot.isSome = true) (hflag : s.contextUpdated = true)
    (hexit : s.exitThreads = false) (hp : s.pc = p) (hne : p ≠ .take)
    (hc : PollChange refreshEnabled s p s') :
    s'.pc.distance + 1 ≤ p.distance ∧ s'.contextUpdated = true ∧
      s'.lastSnapshot.isSome = true := by
  have hloc : Located p s.lastSnapshot s.lastFetched := hp ▸ hinv.located
  cases hc with
  | testEnabled | initialSnapshot =>
    have hnone : s.lastSnapshot = none := hloc
    rw [hnone] at hsnap
    cases hsnap
  | block =>
    have hidle := hinv.blocking hp
    rw [hflag] at hidle
    cases hidle
  | take => exact absurd rfl hne
  | stopped hexit' =>
    rw [hexit] at hexit'
    cases hexit'
  | woken timedOut =>
    refine ⟨?_, hflag, hsnap⟩
    cases timedOut <;> simp [Pc.distance]
  | testExit | predicate | testStoppedAgain ctx =>
    refine ⟨?_, hflag, hsnap⟩
    simp [hexit, hflag, Pc.distance]
  | fetch ctx | lock | notStopped hexit' => exact ⟨Nat.le_refl _, hflag, hsnap⟩

/-- The copy that was taken is fetched with. -/
theorem fetch_of_taken {refreshEnabled : Bool} {c : Context} {t : State}
    (ht : t.exitThreads = false) {bs : List Act} {s : State}
    (hpc : s.pc = .fetch c ∧ 1 ≤ bs.countP Act.isPoll ∨
      s.pc = .testStoppedAgain c ∧ 2 ≤ bs.countP Act.isPoll)
    (hrun : Machine.run (step refreshEnabled) s bs = some t) :
    ∃ b₁ b₂ v, bs = b₁ ++ .poll :: b₂ ∧ Machine.run (step refreshEnabled) s b₁ = some v ∧
      v.pc = .fetch c := by
  induction bs generalizing s with
  | nil => rcases hpc with ⟨-, hcount⟩ | ⟨-, hcount⟩ <;> cases hcount
  | cons a bs ih =>
    obtain ⟨s', hs', hrest⟩ := Machine.run_cons_some hrun
    have hexit := exit_of_run hrun ht
    have hcons : (∃ b₁ b₂ v, bs = b₁ ++ .poll :: b₂ ∧
          Machine.run (step refreshEnabled) s' b₁ = some v ∧ v.pc = .fetch c) →
        ∃ b₁ b₂ v, a :: bs = b₁ ++ .poll :: b₂ ∧
          Machine.run (step refreshEnabled) s b₁ = some v ∧ v.pc = .fetch c := by
      rintro ⟨b₁, b₂, v, rfl, hv, hvp⟩
      exact ⟨a :: b₁, b₂, v, rfl, by rw [Machine.run_cons_of_step hs']; exact hv, hvp⟩
    rw [List.countP_cons] at hpc
    cases ha : a.isPoll with
    | false =>
      obtain ⟨hsame, -⟩ := step_other ha hs'
      have hsame : s'.pc = s.pc := by
        rcases hsame with hsame | ⟨hblocked, -⟩
        · exact hsame
        · rw [hblocked] at hpc
          rcases hpc with ⟨hp, -⟩ | ⟨hp, -⟩ <;> cases hp
      rw [ha] at hpc
      exact hcons (ih (by rw [hsame]; simpa using hpc) hrest)
    | true =>
      cases a with
      | poll =>
        rcases hpc with ⟨hp, -⟩ | ⟨hp, hcount⟩
        · exact ⟨[], bs, s, rfl, rfl, hp⟩
        · have hc : PollChange refreshEnabled s (.testStoppedAgain c) s' := hp ▸ pollStep_change hs'
          have hs'pc : s'.pc = .fetch c := by
            cases hc
            simp [hexit]
          rw [ha, if_pos rfl] at hcount
          exact hcons (ih (Or.inl ⟨hs'pc, by omega⟩) hrest)
      | _ => cases ha

/-- **Run lemma.**  With the flag set and the client not stopped, nine steps of the thread see
    it take the next copy and fetch with it. -/
theorem fetchesAfter {refreshEnabled : Bool} {t : State} (ht : t.exitThreads = false)
    {bs : List Act} {s : State} (hinv : Inv s) (hsnap : s.lastSnapshot.isSome = true)
    (hflag : s.contextUpdated = true) (hcount : s.pc.distance + 2 ≤ bs.countP Act.isPoll)
    (hrun : Machine.run (step refreshEnabled) s bs = some t) :
    FetchesAfter refreshEnabled s bs := by
  -- induction on the schedule: another thread keeps the distance, the thread itself lessens it
  induction bs generalizing s with
  | nil => cases hcount
  | cons a bs ih =>
    obtain ⟨s', hs', hrest⟩ := Machine.run_cons_some hrun
    have hexit := exit_of_run hrun ht
    have hcons : FetchesAfter refreshEnabled s' bs → FetchesAfter refreshEnabled s (a :: bs) := by
      rintro ⟨b₁, b₂, b₃, u, v, rfl, hu, hup, hv, hvp⟩
      refine ⟨a :: b₁, b₂, b₃, u, v, rfl, ?_, hup, ?_, hvp⟩
      · rw [Machine.run_cons_of_step hs']; exact hu
      · rw [List.cons_append, Machine.run_cons_of_step hs']; exact hv
    cases ha : a.isPoll with
    | false =>
      obtain ⟨hpc, hflag', hsnap', -⟩ := step_other ha hs'
      rw [List.countP_cons, ha] at hcount
      refine hcons (ih (inv_step hinv hs') (hsnap' ▸ hsnap) (hflag' hflag) ?_ hrest)
      rcases hpc with hsame | ⟨hblocked, timedOut, hwoken⟩
      · rw [hsame]
        simpa using hcount
      · rw [hblocked] at hcount
        rw [hwoken]
        exact hcount
    | true =>
      rw [List.countP_cons, ha, if_pos rfl] at hcount
      cases a with
      | poll =>
        by_cases htake : s.pc = .take
        · -- the copy is taken here
          have hc : PollChange refreshEnabled s .take s' := htake ▸ pollStep_change hs'
          have hs'pc : s'.pc = .testStoppedAgain s.context := by
            cases hc
            rfl
          rw [htake] at hcount
          obtain ⟨b₁, b₂, v, rfl, hv, hvp⟩ := fetch_of_taken ht
            (Or.inr ⟨hs'pc, Nat.le_of_succ_le_succ hcount⟩) hrest
          refine ⟨[], b₁, b₂, s, v, rfl, rfl, htake, ?_, hvp⟩
          rw [List.nil_append, Machine.run_cons_of_step hs']
          exact hv
        · obtain ⟨hcloser, hflag', hsnap'⟩ := pollStep_closer hinv hsnap hflag hexit rfl htake
            (pollStep_change hs')
          exact hcons (ih (inv_step hinv hs') hsnap' hflag' (by omega) hrest)
      | _ => cases ha

/-! ## No context update is lost -/

/-- The mutable fields that a step puts into the context. -/
def Act.update : Act → Option MutableContext
  | .updateContext _ mutableContext => some mutableContext
  | _ => none

/-- The updates of a run, in the order of their critical sections. -/
def updates (as : List Act) : List MutableContext := as.filterMap Act.update

theorem context_step {refreshEnabled : Bool} {s s' : State} {a : Act}
    (h : step refreshEnabled s a = some s') :
    s'.context = a.update.toList.foldl Context.updateMutableContext s.context := by
  cases step_change h with
  | poll _ hc => exact hc.frame.2.1
  | _ => rfl

/-- The context has had every update. -/
theorem context_run {refreshEnabled : Bool} {ctx : Context} {as : List Act} {s : State}
    (hrun : Machine.run (step refreshEnabled) (initial ctx) as = some s) :
    s.context = (updates as).foldl Context.updateMutableContext ctx := by
  refine Machine.run_history (I := fun s as => s.context =
    (updates as).foldl Context.updateMutableContext ctx) rfl ?_ hrun
  intro as s a s' _ ih h
  have hsnoc : updates (as ++ [a]) = updates as ++ a.update.toList := by
    unfold updates
    rw [List.filterMap_append]
    cases a <;> rfl
  rw [context_step h, ih, hsnoc, List.foldl_append]

/-- What holds of every state that a run reaches.  `context`: `_context` has had every update;
    `waiting`: a thread that waits with the flag clear has fetched with it; `pending`: while the
    last copy is out of date, the flag is set; `awake`: with the flag set the thread has a step to
    take, or a notification on its way; `further`: within nine of its steps it fetches with a
    copy that it takes from now on. -/
structure NoUpdateLost (refreshEnabled : Bool) (ctx : Context) (as : List Act) (s : State) :
    Prop where
  context : s.context = (updates as).foldl Context.updateMutableContext ctx
  waiting : s.pc.waiting = true → s.contextUpdated = false → s.lastFetched = some s.context
  pending : ∀ c, s.lastSnapshot = some c → s.context ≠ c → s.contextUpdated = true
  awake : s.contextUpdated = true → s.lastSnapshot.isSome = true → s.exitThreads = false →
    (step refreshEnabled s .poll).isSome = true ∨
      ∃ u, (step refreshEnabled s (.notifyOne u)).isSome = true
  further : s.contextUpdated = true → s.lastSnapshot.isSome = true → ∀ bs t,
    Machine.run (step refreshEnabled) s bs = some t → t.exitThreads = false →
    9 ≤ bs.countP Act.isPoll → FetchesAfter refreshEnabled s bs

/-- **No context update is lost.** -/
theorem no_update_lost (refreshEnabled : Bool) (ctx : Context) (as : List Act) (s : State)
    (hrun : Machine.run (step refreshEnabled) (initial ctx) as = some s) :
    NoUpdateLost refreshEnabled ctx as s := by
  have hinv : Inv s := Machine.run_inv (fun _ _ _ hu hv => inv_step hu hv) (inv_initial ctx) hrun
  have hloc := hinv.located
  refine ⟨context_run hrun, fun hwait hflag => ?_, hinv.updated, fun hflag hsnap hexit => ?_,
    fun hflag hsnap bs t hbs ht hcount => ?_⟩
  · have hfetched : s.lastSnapshot.isSome = true ∧ s.lastFetched = s.lastSnapshot := by
      cases hp : s.pc with
      | predicate => rw [hp] at hloc; exact hloc
      | block => rw [hp] at hloc; exact hloc
      | blocked => rw [hp] at hloc; exact hloc
      | woken timedOut => rw [hp] at hloc; exact hloc
      | _ => rw [hp] at hwait; cases hwait
    obtain ⟨c, hc⟩ := Option.isSome_iff_exists.mp hfetched.1
    rw [hfetched.2, hc]
    -- a clear flag says that the last copy is up to date
    by_contra hne
    have hset := hinv.updated c hc fun heq => hne (by rw [heq])
    rw [hflag] at hset
    cases hset
  · by_cases hp : s.pc = .blocked
    · obtain ⟨u, hu⟩ := hinv.wakeup hp hflag
      exact Or.inr ⟨u, by simp only [step, hu]; rfl⟩
    · refine Or.inl ?_
      show (pollStep refreshEnabled s).isSome = true
      unfold pollStep
      cases hp' : s.pc with
      | blocked => exact absurd hp' hp
      | returned =>
        rw [hinv.stopped hp' hsnap] at hexit
        cases hexit
      | testStopped => simp only; split <;> rfl
      | _ => rfl
  · exact fetchesAfter ht hinv hsnap hflag
      ((Nat.add_le_add_right s.pc.distance_le 2).trans hcount) hbs

/-- A context without anything set. -/
def plain : Context := Context.make [] [] [] 7

/-- An update while the first fetch is on its way, which is fetched with next. -/
def updateRun : List Act :=
  [.poll, .poll, .updateContext 0 (plain.mutableContext.setUserId (bytes "u")), .poll,
    .notifyOne 0]

theorem no_update_lost_update :
    ∃ s, Machine.run (step true) (initial plain) updateRun = some s ∧
      s.contextUpdated = true ∧ NoUpdateLost true plain updateRun s :=
  ⟨_, rfl, rfl, no_update_lost true plain updateRun _ rfl⟩

end Polling

end Unleash
