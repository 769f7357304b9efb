/-
  STOP() RETURNS.

  A notification in the gap between a worker's predicate and its sleep is lost, and `stop()` then
  waits at the join for a thread that sleeps.  How long?  Once the exit flag is set, each worker
  has a fixed number of steps left at every place (`pollLeft`, `metricsLeft`), whatever comes in
  between: updates of the context, wakeups for nothing, notifications.  A wait has to end by its
  timeout only for a worker that sleeps already or is about to, and only once.

      steps of both workers  ≤  11          timeouts  ≤  workers at `block` or `blocked`

  and a worker that has not returned has a step to take, its own or the end of its wait.  So
  `stop()` is late by one interval of each wait at most, and by the requests under way.
-/
import UnleashSdk.RequestRate

set_option linter.unusedVariables false

namespace Unleash

namespace Shutdown

/-! ## What is left to do -/

/-- A step of one of the two workers, or the end of its wait. -/
def work : Act → Nat
  | .polling .poll | .polling .timeout | .polling .spurious => 1
  | .metrics | .metricsTimeout | .metricsSpurious => 1
  | _ => 0

/-- A wait that takes its whole interval. -/
def waits : Act → Nat
  | .polling .timeout | .metricsTimeout => 1
  | _ => 0

/-- The steps that the polling thread takes at most, from this place on. -/
def pollLeft : Polling.Pc → Nat
  | .block => 6
  | .blocked => 5
  | .testEnabled | .lock | .woken _ => 4
  | .initialSnapshot | .predicate => 3
  | .fetch _ | .testStopped | .take => 2
  | .testExit | .testStoppedAgain _ => 1
  | .returned => 0

def metricsLeft : MetricsPc → Nat
  | .testEnabled | .block => 5
  | .testInitialDelay | .blocked => 4
  | .lock | .woken _ => 3
  | .predicate | .send => 2
  | .testStopped | .testExit => 1
  | .returned => 0

def stepsLeft (s : State) : Nat := pollLeft s.polling.pc + metricsLeft s.metrics

/-- The workers that sleep or are about to. -/
def pollAsleep : Polling.Pc → Nat
  | .block | .blocked => 1
  | _ => 0

def metricsAsleep : MetricsPc → Nat
  | .block | .blocked => 1
  | _ => 0

def asleep (s : State) : Nat := pollAsleep s.polling.pc + metricsAsleep s.metrics

def Returned (s : State) : Prop := s.polling.pc = .returned ∧ s.metrics = .returned

/-! ## Every step of a worker is one less -/

/-- The polling thread itself, with the exit flag set. -/
theorem pollStep_left {refreshEnabled : Bool} {s s' : Polling.State} {p : Polling.Pc}
    (hexit : s.exitThreads = true) (hc : Polling.PollChange refreshEnabled s p s') :
    1 + pollLeft s'.pc ≤ pollLeft p ∧ pollAsleep s'.pc ≤ pollAsleep p := by
  cases hc with
  | testEnabled => cases refreshEnabled <;> simp [pollLeft, pollAsleep]
  | woken timedOut => cases timedOut <;> simp [pollLeft, pollAsleep]
  | notStopped hexit' =>
    rw [hexit] at hexit'
    cases hexit'
  | _ => simp [pollLeft, pollAsleep, hexit]

theorem metricsStep_left {config : ClientConfig} {p p' : MetricsPc}
    (h : metricsStep config true p = some p') :
    1 + metricsLeft p' ≤ metricsLeft p ∧ metricsAsleep p' ≤ metricsAsleep p := by
  cases p with
  | testEnabled =>
    cases h
    split <;> simp [metricsLeft, metricsAsleep]
  | testInitialDelay =>
    cases h
    split <;> simp [metricsLeft, metricsAsleep]
  | woken timedOut =>
    cases h
    cases timedOut <;> simp [metricsLeft, metricsAsleep]
  | blocked | returned => cases h
  | _ =>
    cases h
    simp [metricsLeft, metricsAsleep]

/-- A notification takes nobody further away from the end. -/
theorem pollLeft_notified (p : Polling.Pc) :
    pollLeft p.notified ≤ pollLeft p ∧ pollAsleep p.notified ≤ pollAsleep p := by
  cases p <;> simp [pollLeft, pollAsleep, Polling.Pc.notified]

theorem metricsLeft_notified (p : MetricsPc) :
    metricsLeft p.notified ≤ metricsLeft p ∧ metricsAsleep p.notified ≤ metricsAsleep p := by
  cases p <;> simp [metricsLeft, metricsAsleep, MetricsPc.notified]

/-- The steps of the polling machine, those of other threads included. -/
theorem polling_left {refreshEnabled : Bool} {p p' : Polling.State} {a : Polling.Act}
    (hexit : p.exitThreads = true) (h : Polling.step refreshEnabled p a = some p') :
    work (.polling a) + pollLeft p'.pc ≤ pollLeft p.pc ∧
      waits (.polling a) + pollAsleep p'.pc ≤ pollAsleep p.pc := by
  cases Polling.step_change h with
  | poll _ hc =>
    obtain ⟨hleft, hasleep⟩ := pollStep_left hexit hc
    exact ⟨hleft, (Nat.zero_add _).trans_le hasleep⟩
  | timeout hp => simp [work, waits, pollLeft, pollAsleep, hp]
  | spurious hp => simp [work, waits, pollLeft, pollAsleep, hp]
  | updateContext u mutableContext hfree => exact ⟨(Nat.zero_add _).le, (Nat.zero_add _).le⟩
  | stop hidle => exact ⟨(Nat.zero_add _).le, (Nat.zero_add _).le⟩
  | notifyOne u | notifyAll hnotify =>
    obtain ⟨hleft, hasleep⟩ := pollLeft_notified p.pc
    exact ⟨(Nat.zero_add _).trans_le hleft, (Nat.zero_add _).trans_le hasleep⟩

/-- **Step lemma.** -/
theorem step_left {config : ClientConfig} {s s' : State} {a : Act}
    (hexit : s.polling.exitThreads = true) (h : step config s a = some s') :
    work a + stepsLeft s' ≤ stepsLeft s ∧ waits a + asleep s' ≤ asleep s := by
  unfold stepsLeft asleep
  rcases step_polling h with ⟨b, rfl, hb, hsame⟩ | ⟨hother, hsame⟩
  · obtain ⟨hleft, hasleep⟩ := polling_left hexit hb
    rw [hsame]
    exact ⟨by omega, by omega⟩
  · rw [hsame]
    cases a with
    | polling b => exact absurd rfl (hother b)
    | metrics =>
      obtain ⟨p, hp, rfl⟩ := Option.map_eq_some_iff.mp h
      rw [hexit] at hp
      obtain ⟨hleft, hasleep⟩ := metricsStep_left hp
      show 1 + (_ + metricsLeft p) ≤ _ ∧ 0 + (_ + metricsAsleep p) ≤ _
      exact ⟨by omega, by omega⟩
    | metricsTimeout | metricsSpurious =>
      simp only [step] at h
      split at h <;> cases h
      rename_i hp
      rw [hp]
      simp only [work, waits, metricsLeft, metricsAsleep]
      exact ⟨by omega, by omega⟩
    | notifyMetrics =>
      simp only [step] at h
      split at h <;> cases h
      obtain ⟨hleft, hasleep⟩ := metricsLeft_notified s.metrics
      show 0 + (_ + metricsLeft s.metrics.notified) ≤ _ ∧
        0 + (_ + metricsAsleep s.metrics.notified) ≤ _
      exact ⟨by omega, by omega⟩

/-! ## Somebody can go on -/

/-- A step that a worker takes by itself, or the timeout of its wait. -/
def Act.onItsOwn : Act → Prop
  | .polling .poll | .polling .timeout | .metrics | .metricsTimeout => True
  | _ => False

theorem Act.onItsOwn_work {a : Act} (h : a.onItsOwn) : work a = 1 := by
  cases a with
  | polling b => cases b <;> first | rfl | cases h
  | _ => first | rfl | cases h

theorem polling_goes_on (config : ClientConfig) {s : State} (h : s.polling.pc ≠ .returned) :
    ∃ a s', a.onItsOwn ∧ step config s a = some s' := by
  by_cases hblocked : s.polling.pc = .blocked
  · refine ⟨.polling .timeout, { s with polling := { s.polling with pc := .woken true } }, trivial,
      ?_⟩
    simp only [step, pollingStep, Polling.step, hblocked, Option.map_some]
  · have hpoll : ∃ p, Polling.pollStep config.isRefreshEnabled s.polling = some p := by
      unfold Polling.pollStep
      cases hp : s.polling.pc with
      | blocked => exact absurd hp hblocked
      | returned => exact absurd hp h
      | testStopped => exact (ite_eq_or_eq _ _ _).elim (fun e => ⟨_, e⟩) fun e => ⟨_, e⟩
      | _ => exact ⟨_, rfl⟩
    obtain ⟨p, hp⟩ := hpoll
    exact ⟨.polling .poll, { s with polling := p }, trivial,
      Option.map_eq_some_iff.mpr ⟨p, hp, rfl⟩⟩

theorem metrics_go_on (config : ClientConfig) {s : State} (h : s.metrics ≠ .returned) :
    ∃ a s', a.onItsOwn ∧ step config s a = some s' := by
  by_cases hblocked : s.metrics = .blocked
  · exact ⟨.metricsTimeout, { s with metrics := .woken true }, trivial, by
      simp only [step, hblocked]⟩
  · have hmetrics : ∃ p, metricsStep config s.polling.exitThreads s.metrics = some p := by
      unfold metricsStep
      cases hp : s.metrics with
      | blocked => exact absurd hp hblocked
      | returned => exact absurd hp h
      | _ => exact ⟨_, rfl⟩
    obtain ⟨p, hp⟩ := hmetrics
    exact ⟨.metrics, { s with metrics := p }, trivial, Option.map_eq_some_iff.mpr ⟨p, hp, rfl⟩⟩

theorem goes_on (config : ClientConfig) {s : State} (h : ¬ Returned s) :
    ∃ a s', a.onItsOwn ∧ step config s a = some s' := by
  by_cases hp : s.polling.pc = .returned
  · exact metrics_go_on config fun hm => h ⟨hp, hm⟩
  · exact polling_goes_on config hp

/-! ## Runs -/

theorem stepsLeft_le (s : State) : stepsLeft s ≤ 11 := by
  have hpoll : pollLeft s.polling.pc ≤ 6 := by cases s.polling.pc <;> simp [pollLeft]
  have hmetrics : metricsLeft s.metrics ≤ 5 := by cases s.metrics <;> simp [metricsLeft]
  show pollLeft s.polling.pc + metricsLeft s.metrics ≤ 11
  omega

/-- The workers can be brought to their ends by their own steps. -/
theorem finish (config : ClientConfig) (s : State) (hexit : s.polling.exitThreads = true) :
    ∃ as t, Machine.run (step config) s as = some t ∧ (∀ a ∈ as, a.onItsOwn) ∧ Returned t := by
  generalize hn : stepsLeft s = n
  induction n using Nat.strong_induction_on generalizing s with
  | _ n ih =>
    by_cases hreturned : Returned s
    · exact ⟨[], s, rfl, fun a ha => (by cases ha), hreturned⟩
    · obtain ⟨a, s', hown, hs'⟩ := goes_on config hreturned
      have hwork : work a = 1 := Act.onItsOwn_work hown
      have hless := (step_left hexit hs').1
      obtain ⟨as, t, hrun, has, ht⟩ := ih (stepsLeft s') (by omega) s' (exit_step hs' hexit) rfl
      refine ⟨a :: as, t, (Machine.run_cons_of_step hs' as).trans hrun, fun b hb => ?_, ht⟩
      rcases List.mem_cons.mp hb with rfl | hb
      · exact hown
      · exact has b hb

end Shutdown

end Unleash
