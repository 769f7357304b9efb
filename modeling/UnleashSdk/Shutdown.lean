/-
  SHUTDOWN: `stop()` against the two sleeping workers.

  Both workers wait with a predicate that reads `_exitThreads`.  `stop()` sets the flag and
  notifies WITHOUT taking the mutex that the workers wait under:

      stop:     exitThreads := true ─▶ notify metrics ─▶ notify polling ─▶ join, join

      worker:   … lock ─▶ predicate ─▶ block ─▶ blocked …
                            (false)      ▲
                                         └── a notification that comes here wakes nobody

  The worker has found the flag clear and is about to block; the flag is set and the notification
  is sent before it does.  It then sleeps until its interval is over, and `stop()` waits for it at
  the join.  `Clear` says that no notification of `stop()` falls into that gap; under it no worker
  is missed, and after a notification in the gap there is a way to go on on which one is
  (`gap_missed`).

  The polling thread and the flag are those of `Polling`; the metrics thread has the same wait,
  once for the initial delay and then again and again.
-/
import UnleashSdk.Config
import UnleashSdk.Polling

set_option linter.unusedVariables false

namespace Unleash

namespace Shutdown

/-! ## The state -/

/-- Where the metrics thread is in `metricSendingLoop`. -/
inductive MetricsPc where
  | testEnabled
  | testInitialDelay
  | lock
  | predicate
  | block
  | blocked
  | woken (timedOut : Bool)
  | testStopped
  | send
  | testExit
  | returned
  deriving DecidableEq

/-- The polling thread with what it shares, the metrics thread, and whether `stop()` has executed
    the first of its two `notify_all` calls. -/
structure State where
  polling : Polling.State
  metrics : MetricsPc := .testEnabled
  metricsNotified : Bool := false

inductive Act where
  | polling (a : Polling.Act)
  | metrics
  | metricsTimeout
  | metricsSpurious
  | notifyMetrics

/-- A notification wakes the thread if it is blocked, and is lost otherwise. -/
def MetricsPc.notified : MetricsPc → MetricsPc
  | .blocked => .woken false
  | p => p

/-! ## The steps -/

/-- The next step of the metrics thread; what it sends is the subject of other modules. -/
def metricsStep (config : ClientConfig) (exitThreads : Bool) : MetricsPc → Option MetricsPc
  | .testEnabled => some (if config.isMetricsEnabled then .testInitialDelay else .returned)
  | .testInitialDelay => some (if 0 < config.metricsIntervalInitial then .lock else .testExit)
  | .lock => some .predicate
  | .predicate => some (if exitThreads then .testStopped else .block)
  | .block => some .blocked
  | .blocked => none
  -- after a timeout the predicate is evaluated once more, and its value is not used
  | .woken timedOut => some (if timedOut then .testStopped else .predicate)
  | .testStopped => some (if exitThreads then .returned else .send)
  | .send => some .testExit
  | .testExit => some (if exitThreads then .returned else .lock)
  | .returned => none

/-- A step of the polling thread, of a call of `updateContext`, or of `stop()`. -/
def pollingStep (config : ClientConfig) (s : State) (a : Polling.Act) : Option State :=
  (Polling.step config.isRefreshEnabled s.polling a).map fun p => { s with polling := p }

def step (config : ClientConfig) (s : State) : Act → Option State
  -- `stop()` notifies the metrics thread first
  | .polling .notifyAll => if s.metricsNotified then pollingStep config s .notifyAll else none
  | .polling a => pollingStep config s a
  | .metrics =>
    (metricsStep config s.polling.exitThreads s.metrics).map fun p => { s with metrics := p }
  | .metricsTimeout =>
    match s.metrics with
    | .blocked => some { s with metrics := .woken true }
    | _ => none
  | .metricsSpurious =>
    match s.metrics with
    | .blocked => some { s with metrics := .woken false }
    | _ => none
  | .notifyMetrics =>
    if s.polling.stopPc = .notify ∧ s.metricsNotified = false then
      some { s with metrics := s.metrics.notified, metricsNotified := true }
    else none

/-- A client that has been started with this context. -/
def initial (ctx : Context) : State := { polling := Polling.initial ctx }

/-! ## The condition -/

/-- `stop()` has set the flag and executed both `notify_all` calls, and a worker is blocked. -/
def Missed (s : State) : Prop :=
  s.polling.exitThreads = true ∧ s.metricsNotified = true ∧ s.polling.stopPc = .join ∧
    (s.metrics = .blocked ∨ s.polling.pc = .blocked)

/-- No notification of `stop()` finds its worker between the predicate and the sleep. -/
def Clear (s : State) : Act → Prop
  | .notifyMetrics => s.metrics ≠ .block
  | .polling .notifyAll => s.polling.pc ≠ .block
  | _ => True

/-! ## What a step does to the wait of a worker -/

/-- The polling thread neither sleeps nor is about to. -/
def PollingAwake (p : Polling.Pc) : Prop := p ≠ .block ∧ p ≠ .blocked

def MetricsAwake (p : MetricsPc) : Prop := p ≠ .block ∧ p ≠ .blocked

theorem pollingAwake_notified {p : Polling.Pc} (h : p ≠ .block) : PollingAwake p.notified := by
  constructor
  · intro hn
    cases p <;> first | exact h rfl | cases hn
  · intro hn
    cases p <;> cases hn

theorem metricsAwake_notified {p : MetricsPc} (h : p ≠ .block) : MetricsAwake p.notified := by
  constructor
  · intro hn
    cases p <;> first | exact h rfl | cases hn
  · intro hn
    cases p <;> cases hn

/-- Once the flag is set, a worker that is awake does not go to sleep again. -/
theorem pollStep_awake {refreshEnabled : Bool} {s s' : Polling.State} {p : Polling.Pc}
    (hexit : s.exitThreads = true) (h : PollingAwake p)
    (hc : Polling.PollChange refreshEnabled s p s') : PollingAwake s'.pc := by
  cases hc with
  | block => exact absurd rfl h.1
  | testEnabled => cases refreshEnabled <;> exact ⟨by simp, by simp⟩
  | testExit | testStoppedAgain ctx => simp [PollingAwake, hexit]
  | predicate =>
    -- the predicate is true
    simp [PollingAwake, hexit]
  | woken timedOut => cases timedOut <;> exact ⟨by simp, by simp⟩
  | _ => exact ⟨by simp, by simp⟩

theorem metricsStep_awake {config : ClientConfig} {p p' : MetricsPc} (h : MetricsAwake p)
    (hstep : metricsStep config true p = some p') : MetricsAwake p' := by
  cases p with
  | block => exact absurd rfl h.1
  | blocked => exact absurd rfl h.2
  | returned => cases hstep
  | testEnabled =>
    cases hstep
    split <;> exact ⟨by simp, by simp⟩
  | testInitialDelay =>
    cases hstep
    split <;> exact ⟨by simp, by simp⟩
  | woken timedOut =>
    cases hstep
    cases timedOut <;> exact ⟨by simp, by simp⟩
  | _ =>
    cases hstep
    exact ⟨by simp, by simp⟩

/-- What a step of the polling machine is for a shutdown. -/
inductive PollingChange (p : Polling.State) : Polling.Act → Polling.State → Prop where
  | stop (hidle : p.stopPc = .idle) :
    PollingChange p .stop { p with exitThreads := true, stopPc := .notify }
  | notifyAll (hnotify : p.stopPc = .notify) :
    PollingChange p .notifyAll { p with pc := p.pc.notified, stopPc := .join }
  | other (a : Polling.Act) (p' : Polling.State) (hother : a ≠ .notifyAll)
    (hstop : p'.stopPc = p.stopPc) (hexit : p'.exitThreads = p.exitThreads)
    (hawake : p.exitThreads = true → PollingAwake p.pc → PollingAwake p'.pc) :
    PollingChange p a p'

theorem polling_change {refreshEnabled : Bool} {p p' : Polling.State} {a : Polling.Act}
    (h : Polling.step refreshEnabled p a = some p') : PollingChange p a p' := by
  cases Polling.step_change h with
  | poll _ hc =>
    obtain ⟨hexit, -, hstop⟩ := hc.frame
    exact .other _ p' (by simp) hstop hexit fun hset hp => pollStep_awake hset hp hc
  | timeout hp => exact .other _ _ (by simp) rfl rfl fun _ _ => ⟨by simp, by simp⟩
  | spurious hp => exact .other _ _ (by simp) rfl rfl fun _ _ => ⟨by simp, by simp⟩
  | updateContext u mutableContext hfree => exact .other _ _ (by simp) rfl rfl fun _ hp => hp
  | notifyOne u => exact .other _ _ (by simp) rfl rfl fun _ hp => pollingAwake_notified hp.1
  | stop hidle => exact .stop hidle
  | notifyAll hnotify => exact .notifyAll hnotify

/-- Everything a step can do. -/
inductive Change (config : ClientConfig) (s : State) : Act → State → Prop where
  | polling (a : Polling.Act) (p : Polling.State) (hp : PollingChange s.polling a p)
    (horder : a = .notifyAll → s.metricsNotified = true) :
    Change config s (.polling a) { s with polling := p }
  | metrics (p : MetricsPc) (hp : metricsStep config s.polling.exitThreads s.metrics = some p) :
    Change config s .metrics { s with metrics := p }
  | metricsTimeout (hp : s.metrics = .blocked) :
    Change config s .metricsTimeout { s with metrics := .woken true }
  | metricsSpurious (hp : s.metrics = .blocked) :
    Change config s .metricsSpurious { s with metrics := .woken false }
  | notifyMetrics (hstop : s.polling.stopPc = .notify) (hfirst : s.metricsNotified = false) :
    Change config s .notifyMetrics { s with metrics := s.metrics.notified, metricsNotified := true }

theorem step_change {config : ClientConfig} {s s' : State} {a : Act}
    (h : step config s a = some s') : Change config s a s' := by
  have hpolling : ∀ b, (b = .notifyAll → s.metricsNotified = true) →
      pollingStep config s b = some s' → Change config s (.polling b) s' := by
    intro b horder hb
    obtain ⟨p, hp, rfl⟩ := Option.map_eq_some_iff.mp hb
    exact .polling b p (polling_change hp) horder
  cases a with
  | polling b =>
    cases b with
    | notifyAll =>
      simp only [step] at h
      split at h
      · rename_i hnotified
        exact hpolling _ (fun _ => hnotified) h
      · cases h
    | poll => exact hpolling _ (fun hb => by cases hb) h
    | timeout => exact hpolling _ (fun hb => by cases hb) h
    | spurious => exact hpolling _ (fun hb => by cases hb) h
    | updateContext u c => exact hpolling _ (fun hb => by cases hb) h
    | notifyOne u => exact hpolling _ (fun hb => by cases hb) h
    | stop => exact hpolling _ (fun hb => by cases hb) h
  | metrics =>
    obtain ⟨p, hp, rfl⟩ := Option.map_eq_some_iff.mp h
    exact .metrics p hp
  | metricsTimeout =>
    simp only [step] at h
    split at h <;> cases h
    rename_i hp
    exact .metricsTimeout hp
  | metricsSpurious =>
    simp only [step] at h
    split at h <;> cases h
    rename_i hp
    exact .metricsSpurious hp
  | notifyMetrics =>
    simp only [step] at h
    split at h <;> cases h
    rename_i hcond
    exact .notifyMetrics hcond.1 hcond.2

/-! ## Clear runs miss nobody -/

/-- The steps of `stop()` are taken in their order. -/
structure Ordered (s : State) : Prop where
  exit : s.polling.stopPc ≠ .idle → s.polling.exitThreads = true
  metricsFirst : s.polling.stopPc = .join → s.metricsNotified = true
  stopping : s.metricsNotified = true → s.polling.stopPc ≠ .idle

theorem ordered_initial (ctx : Context) : Ordered (initial ctx) where
  exit h := absurd rfl h
  metricsFirst h := by cases h
  stopping h := by cases h

theorem ordered_change {config : ClientConfig} {s s' : State} {a : Act} (h : Ordered s)
    (hc : Change config s a s') : Ordered s' := by
  cases hc with
  | polling a p hp horder =>
    cases hp with
    | stop hidle =>
      refine ⟨fun _ => rfl, fun hj => ?_, fun _ => ?_⟩
      · cases hj
      · show Polling.StopPc.notify ≠ .idle
        decide
    | notifyAll hnotify =>
      refine ⟨fun _ => h.exit (by rw [hnotify]; decide), fun _ => horder rfl, fun _ => ?_⟩
      show Polling.StopPc.join ≠ .idle
      decide
    | other a p hother hstop hexit hawake =>
      refine ⟨fun hne => hexit.trans (h.exit ?_), fun hj => h.metricsFirst ?_, fun hn => ?_⟩
      · rw [← hstop]
        exact hne
      · rw [← hstop]
        exact hj
      · show p.stopPc ≠ .idle
        rw [hstop]
        exact h.stopping hn
  | metrics p hp => exact ⟨h.exit, h.metricsFirst, h.stopping⟩
  | metricsTimeout hp => exact ⟨h.exit, h.metricsFirst, h.stopping⟩
  | metricsSpurious hp => exact ⟨h.exit, h.metricsFirst, h.stopping⟩
  | notifyMetrics hstop hfirst =>
    refine ⟨h.exit, fun _ => rfl, fun _ => ?_⟩
    show s.polling.stopPc ≠ .idle
    rw [hstop]
    decide

theorem ordered_run {config : ClientConfig} {ctx : Context} {as : List Act} {s : State}
    (hrun : Machine.run (step config) (initial ctx) as = some s) : Ordered s :=
  Machine.run_inv (I := Ordered) (fun _ _ _ h hs => ordered_change h (step_change hs))
    (ordered_initial ctx) hrun

/-- A worker that has been notified is awake for good. -/
structure Heard (s : State) : Prop extends Ordered s where
  metrics : s.metricsNotified = true → MetricsAwake s.metrics
  polling : s.polling.stopPc = .join → PollingAwake s.polling.pc

theorem heard_initial (ctx : Context) : Heard (initial ctx) where
  toOrdered := ordered_initial ctx
  metrics h := by cases h
  polling h := by cases h

/-- **Step lemma.** -/
theorem heard_change {config : ClientConfig} {s s' : State} {a : Act} (h : Heard s)
    (hclear : Clear s a) (hc : Change config s a s') : Heard s' := by
  have hordered := ordered_change h.toOrdered hc
  cases hc with
  | polling a p hp horder =>
    cases hp with
    | stop hidle =>
      refine ⟨hordered, h.metrics, fun hj => ?_⟩
      cases hj
    | notifyAll hnotify =>
      exact ⟨hordered, h.metrics, fun _ => pollingAwake_notified hclear⟩
    | other a p hother hstop hexit hawake =>
      refine ⟨hordered, h.metrics, fun hj => ?_⟩
      have hjoin : s.polling.stopPc = .join := hstop.symm.trans hj
      exact hawake (h.exit (by rw [hjoin]; decide)) (h.polling hjoin)
  | metrics p hp =>
    refine ⟨hordered, fun hn => ?_, h.polling⟩
    -- `stop()` has notified, so the flag that the thread reads is set
    have hexit : s.polling.exitThreads = true := h.exit (h.stopping hn)
    rw [hexit] at hp
    exact metricsStep_awake (h.metrics hn) hp
  | metricsTimeout hp =>
    refine ⟨hordered, fun _ => ⟨?_, ?_⟩, h.polling⟩
    · show MetricsPc.woken true ≠ .block
      decide
    · show MetricsPc.woken true ≠ .blocked
      decide
  | metricsSpurious hp =>
    refine ⟨hordered, fun _ => ⟨?_, ?_⟩, h.polling⟩
    · show MetricsPc.woken false ≠ .block
      decide
    · show MetricsPc.woken false ≠ .blocked
      decide
  | notifyMetrics hstop hfirst =>
    exact ⟨hordered, fun _ => metricsAwake_notified hclear, h.polling⟩

/-- **No worker is missed.**  A run in which no notification of `stop()` falls between a worker's
    predicate and its sleep does not come to a state in which `stop()` has sent both and a worker
    is blocked. -/
theorem stop_misses_none (config : ClientConfig) (ctx : Context) (as : List Act) (s : State)
    (hrun : Machine.run (step config) (initial ctx) as = some s)
    (hclear : Machine.Meets (step config) Clear (initial ctx) as) : ¬ Missed s := by
  have h : Heard s := Machine.run_inv_meets (I := Heard)
    (fun _ _ _ hs hP hstep => heard_change hs hP (step_change hstep)) (heard_initial ctx)
    hclear hrun
  rintro ⟨hexit, hnotified, hjoin, hmetrics | hpolling⟩
  · exact (h.metrics hnotified).2 hmetrics
  · exact (h.polling hjoin).2 hpolling

/-- **The gap is no false alarm.**  A notification in the gap is lost: if the worker's next step and
    what is left of `stop()` come first, a state is reached in which it is missed. -/
theorem gap_missed (config : ClientConfig) (ctx : Context) (as : List Act) (s t : State) (a : Act)
    (hrun : Machine.run (step config) (initial ctx) as = some s)
    (hstep : step config s a = some t) (hgap : ¬ Clear s a) :
    ∃ bs u, Machine.run (step config) t bs = some u ∧ Missed u := by
  have h : Ordered s := ordered_run hrun
  cases step_change hstep with
  | polling b p hp horder =>
    cases hp with
    | notifyAll hnotify =>
      have hblock : s.polling.pc = .block := not_not.mp hgap
      have hexit : s.polling.exitThreads = true := h.exit (by rw [hnotify]; decide)
      refine ⟨[.polling .poll], { s with
        polling := { s.polling with pc := .blocked, stopPc := .join } }, ?_,
        hexit, horder rfl, rfl, Or.inr rfl⟩
      simp only [Machine.run, step, pollingStep, Polling.step, Polling.pollStep, hblock,
        Polling.Pc.notified, Option.map_some]
    | stop hidle => exact absurd trivial hgap
    | other b p hother hstop hexit hawake =>
      -- the other steps of the polling machine are always clear
      refine absurd ?_ hgap
      cases b <;> trivial
  | metrics p hp => exact absurd trivial hgap
  | metricsTimeout hp => exact absurd trivial hgap
  | metricsSpurious hp => exact absurd trivial hgap
  | notifyMetrics hstop hfirst =>
    have hblock : s.metrics = .block := not_not.mp hgap
    have hexit : s.polling.exitThreads = true := h.exit (by rw [hstop]; decide)
    refine ⟨[.metrics, .polling .notifyAll], { s with
      polling := { s.polling with pc := s.polling.pc.notified, stopPc := .join }
      metrics := .blocked
      metricsNotified := true }, ?_, hexit, rfl, rfl, Or.inl rfl⟩
    simp only [Machine.run, step, pollingStep, Polling.step, metricsStep, hblock,
      MetricsPc.notified, hstop, Option.map_some, if_true]

def plainConfig : ClientConfig := ClientConfig.make (bytes "u") (bytes "k") (bytes "app") []

/-- The metrics thread sleeps when `stop()` begins, and is woken. -/
def promptStop : List Act :=
  [.metrics, .metrics, .metrics, .metrics, .metrics, .metrics, .polling .stop, .notifyMetrics,
    .polling .notifyAll]

/-- It has found the flag clear when `stop()` begins, and blocks after `stop()` has notified. -/
def slowStop : List Act :=
  [.metrics, .metrics, .metrics, .metrics, .metrics, .polling .stop, .notifyMetrics,
    .polling .notifyAll, .metrics]

theorem stop_misses_none_prompt :
    ∃ s, Machine.run (step plainConfig) (initial Polling.plain) promptStop = some s ∧
      s.polling.stopPc = .join ∧ ¬ Missed s := by
  refine ⟨_, rfl, rfl, stop_misses_none plainConfig Polling.plain promptStop _ rfl ?_⟩
  refine ⟨trivial, trivial, trivial, trivial, trivial, trivial, trivial, ?_, ?_, trivial⟩
  · show MetricsPc.blocked ≠ .block
    decide
  · show Polling.Pc.testEnabled ≠ .block
    simp

theorem worker_missed :
    ∃ s, Machine.run (step plainConfig) (initial Polling.plain) slowStop = some s ∧ Missed s :=
  ⟨_, rfl, rfl, rfl, rfl, Or.inl rfl⟩

end Shutdown

end Unleash
