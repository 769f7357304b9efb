/-
  HOW OFTEN THE WORKERS SEND.

  A wait may end for nothing: a notification may come early or late, and a thread may wake
  without one.  None of that causes a request.  A fetch is paid for by the start of the client, by
  a timeout, or by an update of the context, and a report by a timeout:

      fetches  ≤  1 + timeouts + updates          reports  ≤  timeouts

  The balances are what the program counters have in hand (`fetchesDue`, `reportsDue`): a thread
  that was woken by a timeout will send, and so will one that finds `_contextUpdated` set.  Once
  `stop()` has set the exit flag there is no income any more, and no more than one request of each
  kind in hand.
-/
import UnleashSdk.Lib.Amortized
import UnleashSdk.Shutdown

set_option linter.unusedVariables false

namespace Unleash

namespace Shutdown

/-! ## Requests, and what pays for them -/

/-- A step of the polling thread that fetches, and one of the metrics thread that sends. -/
def fetchOf (p : Polling.State) : Polling.Act → Nat
  | .poll =>
    match p.pc with
    | .fetch _ => 1
    | _ => 0
  | _ => 0

def fetches (s : State) : Act → Nat
  | .polling a => fetchOf s.polling a
  | _ => 0

def reports (s : State) : Act → Nat
  | .metrics => if s.metrics = .send then 1 else 0
  | _ => 0

/-- A timeout, or an update of the context, before the client is stopped. -/
def incomeOf (p : Polling.State) : Polling.Act → Nat
  | .timeout | .updateContext _ _ => if p.exitThreads then 0 else 1
  | _ => 0

def fetchIncome (s : State) : Act → Nat
  | .polling a => incomeOf s.polling a
  | _ => 0

def reportIncome (s : State) : Act → Nat
  | .metricsTimeout => if s.polling.exitThreads then 0 else 1
  | _ => 0

/-! ## The balances -/

/-- The fetches that the polling thread has in hand. -/
def fetchesDue (exitThreads contextUpdated : Bool) : Polling.Pc → Nat
  | .testEnabled | .initialSnapshot | .fetch _ =>
    1 + if contextUpdated && !exitThreads then 1 else 0
  | .testStoppedAgain _ => if exitThreads then 0 else 1 + if contextUpdated then 1 else 0
  -- the flag is about to be cleared
  | .woken true | .testStopped | .take => if exitThreads then 0 else 1
  | .returned => 0
  | _ => if contextUpdated && !exitThreads then 1 else 0

/-- The balance of the polling thread. -/
def fetchBalance (p : Polling.State) : Nat := fetchesDue p.exitThreads p.contextUpdated p.pc

/-- The reports that the metrics thread has in hand. -/
def reportsDue (exitThreads : Bool) : MetricsPc → Nat
  | .send => 1
  | .woken true | .testStopped => if exitThreads then 0 else 1
  | _ => 0

/-- A notification pays for nothing. -/
theorem fetchesDue_notified (exitThreads contextUpdated : Bool) (p : Polling.Pc) :
    fetchesDue exitThreads contextUpdated p.notified = fetchesDue exitThreads contextUpdated p := by
  cases p <;> rfl

/-- An update is worth one fetch, while the client is not stopped. -/
theorem fetchesDue_updated (exitThreads contextUpdated : Bool) (p : Polling.Pc) :
    fetchesDue exitThreads true p ≤
      fetchesDue exitThreads contextUpdated p + if exitThreads then 0 else 1 := by
  cases p with
  | woken timedOut => cases timedOut <;> cases exitThreads <;> simp [fetchesDue]
  | _ => cases exitThreads <;> simp [fetchesDue]

/-- When the exit flag is set, no more than the fetch is left that is about to be made. -/
theorem fetchesDue_stopped (exitThreads contextUpdated : Bool) (p : Polling.Pc) :
    fetchesDue true contextUpdated p ≤ fetchesDue exitThreads contextUpdated p ∧
      fetchesDue true contextUpdated p ≤ 1 := by
  cases p with
  | woken timedOut => cases timedOut <;> simp [fetchesDue]
  | _ => simp [fetchesDue]

/-- The steps of the polling thread itself. -/
theorem pollStep_pays {refreshEnabled : Bool} {s s' : Polling.State} {p : Polling.Pc}
    (hp : s.pc = p) (hc : Polling.PollChange refreshEnabled s p s') :
    fetchOf s .poll + fetchBalance s' ≤ fetchBalance s := by
  unfold fetchBalance
  -- what is in hand depends on the place and on the two flags alone
  cases hexit : s.exitThreads <;> cases hflag : s.contextUpdated <;> cases hc with
  | testEnabled => cases refreshEnabled <;> simp [fetchOf, fetchesDue, hp, hexit, hflag]
  | woken timedOut => cases timedOut <;> simp [fetchOf, fetchesDue, hp, hexit, hflag]
  | stopped hexit' | notStopped hexit' => simp_all [fetchOf, fetchesDue]
  | _ => simp [fetchOf, fetchesDue, hp, hexit, hflag]

/-- **Step lemma for the fetches.** -/
theorem polling_pays {refreshEnabled : Bool} {p p' : Polling.State} {a : Polling.Act}
    (h : Polling.step refreshEnabled p a = some p') :
    fetchOf p a + fetchBalance p' ≤ fetchBalance p + incomeOf p a := by
  cases Polling.step_change h with
  | poll _ hc => exact pollStep_pays rfl hc
  | timeout hp =>
    cases hexit : p.exitThreads <;> simp [fetchOf, fetchBalance, fetchesDue, incomeOf, hp, hexit]
  | spurious hp => simp [fetchOf, fetchBalance, fetchesDue, incomeOf, hp]
  | updateContext u mutableContext hfree =>
    exact (Nat.zero_add _).trans_le (fetchesDue_updated _ _ _)
  | notifyOne u => exact (Nat.zero_add _).trans_le (fetchesDue_notified _ _ _).le
  | stop hidle => exact (Nat.zero_add _).trans_le (fetchesDue_stopped _ _ _).1
  | notifyAll hnotify => exact (Nat.zero_add _).trans_le (fetchesDue_notified _ _ _).le

/-- A step is one of the polling machine, or leaves that alone. -/
theorem step_polling {config : ClientConfig} {s s' : State} {a : Act}
    (h : step config s a = some s') :
    (∃ b, a = .polling b ∧ Polling.step config.isRefreshEnabled s.polling b = some s'.polling ∧
      s'.metrics = s.metrics) ∨ (∀ b, a ≠ .polling b) ∧ s'.polling = s.polling := by
  have hpolling : ∀ b, pollingStep config s b = some s' →
      Polling.step config.isRefreshEnabled s.polling b = some s'.polling ∧
        s'.metrics = s.metrics := by
    intro b hb
    obtain ⟨p, hp, rfl⟩ := Option.map_eq_some_iff.mp hb
    exact ⟨hp, rfl⟩
  cases a with
  | polling b =>
    refine Or.inl ⟨b, rfl, ?_⟩
    cases b with
    | notifyAll =>
      simp only [step] at h
      split at h
      · exact hpolling _ h
      · cases h
    | _ => exact hpolling _ h
  | metrics =>
    obtain ⟨p, hp, rfl⟩ := Option.map_eq_some_iff.mp h
    exact Or.inr ⟨fun b hb => (by cases hb), rfl⟩
  | metricsTimeout | metricsSpurious | notifyMetrics =>
    simp only [step] at h
    split at h <;> cases h
    exact Or.inr ⟨fun b hb => (by cases hb), rfl⟩

theorem fetches_pay {config : ClientConfig} {s s' : State} {a : Act}
    (h : step config s a = some s') :
    fetches s a + fetchBalance s'.polling ≤ fetchBalance s.polling + fetchIncome s a := by
  rcases step_polling h with ⟨b, rfl, hb, -⟩ | ⟨hother, hsame⟩
  · exact polling_pays hb
  · rw [hsame]
    cases a with
    | polling b => exact absurd rfl (hother b)
    | _ => exact (Nat.zero_add _).le

/-- The exit flag is set for good. -/
theorem exit_step {config : ClientConfig} {s s' : State} {a : Act}
    (h : step config s a = some s') (hexit : s.polling.exitThreads = true) :
    s'.polling.exitThreads = true := by
  rcases step_polling h with ⟨b, rfl, hb, -⟩ | ⟨-, hsame⟩
  · generalize s'.polling = p' at hb
    cases Polling.step_change hb with
    | poll _ hc => exact hc.frame.1.trans hexit
    | stop hidle => rfl
    | _ => exact hexit
  · rw [hsame]
    exact hexit

theorem reportsDue_stopped (exitThreads : Bool) (p : MetricsPc) :
    reportsDue true p ≤ reportsDue exitThreads p ∧ reportsDue true p ≤ 1 := by
  cases p with
  | woken timedOut => cases timedOut <;> simp [reportsDue]
  | _ => simp [reportsDue]

/-- The steps of the metrics thread itself. -/
theorem metricsStep_pays {config : ClientConfig} {exitThreads : Bool} {p p' : MetricsPc}
    (h : metricsStep config exitThreads p = some p') :
    (if p = .send then 1 else 0) + reportsDue exitThreads p' ≤ reportsDue exitThreads p := by
  cases p with
  | testEnabled =>
    cases h
    cases config.isMetricsEnabled <;> simp [reportsDue]
  | testInitialDelay =>
    cases h
    by_cases hdelay : 0 < config.metricsIntervalInitial <;> simp [reportsDue, hdelay]
  | woken timedOut =>
    cases h
    cases timedOut <;> simp [reportsDue]
  | predicate | testStopped | testExit =>
    cases h
    cases exitThreads <;> simp [reportsDue]
  | blocked | returned => cases h
  | _ =>
    cases h
    simp [reportsDue]

/-- **Step lemma for the reports.** -/
theorem reports_pay {config : ClientConfig} {s s' : State} {a : Act}
    (h : step config s a = some s') :
    reports s a + reportsDue s'.polling.exitThreads s'.metrics ≤
      reportsDue s.polling.exitThreads s.metrics + reportIncome s a := by
  rcases step_polling h with ⟨b, rfl, hb, hsame⟩ | ⟨hother, hsame⟩
  · have hle : reportsDue s'.polling.exitThreads s.metrics ≤
        reportsDue s.polling.exitThreads s.metrics := by
      cases hnow : s'.polling.exitThreads with
      | true => exact (reportsDue_stopped _ _).1
      | false =>
        cases hbefore : s.polling.exitThreads with
        | false => exact Nat.le_refl _
        | true => exact absurd (exit_step h hbefore) (by rw [hnow]; decide)
    rw [hsame]
    exact (Nat.zero_add _).trans_le hle
  · rw [hsame]
    cases a with
    | polling b => exact absurd rfl (hother b)
    | metrics =>
      obtain ⟨p, hp, rfl⟩ := Option.map_eq_some_iff.mp h
      exact metricsStep_pays hp
    | metricsTimeout =>
      simp only [step] at h
      split at h <;> cases h
      cases hexit : s.polling.exitThreads <;> simp [reports, reportsDue, reportIncome, hexit]
    | metricsSpurious =>
      simp only [step] at h
      split at h <;> cases h
      simp [reports, reportsDue]
    | notifyMetrics =>
      simp only [step] at h
      split at h <;> cases h
      cases hp : s.metrics <;> simp [reports, reportsDue, MetricsPc.notified]

/-! ## Runs -/

/-- What a run spends, it has or it earns. -/
theorem fetches_run {config : ClientConfig} {s t : State} {as : List Act}
    (hrun : Machine.run (step config) s as = some t) :
    Machine.total (step config) fetches s as + fetchBalance t.polling ≤
      fetchBalance s.polling + Machine.total (step config) fetchIncome s as :=
  Machine.total_le (fun s => fetchBalance s.polling) (fun _ => True) (fun _ _ _ _ _ => trivial)
    (fun _ _ _ _ h => fetches_pay h) trivial hrun

theorem reports_run {config : ClientConfig} {s t : State} {as : List Act}
    (hrun : Machine.run (step config) s as = some t) :
    Machine.total (step config) reports s as + reportsDue t.polling.exitThreads t.metrics ≤
      reportsDue s.polling.exitThreads s.metrics +
        Machine.total (step config) reportIncome s as :=
  Machine.total_le (fun s => reportsDue s.polling.exitThreads s.metrics) (fun _ => True)
    (fun _ _ _ _ _ => trivial) (fun _ _ _ _ h => reports_pay h) trivial hrun

/-- Once the flag is set there is no income. -/
theorem no_income {s : State} (hexit : s.polling.exitThreads = true) (a : Act) :
    fetchIncome s a = 0 ∧ reportIncome s a = 0 := by
  cases a with
  | polling b => cases b <;> simp [fetchIncome, reportIncome, incomeOf, hexit]
  | _ => simp [fetchIncome, reportIncome, hexit]

theorem fetches_stopped {config : ClientConfig} {s t : State} {as : List Act}
    (hexit : s.polling.exitThreads = true) (hrun : Machine.run (step config) s as = some t) :
    Machine.total (step config) fetches s as ≤ 1 := by
  have hbound : Machine.total (step config) fetches s as ≤ fetchBalance s.polling := by
    refine Machine.total_le_balance (fun s => fetchBalance s.polling)
      (fun s => s.polling.exitThreads = true) (fun _ _ _ hu h => exit_step h hu) ?_ hexit hrun
    intro u a v hu h
    have hpay := fetches_pay h
    rwa [(no_income hu a).1] at hpay
  have hone : fetchBalance s.polling ≤ 1 := by
    unfold fetchBalance
    rw [hexit]
    exact (fetchesDue_stopped true _ _).2
  exact hbound.trans hone

theorem reports_stopped {config : ClientConfig} {s t : State} {as : List Act}
    (hexit : s.polling.exitThreads = true) (hrun : Machine.run (step config) s as = some t) :
    Machine.total (step config) reports s as ≤ 1 := by
  have hbound : Machine.total (step config) reports s as ≤
      reportsDue s.polling.exitThreads s.metrics := by
    refine Machine.total_le_balance (fun s => reportsDue s.polling.exitThreads s.metrics)
      (fun s => s.polling.exitThreads = true) (fun _ _ _ hu h => exit_step h hu) ?_ hexit hrun
    intro u a v hu h
    have hpay := reports_pay h
    rwa [(no_income hu a).2] at hpay
  rw [hexit] at hbound
  exact hbound.trans (reportsDue_stopped true _).2

/-- **No request without a reason.**  In every run the fetches are no more than the first one, the
    timeouts and the updates of the context, and the reports no more than the timeouts, those
    before `stop()` only; and from a moment at which the exit flag is set there is at most one
    fetch more, and one report. -/
theorem requests_bounded (config : ClientConfig) (ctx : Context) (as bs : List Act) (s t : State)
    (has : Machine.run (step config) (initial ctx) as = some s)
    (hbs : Machine.run (step config) s bs = some t) :
    Machine.total (step config) fetches (initial ctx) as ≤
      1 + Machine.total (step config) fetchIncome (initial ctx) as ∧
    Machine.total (step config) reports (initial ctx) as ≤
      Machine.total (step config) reportIncome (initial ctx) as ∧
    (s.polling.exitThreads = true → Machine.total (step config) fetches s bs ≤ 1 ∧
      Machine.total (step config) reports s bs ≤ 1) := by
  have hfetches := fetches_run has
  have hreports := reports_run has
  have hfirst : fetchBalance (initial ctx).polling = 1 := rfl
  have hnone : reportsDue (initial ctx).polling.exitThreads (initial ctx).metrics = 0 := rfl
  rw [hfirst] at hfetches
  rw [hnone] at hreports
  exact ⟨by omega, by omega, fun hexit => ⟨fetches_stopped hexit hbs, reports_stopped hexit hbs⟩⟩

/-- The polling thread fetches, blocks, wakes for nothing and blocks again; an update sends it to a
    second fetch, and `stop()` comes when that one is about to be made. -/
def wokenRun : List Act :=
  List.replicate 7 (.polling .poll) ++
    .polling .spurious :: List.replicate 3 (.polling .poll) ++
    .polling (.updateContext 0 (Polling.plain.mutableContext.setUserId (bytes "u"))) ::
    .polling (.notifyOne 0) :: List.replicate 5 (.polling .poll) ++ [.polling .stop]

/-- The second fetch is the last one. -/
def lastFetch : List Act := List.replicate 2 (.polling .poll)

theorem requests_bounded_woken : ∃ s t,
    Machine.run (step (ClientConfig.make [] [] [] [])) (initial Polling.plain) wokenRun = some s ∧
    Machine.run (step (ClientConfig.make [] [] [] [])) s lastFetch = some t ∧
    Machine.total (step (ClientConfig.make [] [] [] [])) fetchIncome (initial Polling.plain)
      wokenRun = 1 ∧
    s.polling.exitThreads = true ∧
    Machine.total (step (ClientConfig.make [] [] [] [])) fetches s lastFetch = 1 ∧
    (Machine.total (step (ClientConfig.make [] [] [] [])) fetches s lastFetch ≤ 1 ∧
      Machine.total (step (ClientConfig.make [] [] [] [])) reports s lastFetch ≤ 1) :=
  ⟨_, _, rfl, rfl, rfl, rfl, rfl,
    (requests_bounded (ClientConfig.make [] [] [] []) Polling.plain wokenRun lastFetch _ _ rfl
      rfl).2.2 rfl⟩

end Shutdown

end Unleash
