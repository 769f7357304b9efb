/-
  AN OUTAGE OF THE SERVER, and what it costs the usage statistics.

  Here the metrics thread is left alone: evaluations are recorded only BETWEEN two runs of
  `sendMetrics` (`Alternating`), so nothing is lost to a race, and no toggle is evaluated 2^32
  times, so nothing is lost to a wrap-around.  The replies of the server are arbitrary.

  The store is emptied after every report, whatever became of it.  So a run cuts the recorded
  evaluations into WINDOWS, one for each report and a last one that is still in the store, and
  every list of counters is the fold of its window (`Windows`):

      recorded  =  window₁ ++ window₂ ++ ⋯ ++ windowₙ ++ current
                      │          │               │          │
                   report₁    report₂         reportₙ     store

  No report is empty.  Hence the accepted reports and the store account for every evaluation if
  and only if every report was accepted; the window of a report that failed is in neither.
-/
import UnleashSdk.MetricsThread

set_option linter.unusedVariables false

namespace Unleash

namespace MetricList

/-- Only without evaluations are there no counters. -/
theorem ofEvaluations_eq_nil {w : List Evaluation} (h : (ofEvaluations w).isEmpty = true) :
    w = [] := by
  rcases List.eq_nil_or_concat w with rfl | ⟨v, e, rfl⟩
  · rfl
  · rw [List.concat_eq_append, ofEvaluations_snoc, add_not_empty] at h
    cases h

end MetricList

/-- No toggle is evaluated 2^32 times in `w`. -/
def Bounded (w : List Evaluation) : Prop :=
  ∀ name, w.countP (fun e => e.toggleName = name) < 2 ^ 32

theorem countP_hits_le (w : List Evaluation) (c : Bytes × Counter) :
    w.countP (·.hits c) ≤ w.countP (fun e => e.toggleName = c.1) := by
  refine List.countP_mono_left fun e _ he => ?_
  rw [Evaluation.hits, Bool.and_eq_true] at he
  exact he.1

theorem Bounded.sublist {v w : List Evaluation} (hw : Bounded w) (h : v.Sublist w) : Bounded v :=
  fun name => Nat.lt_of_le_of_lt h.countP_le (hw name)

/-- As long as no toggle is evaluated 2^32 times, the counters count. -/
theorem MetricList.counts_ofEvaluations {w : List Evaluation} (hw : Bounded w) :
    (ofEvaluations w).Counts w := by
  induction w using List.reverseRecOn with
  | nil => exact counts_empty
  | append_singleton v e ih =>
    have hv : (ofEvaluations v).Counts v := ih (hw.sublist (List.sublist_append_left v [e]))
    rw [ofEvaluations_snoc]
    refine hv.add fun c hc => ?_
    -- the evaluation itself is counted by the bound, so there is room for it
    have hlast : [e].countP (fun e => e.toggleName = c.1) = 1 := by
      rw [Evaluation.hits, Bool.and_eq_true] at hc
      rw [List.countP_singleton, if_pos hc.1]
    have hbound := hw c.1
    rw [List.countP_append, hlast] at hbound
    have hle := countP_hits_le v c
    rw [hv c]
    omega

namespace MetricsThread

/-- Evaluations are recorded only while no run of `sendMetrics` is under way. -/
def Alternating (s : State) (a : Act) : Prop := ∀ e, a = .add e → s.pc = .idle

instance (s : State) (a : Act) : Decidable (Alternating s a) :=
  match a, hpc : s.pc with
  | .add e, .idle => isTrue fun _ _ => hpc
  | .add e, .emptyReset => isFalse fun h => by cases hpc.symm.trans (h e rfl)
  | .add e, .toPayload => isFalse fun h => by cases hpc.symm.trans (h e rfl)
  | .add e, .sending _ => isFalse fun h => by cases hpc.symm.trans (h e rfl)
  | .add e, .reset => isFalse fun h => by cases hpc.symm.trans (h e rfl)
  | .add e, .threw => isFalse fun h => by cases hpc.symm.trans (h e rfl)
  | .testEmpty, _ => isTrue fun _ h => by cases h
  | .resetEmpty _, _ => isTrue fun _ h => by cases h
  | .toJsonMetricsPayload _, _ => isTrue fun _ h => by cases h
  | .send _, _ => isTrue fun _ h => by cases h
  | .reset _, _ => isTrue fun _ h => by cases h

/-! ## The windows of a run -/

/-- Every report holds the counters of its window, which is not empty. -/
def Reports (sent : List (MetricsPayload × MetricResult)) (windows : List (List Evaluation)) :
    Prop :=
  List.Forall₂ (fun p w => p.1.list = .ofEvaluations w ∧ w ≠ []) sent windows

/-- What the thread has seen of the list it is working on. -/
def Seen (s : State) : Prop :=
  match s.pc with
  | .emptyReset => s.store.list.isEmpty = true
  | .toPayload => s.store.list.isEmpty = false
  | .sending payload => payload.list.isEmpty = false
  | _ => True

/-- The run so far recorded `rec`, which falls apart into the windows of the reports and what is
    not in a report yet. -/
structure Windows (rec : List Evaluation) (s : State) : Prop where
  windows : ∃ (windows : List (List Evaluation)) (current : List Evaluation),
    Reports s.sent windows ∧ unsent s = .ofEvaluations current ∧ windows.flatten ++ current = rec
  seen : Seen s

theorem windows_initial (appName instanceId : Bytes) (nowMs : Int64) :
    Windows [] (initial appName instanceId nowMs) where
  windows := ⟨[], [], .nil, rfl, rfl⟩
  seen := trivial

theorem windows_change {J : JsonLib} {rec : List Evaluation} {s t : State} {a : Act}
    (hs : Windows rec s) (halt : Alternating s a) (h : Change J s a t) :
    Windows (rec ++ a.evaluation.toList) t := by
  obtain ⟨⟨windows, current, hsent, hcur, hrec⟩, hseen⟩ := hs
  have hsame : rec ++ [] = rec := List.append_nil rec
  cases h with
  | add e =>
    -- the thread is between two runs, so the evaluation joins the current window
    have hpc : s.pc = .idle := halt e rfl
    simp only [unsent, hpc] at hcur
    refine ⟨⟨windows, current ++ [e], hsent, ?_, ?_⟩, ?_⟩
    · rw [MetricList.ofEvaluations_snoc, ← hcur]
      simp only [unsent, hpc]
      rfl
    · rw [← List.append_assoc, hrec]
      rfl
    · simp only [Seen, hpc]
  | testEmpty hpc he =>
    simp only [unsent, hpc] at hcur
    exact ⟨⟨windows, current, hsent, hcur, hrec.trans hsame.symm⟩, he⟩
  | testFull hpc he =>
    simp only [unsent, hpc] at hcur
    exact ⟨⟨windows, current, hsent, hcur, hrec.trans hsame.symm⟩, he⟩
  | resetEmpty nowMs hpc =>
    -- the store was found empty, and nothing was recorded since
    simp only [unsent, hpc] at hcur
    simp only [Seen, hpc] at hseen
    obtain rfl : current = [] := MetricList.ofEvaluations_eq_nil (hcur ▸ hseen)
    exact ⟨⟨windows, [], hsent, rfl, hrec.trans hsame.symm⟩, trivial⟩
  | payload nowMs body hpc hbody =>
    simp only [unsent, hpc] at hcur
    simp only [Seen, hpc] at hseen
    exact ⟨⟨windows, current, hsent, hcur, hrec.trans hsame.symm⟩, hseen⟩
  | threw nowMs hpc hbody =>
    simp only [unsent, hpc] at hcur
    exact ⟨⟨windows, current, hsent, hcur, hrec.trans hsame.symm⟩, trivial⟩
  | send resp payload hpc =>
    -- the current window becomes the report's, whatever the reply
    simp only [unsent, hpc] at hcur
    simp only [Seen, hpc] at hseen
    have hne : current ≠ [] := by
      rintro rfl
      rw [hcur] at hseen
      cases hseen
    refine ⟨⟨windows ++ [current], [], ?_, rfl, ?_⟩, trivial⟩
    · exact List.rel_append hsent (.cons ⟨hcur, hne⟩ .nil)
    · rw [List.flatten_append, List.append_nil, List.flatten_singleton, hrec]
      exact hsame.symm
  | reset nowMs hpc =>
    -- everything that was recorded is in a report
    simp only [unsent, hpc] at hcur
    obtain rfl : current = [] := MetricList.ofEvaluations_eq_nil (hcur ▸ rfl)
    exact ⟨⟨windows, [], hsent, rfl, hrec.trans hsame.symm⟩, trivial⟩

/-- **Run lemma.**  A run in which nothing is recorded during `sendMetrics` is cut into windows. -/
theorem windows_run {J : JsonLib} {appName instanceId : Bytes} {nowMs : Int64} {as : List Act}
    {s : State} (hrun : Machine.run (step J) (initial appName instanceId nowMs) as = some s)
    (halt : Machine.Meets (step J) Alternating (initial appName instanceId nowMs) as) :
    Windows (recorded as) s := by
  refine Machine.run_history (I := fun s as => Machine.Meets (step J) Alternating _ as →
    Windows (recorded as) s) (fun _ => windows_initial _ _ _) ?_ hrun halt
  intro as s a t hs ih ht hmeets
  obtain ⟨has, ha⟩ := (Machine.meets_snoc hs).mp hmeets
  rw [recorded_snoc]
  exact windows_change (ih has) ha (step_change ht)

/-! ## Accepted and refused reports -/

/-- The reports without an error, and those with one. -/
def acceptedReports (s : State) : List (MetricsPayload × MetricResult) :=
  s.sent.filter fun p => p.2.error.isNone

def refusedReports (s : State) : List (MetricsPayload × MetricResult) :=
  s.sent.filter fun p => !p.2.error.isNone

/-- What the reports of a list say, together, about counter `c`. -/
def total (sent : List (MetricsPayload × MetricResult)) (c : Bytes × Counter) : Nat :=
  (sent.map fun p => (p.1.list.count c).toNat).sum

theorem total_split (s : State) (c : Bytes × Counter) :
    total (acceptedReports s) c + total (refusedReports s) c = total s.sent c := by
  have hperm := List.filter_append_perm (fun p => p.2.error.isNone) s.sent
  rw [total, total, total, ← List.sum_append, ← List.map_append]
  exact (hperm.map fun p => (p.1.list.count c).toNat).sum_eq

/-- A report without an error is one that the server answered with a status of success. -/
theorem metricResult_accepted (resp : HttpReply) :
    (metricResult resp).error = none ↔ ∃ r, resp = .http r ∧ isOkStatus r.status = true := by
  unfold metricResult
  constructor
  · intro h
    split at h
    · cases h
    · rename_i r hr
      obtain ⟨hresp, -⟩ := checkReply_ok hr
      split at h
      · rename_i hok
        exact ⟨r, hresp, hok⟩
      · cases h
  · rintro ⟨r, rfl, hok⟩
    have hne : r.status ≠ 0 := by
      intro h0
      rw [h0] at hok
      exact absurd hok (by decide)
    have hcheck : checkReply (.http r) = .ok r := by rw [checkReply, if_neg hne]
    rw [hcheck]
    simp only [hok, if_true]

/-- A report is about some evaluation: one of its counters is positive. -/
theorem total_pos {sent : List (MetricsPayload × MetricResult)} {p : MetricsPayload × MetricResult}
    (hp : p ∈ sent) {c : Bytes × Counter} (hc : 0 < (p.1.list.count c).toNat) :
    0 < total sent c := by
  obtain ⟨before, after, rfl⟩ := List.append_of_mem hp
  rw [total, List.map_append, List.map_cons, List.sum_append, List.sum_cons]
  omega

/-- In bounded windows the reports count. -/
theorem Reports.counts {sent : List (MetricsPayload × MetricResult)}
    {windows : List (List Evaluation)} (h : Reports sent windows) (hb : Bounded windows.flatten) :
    List.Forall₂ (fun p w => p.1.list.Counts w) sent windows := by
  induction h with
  | nil => exact .nil
  | @cons p w sent windows hpw _ ih =>
    rw [List.flatten_cons] at hb
    refine .cons ?_ (ih (hb.sublist (List.sublist_append_right _ _)))
    rw [hpw.1]
    exact MetricList.counts_ofEvaluations (hb.sublist (List.sublist_append_left _ _))

/-- Every report has a counter that is positive. -/
theorem Reports.positive {sent : List (MetricsPayload × MetricResult)}
    {windows : List (List Evaluation)} (h : Reports sent windows) (hb : Bounded windows.flatten)
    {p : MetricsPayload × MetricResult} (hp : p ∈ sent) :
    ∃ c, 0 < (p.1.list.count c).toNat := by
  induction h with
  | nil => cases hp
  | @cons q w sent windows hqw _ ih =>
    rw [List.flatten_cons] at hb
    rcases List.mem_cons.mp hp with rfl | hp
    · obtain ⟨e, he⟩ := List.exists_mem_of_ne_nil w hqw.2
      refine ⟨e.main, ?_⟩
      rw [hqw.1, MetricList.counts_ofEvaluations (hb.sublist (List.sublist_append_left _ _))]
      exact List.countP_pos_iff.mpr ⟨e, he, e.hits_main⟩
    · exact ih (hb.sublist (List.sublist_append_right _ _)) hp

/-- **The price of an outage.**  After each run of `sendMetrics` the accepted reports, the refused
    ones and the store count, together, every evaluation recorded so far; without the refused ones
    they do so if and only if no report was refused. -/
theorem outage_conserved (J : JsonLib) (appName instanceId : Bytes) (nowMs : Int64)
    (as : List Act) (s : State)
    (hrun : Machine.run (step J) (initial appName instanceId nowMs) as = some s)
    (halt : Machine.Meets (step J) Alternating (initial appName instanceId nowMs) as)
    (hbound : Bounded (recorded as)) (hidle : s.pc = .idle) :
    (∀ c, total (acceptedReports s) c + total (refusedReports s) c + (s.store.list.count c).toNat =
      (recorded as).countP (·.hits c)) ∧
    ((∀ c, total (acceptedReports s) c + (s.store.list.count c).toNat =
        (recorded as).countP (·.hits c)) ↔ refusedReports s = []) := by
  obtain ⟨windows, current, hsent, hcur, hrec⟩ := (windows_run hrun halt).windows
  simp only [unsent, hidle] at hcur
  rw [← hrec] at hbound
  have hflat : Bounded windows.flatten := hbound.sublist (List.sublist_append_left _ _)
  have hstore : s.store.list.Counts current := by
    have hcounts := MetricList.counts_ofEvaluations
      (hbound.sublist (List.sublist_append_right windows.flatten current))
    rw [hcur]
    exact hcounts
  have hall : ∀ c, total (acceptedReports s) c + total (refusedReports s) c +
      (s.store.list.count c).toNat = (recorded as).countP (·.hits c) := by
    intro c
    rw [total_split, ← hrec, List.countP_append, hstore c, total, sum_counts (hsent.counts hflat)]
  refine ⟨hall, fun h => ?_, fun h c => ?_⟩
  · -- a refused report is missing at one counter at least
    by_contra hne
    obtain ⟨p, hp⟩ := List.exists_mem_of_ne_nil _ hne
    obtain ⟨c, hc⟩ := hsent.positive hflat (List.mem_of_mem_filter hp)
    have hpos : 0 < total (refusedReports s) c := total_pos hp hc
    have hc₁ := hall c
    have hc₂ := h c
    omega
  · have hc := hall c
    rw [h] at hc
    exact hc

/-- One evaluation, a report that the server answers with `status`, and the reset. -/
def reportRun (status : Int64) : List Act :=
  [.add (.enable (bytes "f") true), .testEmpty, .toJsonMetricsPayload 0,
    .send (.http { status := status }), .reset 0]

/-- A server that accepts the first report and fails at the second. -/
theorem outage_conserved_second :
    ∃ s, Machine.run (step JsonText.compact) (initial (bytes "app") (bytes "id") 0)
        (reportRun 202 ++ reportRun 503) = some s ∧
      (∀ c, total (acceptedReports s) c + total (refusedReports s) c +
        (s.store.list.count c).toNat =
          (recorded (reportRun 202 ++ reportRun 503)).countP (·.hits c)) := by
  refine ⟨_, rfl, (outage_conserved JsonText.compact (bytes "app") (bytes "id") 0 _ _ rfl
    (by decide) (fun name => ?_) rfl).1⟩
  exact Nat.lt_of_le_of_lt List.countP_le_length (by decide)

/-- The evaluation of a failed report is not in an accepted report, and not in the store. -/
theorem outage_loses_window :
    ∃ s, Machine.run (step JsonText.compact) (initial (bytes "app") (bytes "id") 0)
        (reportRun 500) = some s ∧ s.pc = .idle ∧
      total (acceptedReports s) (bytes "f", .yes) + (s.store.list.count (bytes "f", .yes)).toNat ≠
        (recorded (reportRun 500)).countP (·.hits (bytes "f", .yes)) :=
  ⟨_, rfl, rfl, by decide⟩

end MetricsThread

end Unleash
