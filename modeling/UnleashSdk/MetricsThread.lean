/-
  THE METRICS THREAD, and where its reports lose evaluations.

  Any number of application threads record evaluations (`add`) while one thread runs
  `sendMetrics` again and again.  Each locked call of the store is one step, so a run of
  `sendMetrics` has up to four, and an `add` of any thread may come between any two of them:

      idle ──test──▶ emptyReset ──reset──▶ idle
      idle ──test──▶ toPayload ──payload──▶ sending p ──send──▶ reset ──reset──▶ idle

  The report is a copy of the list, and the reset that follows it empties whatever the list holds
  by then.  So what is added while the thread is at `sending` or `reset` is thrown away, and so is
  what is added at `emptyReset`.  `Safe` says that this does not happen (and that no 32-bit
  counter wraps around); between two runs of `sendMetrics`

      every evaluation is counted exactly once   ↔   every step so far was safe.

  One direction is the ledger `Ledger`, kept by every safe step.  The other is the measure `kept`:
  no step raises it by more than it records, and an unsafe one raises it by less.
-/
import Mathlib.Algebra.BigOperators.Group.List.Basic
import UnleashSdk.Lib.JsonText
import UnleashSdk.Lib.Machine
import UnleashSdk.Metrics

set_option linter.unusedVariables false

namespace Unleash

/-! ## The machine -/

/-- A report: the counts it was made from and its text. -/
structure MetricsPayload where
  list : MetricList
  body : Bytes

namespace MetricsThread

/-- Where the metrics thread is in `sendMetrics`. -/
inductive Pc where
  | idle
  | emptyReset
  | toPayload
  | sending (payload : MetricsPayload)
  | reset
  | threw

structure State where
  store : MetricsStore
  pc : Pc
  sent : List (MetricsPayload × MetricResult)

inductive Act where
  | add (e : Evaluation)
  | testEmpty
  | resetEmpty (nowMs : Int64)
  | toJsonMetricsPayload (nowMs : Int64)
  | send (resp : HttpReply)
  | reset (nowMs : Int64)

/-- The step that builds the report. -/
def takePayload (J : JsonLib) (s : State) (nowMs : Int64) : State :=
  match s.store.toJsonMetricsPayload J nowMs with
  | some (some body) => { s with pc := .sending ⟨s.store.list, body⟩ }
  -- the printer threw, or `.value()` did
  | _ => { s with pc := .threw }

def step (J : JsonLib) (s : State) : Act → Option State
  | .add e => some { s with store := s.store.add e }
  | .testEmpty =>
    match s.pc with
    | .idle => some { s with pc := if s.store.empty then .emptyReset else .toPayload }
    | _ => none
  | .resetEmpty nowMs =>
    match s.pc with
    | .emptyReset => some { s with store := s.store.reset nowMs, pc := .idle }
    | _ => none
  | .toJsonMetricsPayload nowMs =>
    match s.pc with
    | .toPayload => some (takePayload J s nowMs)
    | _ => none
  | .send resp =>
    match s.pc with
    | .sending payload =>
      some { s with sent := s.sent ++ [(payload, metricResult resp)], pc := .reset }
    | _ => none
  | .reset nowMs =>
    match s.pc with
    | .reset => some { s with store := s.store.reset nowMs, pc := .idle }
    | _ => none

/-- A client that has just been constructed. -/
def initial (appName instanceId : Bytes) (nowMs : Int64) : State :=
  { store := MetricsStore.make appName instanceId nowMs, pc := .idle, sent := [] }

/-- The evaluation that a step records. -/
def Act.evaluation : Act → Option Evaluation
  | .add e => some e
  | _ => none

/-- The evaluations that a run records. -/
def recorded (as : List Act) : List Evaluation := as.filterMap Act.evaluation

/-- Everything a step can do. -/
inductive Change (J : JsonLib) (s : State) : Act → State → Prop where
  | add (e : Evaluation) : Change J s (.add e) { s with store := s.store.add e }
  | testEmpty (hpc : s.pc = .idle) (he : s.store.empty = true) :
    Change J s .testEmpty { s with pc := .emptyReset }
  | testFull (hpc : s.pc = .idle) (he : s.store.empty = false) :
    Change J s .testEmpty { s with pc := .toPayload }
  | resetEmpty (nowMs : Int64) (hpc : s.pc = .emptyReset) :
    Change J s (.resetEmpty nowMs) { s with store := s.store.reset nowMs, pc := .idle }
  | payload (nowMs : Int64) (body : Bytes) (hpc : s.pc = .toPayload)
    (hbody : s.store.toJsonMetricsPayload J nowMs = some (some body)) :
    Change J s (.toJsonMetricsPayload nowMs) { s with pc := .sending ⟨s.store.list, body⟩ }
  | threw (nowMs : Int64) (hpc : s.pc = .toPayload)
    (hbody : ∀ body, s.store.toJsonMetricsPayload J nowMs ≠ some (some body)) :
    Change J s (.toJsonMetricsPayload nowMs) { s with pc := .threw }
  | send (resp : HttpReply) (payload : MetricsPayload) (hpc : s.pc = .sending payload) :
    Change J s (.send resp)
      { s with sent := s.sent ++ [(payload, metricResult resp)], pc := .reset }
  | reset (nowMs : Int64) (hpc : s.pc = .reset) :
    Change J s (.reset nowMs) { s with store := s.store.reset nowMs, pc := .idle }

theorem step_change {J : JsonLib} {s t : State} {a : Act} (h : step J s a = some t) :
    Change J s a t := by
  cases a with
  | add e => cases h; exact .add e
  | testEmpty =>
    simp only [step] at h
    split at h <;> cases h
    rename_i hpc
    cases he : s.store.empty with
    | true => exact .testEmpty hpc he
    | false => exact .testFull hpc he
  | resetEmpty nowMs =>
    simp only [step] at h
    split at h <;> cases h
    rename_i hpc
    exact .resetEmpty nowMs hpc
  | toJsonMetricsPayload nowMs =>
    simp only [step] at h
    split at h
    · rename_i hpc
      cases h
      unfold takePayload
      split
      · rename_i body hbody
        exact .payload nowMs body hpc hbody
      · rename_i hbody
        exact .threw nowMs hpc hbody
    · nomatch h
  | send resp =>
    simp only [step] at h
    split at h <;> cases h
    rename_i payload hpc
    exact .send resp payload hpc
  | reset nowMs =>
    simp only [step] at h
    split at h <;> cases h
    rename_i hpc
    exact .reset nowMs hpc

/-! ## What conservation says -/

/-- Every evaluation of `rec` is counted exactly once: the recorded evaluations fall apart into
    one window for each report and one for the store, and each counts exactly its window. -/
def Conserved (rec : List Evaluation) (s : State) : Prop :=
  ∃ (windows : List (List Evaluation)) (current : List Evaluation),
    List.Forall₂ (fun p w => p.1.list.Counts w) s.sent windows ∧
    s.store.list.Counts current ∧ (windows.flatten ++ current).Perm rec

/-- A step that loses nothing: an evaluation is recorded only where no reset is on its way, and
    moves no counter that is at its maximum. -/
def Safe (s : State) (a : Act) : Prop :=
  ∀ e, a = .add e → (s.pc = .idle ∨ s.pc = .toPayload) ∧ s.store.list.Room e

theorem recorded_snoc (as : List Act) (a : Act) :
    recorded (as ++ [a]) = recorded as ++ a.evaluation.toList := by
  rw [recorded, List.filterMap_append]
  cases ha : a.evaluation with
  | none => simp [recorded, ha]
  | some e => simp [recorded, ha]

/-! ## Safe steps keep the ledger -/

/-- The counts that are not in a report yet. -/
def unsent (s : State) : MetricList :=
  match s.pc with
  | .sending payload => payload.list
  | .reset => {}
  | _ => s.store.list

/-- The books of a run that was safe so far. -/
structure Ledger (rec : List Evaluation) (s : State) : Prop where
  windows : ∃ (windows : List (List Evaluation)) (current : List Evaluation),
    List.Forall₂ (fun p w => p.1.list.Counts w) s.sent windows ∧
    (unsent s).Counts current ∧ windows.flatten ++ current = rec
  emptyReset : s.pc = .emptyReset → s.store.empty = true

theorem ledger_initial (appName instanceId : Bytes) (nowMs : Int64) :
    Ledger [] (initial appName instanceId nowMs) where
  windows := ⟨[], [], .nil, MetricList.counts_empty, rfl⟩
  emptyReset := nofun

theorem ledger_change {J : JsonLib} {rec : List Evaluation} {s t : State} {a : Act}
    (hs : Ledger rec s) (hsafe : Safe s a) (h : Change J s a t) :
    Ledger (rec ++ a.evaluation.toList) t := by
  obtain ⟨⟨windows, current, hsent, hcur, hrec⟩, hempty⟩ := hs
  cases h with
  | add e =>
    -- a new evaluation joins the current window
    obtain ⟨hpc, hroom⟩ := hsafe e rfl
    have hstore : unsent s = s.store.list := by
      rcases hpc with hpc | hpc <;> rw [unsent, hpc]
    have hstore' : unsent { s with store := s.store.add e } = s.store.list.add e := by
      rcases hpc with hpc | hpc <;> simp only [unsent, hpc] <;> rfl
    refine ⟨⟨windows, current ++ [e], hsent, ?_, ?_⟩, fun hpc' => ?_⟩
    · rw [hstore']
      exact (hstore ▸ hcur).add hroom
    · rw [← List.append_assoc, hrec]
      rfl
    · rcases hpc with hpc | hpc <;> nomatch hpc.symm.trans hpc'
  | testEmpty hpc he =>
    rw [unsent, hpc] at hcur
    exact ⟨⟨windows, current, hsent, hcur, by simpa [Act.evaluation] using hrec⟩, fun _ => he⟩
  | testFull hpc he =>
    rw [unsent, hpc] at hcur
    exact ⟨⟨windows, current, hsent, hcur, by simpa [Act.evaluation] using hrec⟩, nofun⟩
  | resetEmpty nowMs hpc =>
    -- nothing was recorded since the store was found empty
    rw [unsent, hpc] at hcur
    obtain rfl : current = [] := hcur.eq_nil (hempty hpc)
    exact ⟨⟨windows, [], hsent, MetricList.counts_empty, by simpa [Act.evaluation] using hrec⟩,
      nofun⟩
  | payload nowMs body hpc hbody =>
    rw [unsent, hpc] at hcur
    exact ⟨⟨windows, current, hsent, hcur, by simpa [Act.evaluation] using hrec⟩, nofun⟩
  | threw nowMs hpc hbody =>
    rw [unsent, hpc] at hcur
    exact ⟨⟨windows, current, hsent, hcur, by simpa [Act.evaluation] using hrec⟩, nofun⟩
  | send resp payload hpc =>
    -- the current window becomes the report's
    rw [unsent, hpc] at hcur
    refine ⟨⟨windows ++ [current], [], ?_, MetricList.counts_empty, ?_⟩, nofun⟩
    · exact List.rel_append hsent (.cons hcur .nil)
    · simpa [Act.evaluation] using hrec
  | reset nowMs hpc =>
    rw [unsent, hpc] at hcur
    obtain rfl : current = [] := hcur.eq_nil rfl
    exact ⟨⟨windows, [], hsent, MetricList.counts_empty, by simpa [Act.evaluation] using hrec⟩,
      nofun⟩

/-- **Run lemma.**  A run whose steps are all safe has its books in order. -/
theorem ledger_run {J : JsonLib} {appName instanceId : Bytes} {nowMs : Int64} {as : List Act}
    {s : State} (hrun : Machine.run (step J) (initial appName instanceId nowMs) as = some s)
    (hsafe : Machine.Meets (step J) Safe (initial appName instanceId nowMs) as) :
    Ledger (recorded as) s := by
  refine Machine.run_history (I := fun s as => Machine.Meets (step J) Safe _ as →
    Ledger (recorded as) s) (fun _ => ledger_initial _ _ _) ?_ hrun hsafe
  intro as s a t hs ih ht hmeets
  obtain ⟨has, ha⟩ := (Machine.meets_snoc hs).mp hmeets
  rw [recorded_snoc]
  exact ledger_change (ih has) ha (step_change ht)

/-! ## An unsafe step loses something for good -/

/-- The counts that no reset on its way will throw away. -/
def rest (s : State) : MetricList :=
  match s.pc with
  | .idle => s.store.list
  | .toPayload => s.store.list
  | .sending payload => payload.list
  | _ => {}

/-- How often counter `c` is counted in the reports and in what will be kept. -/
def kept (s : State) (c : Bytes × Counter) : Nat :=
  (s.sent.map fun p => (p.1.list.count c).toNat).sum + ((rest s).count c).toNat

/-- How often a step counts for `c`. -/
def Act.hits (a : Act) (c : Bytes × Counter) : Nat := a.evaluation.toList.countP (·.hits c)

theorem kept_change {J : JsonLib} {s t : State} {a : Act} (h : Change J s a t)
    (c : Bytes × Counter) : kept t c ≤ kept s c + a.hits c := by
  cases h with
  | add e =>
    have hle := MetricList.count_add_le s.store.list e c
    have hhits : Act.hits (.add e) c = if e.hits c then 1 else 0 := List.countP_singleton
    unfold kept rest
    cases hpc : s.pc <;> simp only [hhits, MetricsStore.add] <;> omega
  | testEmpty hpc he =>
    simp only [kept, rest, hpc, MetricList.count_empty, UInt32.toNat_zero]
    omega
  | testFull hpc he => simp only [kept, rest, hpc]; omega
  | resetEmpty nowMs hpc => simp only [kept, rest, hpc, MetricsStore.reset]; omega
  | payload nowMs body hpc hbody => simp only [kept, rest, hpc]; omega
  | threw nowMs hpc hbody =>
    simp only [kept, rest, hpc, MetricList.count_empty, UInt32.toNat_zero]
    omega
  | send resp payload hpc =>
    simp only [kept, rest, hpc, List.map_append, List.sum_append, MetricList.count_empty,
      UInt32.toNat_zero, List.map_cons, List.map_nil, List.sum_cons, List.sum_nil]
    omega
  | reset nowMs hpc => simp only [kept, rest, hpc, MetricsStore.reset]; omega

/-- An unsafe step falls behind at one counter at least. -/
theorem kept_lossy {J : JsonLib} {s t : State} {a : Act} (h : Change J s a t)
    (hlossy : ¬ Safe s a) : ∃ c, kept t c < kept s c + a.hits c := by
  cases h with
  | add e =>
    have hhits : ∀ c, Act.hits (.add e) c = if e.hits c then 1 else 0 := fun c =>
      List.countP_singleton
    by_cases hpc : s.pc = .idle ∨ s.pc = .toPayload
    · -- there is no room: a counter of `e` is full and wraps around
      have hfull : ∃ c, e.hits c = true ∧ ¬ (s.store.list.count c).toNat + 1 < 2 ^ 32 := by
        by_contra hnone
        refine hlossy fun e' he' => ⟨hpc, fun c hc => ?_⟩
        cases he'
        by_contra hlt
        exact hnone ⟨c, hc, hlt⟩
      obtain ⟨c, hhit, hfull⟩ := hfull
      have hwrap := MetricList.count_add_wraps hhit hfull
      refine ⟨c, ?_⟩
      rcases hpc with hpc | hpc <;>
        simp only [kept, rest, hpc, hhits c, hhit, if_true, MetricsStore.add] <;> omega
    · -- a reset is on its way, or the report has been copied already
      refine ⟨e.main, ?_⟩
      rw [hhits, if_pos e.hits_main]
      unfold kept rest
      cases hpc' : s.pc with
      | idle => exact absurd (Or.inl hpc') hpc
      | toPayload => exact absurd (Or.inr hpc') hpc
      | _ => exact Nat.lt_succ_self _
  | _ => exact absurd nofun hlossy

/-- **Run lemma.**  No counter is kept more often than it was recorded, and a run with an unsafe
    step has fallen behind somewhere. -/
theorem kept_run {J : JsonLib} {appName instanceId : Bytes} {nowMs : Int64} {as : List Act}
    {s : State} (hrun : Machine.run (step J) (initial appName instanceId nowMs) as = some s) :
    (∀ c, kept s c ≤ (recorded as).countP (·.hits c)) ∧
    (¬ Machine.Meets (step J) Safe (initial appName instanceId nowMs) as →
      ∃ c, kept s c < (recorded as).countP (·.hits c)) := by
  refine Machine.run_history (I := fun s as => (∀ c, kept s c ≤ (recorded as).countP (·.hits c)) ∧
    (¬ Machine.Meets (step J) Safe (initial appName instanceId nowMs) as →
      ∃ c, kept s c < (recorded as).countP (·.hits c))) ?_ ?_ hrun
  · exact ⟨fun c => Nat.le_refl 0, fun h => absurd (Machine.meets_nil _) h⟩
  · intro as s a t hs ⟨hle, hlt⟩ ht
    have hchange := step_change ht
    have hcount : ∀ c, (recorded (as ++ [a])).countP (·.hits c) =
        (recorded as).countP (·.hits c) + a.hits c := fun c => by
      rw [recorded_snoc, List.countP_append]; rfl
    refine ⟨fun c => ?_, fun hlossy => ?_⟩
    · have hstep := kept_change hchange c
      have := hle c
      rw [hcount c]
      omega
    · rw [Machine.meets_snoc hs] at hlossy
      by_cases has : Machine.Meets (step J) Safe (initial appName instanceId nowMs) as
      · -- the last step is the unsafe one
        obtain ⟨c, hc⟩ := kept_lossy hchange fun ha => hlossy ⟨has, ha⟩
        have := hle c
        exact ⟨c, by rw [hcount c]; omega⟩
      · obtain ⟨c, hc⟩ := hlt has
        have hstep := kept_change hchange c
        exact ⟨c, by rw [hcount c]; omega⟩

/-- Reports that count their windows exactly count, together, all of them. -/
theorem sum_counts {sent : List (MetricsPayload × MetricResult)}
    {windows : List (List Evaluation)}
    (h : List.Forall₂ (fun p w => p.1.list.Counts w) sent windows) (c : Bytes × Counter) :
    (sent.map fun p => (p.1.list.count c).toNat).sum = windows.flatten.countP (·.hits c) := by
  induction h with
  | nil => rfl
  | cons hpw _ ih =>
    rw [List.map_cons, List.sum_cons, List.flatten_cons, List.countP_append, ih, hpw c]

/-- Conservation leaves no counter behind. -/
theorem Conserved.kept_eq {rec : List Evaluation} {s : State} (h : Conserved rec s)
    (hpc : s.pc = .idle) (c : Bytes × Counter) : kept s c = rec.countP (·.hits c) := by
  obtain ⟨windows, current, hsent, hcur, hperm⟩ := h
  rw [← hperm.countP_eq, List.countP_append, ← sum_counts hsent c, ← hcur c]
  simp only [kept, rest, hpc]

/-- **Conservation, exactly.**  Between two runs of `sendMetrics` every recorded evaluation is
    counted exactly once if and only if every step so far was safe. -/
theorem metrics_conserved_iff (J : JsonLib) (appName instanceId : Bytes) (nowMs : Int64)
    (as : List Act) (s : State)
    (hrun : Machine.run (step J) (initial appName instanceId nowMs) as = some s)
    (hidle : s.pc = .idle) :
    Conserved (recorded as) s ↔
      Machine.Meets (step J) Safe (initial appName instanceId nowMs) as := by
  constructor
  · intro hcons
    by_contra hlossy
    obtain ⟨c, hc⟩ := (kept_run hrun).2 hlossy
    rw [hcons.kept_eq hidle c] at hc
    exact Nat.lt_irrefl _ hc
  · intro hsafe
    obtain ⟨windows, current, hsent, hcur, hrec⟩ := (ledger_run hrun hsafe).windows
    rw [unsent, hidle] at hcur
    exact ⟨windows, current, hsent, hcur, hrec ▸ List.Perm.refl _⟩

/-- An evaluation recorded while the first report is on its way, and the reset that follows. -/
def lossyRun : List Act :=
  [.add (.enable (bytes "f") true), .testEmpty, .toJsonMetricsPayload 0,
    .add (.enable (bytes "f") true), .send (.http { status := 200 }), .reset 0]

/-- A run of `sendMetrics` that nothing disturbs. -/
def quietRun : List Act :=
  [.add (.enable (bytes "f") true), .testEmpty, .toJsonMetricsPayload 0,
    .send (.http { status := 200 }), .reset 0, .add (.enable (bytes "f") false)]

/-- The quiet run, which ends between two runs of `sendMetrics`, loses nothing. -/
theorem metrics_conserved_iff_quiet :
    ∃ s, Machine.run (step JsonText.compact) (initial (bytes "app") (bytes "id") 0) quietRun =
        some s ∧ s.pc = .idle ∧ Conserved (recorded quietRun) s := by
  refine ⟨_, rfl, rfl, (metrics_conserved_iff JsonText.compact (bytes "app") (bytes "id") 0
    quietRun _ rfl rfl).mpr ?_⟩
  have hroom : ∀ e, MetricList.Room {} e := fun e c _ => by
    rw [MetricList.count_empty]
    decide
  refine ⟨fun e _ => ⟨Or.inl rfl, hroom e⟩, fun e he => ?_, fun e he => ?_, fun e he => ?_,
    fun e he => ?_, fun e _ => ⟨Or.inl rfl, hroom e⟩, trivial⟩
  all_goals cases he

/-- The second evaluation of the lossy run is in no report and not in the store. -/
theorem metrics_lost :
    ∃ s, Machine.run (step JsonText.compact) (initial (bytes "app") (bytes "id") 0) lossyRun =
        some s ∧ s.pc = .idle ∧ ¬ Conserved (recorded lossyRun) s := by
  refine ⟨_, rfl, rfl, fun h => ?_⟩
  have hkept := h.kept_eq rfl (bytes "f", .yes)
  exact absurd hkept (by decide)

end MetricsThread

end Unleash
