/-
  THE INTERVALS OF THE TWO WORKERS.

  A configuration counts its intervals in seconds, in 64 bits; a wait ends at a deadline that the
  steady clock counts in nanoseconds, in 64 bits as well.  On the way
      polling    seconds ─────────────────────→ nanoseconds ──→ now + nanoseconds
      metrics    seconds ──→ milliseconds ────→ nanoseconds ──→ now + nanoseconds
  every arrow is a signed 64-bit operation that may overflow (`checked`).  `isValid` asks only
  that the intervals are not negative.  Whatever the clock shows below 2^62, a wait of up to
  4611686018 seconds has its exact deadline, and a longer one overflows when the clock is late.
-/
import UnleashSdk.Config
import UnleashSdk.Lib.Signed

set_option linter.unusedVariables false

namespace Unleash

open Signed (Fits checked checked_of_fits toInt_of_checked fits_of_checked)

namespace Intervals

/-! ## A wait -/

/-- A wait of `interval` seconds that starts when the clock shows `now`. -/
structure Wait where
  interval : Int64
  now : Int64
  deadline : Int64

/-- The deadline is the interval after the start. -/
def Wait.Exact (w : Wait) : Prop :=
  w.deadline.toInt = w.now.toInt + w.interval.toInt * 1000000000

/-- `wait_for`, whose duration counts ticks of `nanos` nanoseconds; `none` is an overflow. -/
def waitFor (interval duration : Int64) (nanos : Int) (now : Int64) : Option Wait := do
  let ns ← checked (duration.toInt * nanos)
  let deadline ← checked (now.toInt + ns.toInt)
  return { interval := interval, now := now, deadline := deadline }

/-- The wait of `featurePollingLoop`. -/
def pollingWait (interval now : Int64) : Option Wait :=
  waitFor interval interval 1000000000 now

/-- The wait of `waitAndMaybeSend`, whose parameter counts milliseconds. -/
def waitAndMaybeSend (interval now : Int64) : Option Wait := do
  let timeout ← checked (interval.toInt * 1000)
  waitFor interval timeout 1000000 now

/-! ## The loops -/

/-- One turn of a loop: what the clock shows when the wait starts, and whether the thread is to
exit when it is over. -/
structure Turn where
  now : Int64
  exit : Bool

/-- A wait, and the waits after it unless the thread exits. -/
def turnThen (wait : Int64 → Option Wait) (turn : Turn) (rest : Option (List Wait)) :
    Option (List Wait) := do
  let w ← wait turn.now
  if turn.exit then return [w]
  else
    let ws ← rest
    return w :: ws

/-- The waits of a loop that always waits for the same interval; a run may end at any time. -/
def waits (wait : Int64 → Option Wait) : List Turn → Option (List Wait)
  | [] => some []
  | turn :: turns => turnThen wait turn (waits wait turns)

def featurePollingLoop (config : ClientConfig) (turns : List Turn) : Option (List Wait) :=
  if !config.isRefreshEnabled then some []
  else waits (pollingWait config.refreshInterval) turns

def metricSendingLoop (config : ClientConfig) (turns : List Turn) : Option (List Wait) :=
  if !config.isMetricsEnabled then some []
  else if config.metricsIntervalInitial > 0 then
    match turns with
    | [] => some []
    | turn :: turns =>
      turnThen (waitAndMaybeSend config.metricsIntervalInitial) turn
        (waits (waitAndMaybeSend config.metricsInterval) turns)
  else waits (waitAndMaybeSend config.metricsInterval) turns

/-! ## What a wait computes -/

/-- A way to wait that has the exact deadline wherever the deadline fits. -/
structure Faithful (wait : Int64 → Int64 → Option Wait) : Prop where
  exact : ∀ {interval now w}, wait interval now = some w →
    w.Exact ∧ w.interval = interval ∧ w.now = now
  defined : ∀ {interval now : Int64}, 0 ≤ interval.toInt → 0 ≤ now.toInt →
    now.toInt + interval.toInt * 1000000000 < 2 ^ 63 → ∃ w, wait interval now = some w

theorem waitFor_eq_some {interval duration now : Int64} {nanos : Int} {w : Wait}
    (h : waitFor interval duration nanos now = some w) :
    w.interval = interval ∧ w.now = now ∧
      w.deadline.toInt = now.toInt + duration.toInt * nanos := by
  obtain ⟨ns, hns, h⟩ := Option.bind_eq_some_iff.mp h
  obtain ⟨deadline, hdeadline, h⟩ := Option.bind_eq_some_iff.mp h
  obtain rfl := Option.some.inj h
  refine ⟨rfl, rfl, ?_⟩
  rw [← toInt_of_checked hns]
  exact toInt_of_checked hdeadline

theorem waitFor_defined (interval : Int64) {duration now : Int64} {nanos : Int}
    (h0 : 0 ≤ duration.toInt * nanos) (hnow : 0 ≤ now.toInt)
    (h : now.toInt + duration.toInt * nanos < 2 ^ 63) :
    ∃ w, waitFor interval duration nanos now = some w := by
  obtain ⟨ns, hns, hnsInt⟩ := checked_of_fits
    (show Fits (duration.toInt * nanos) by unfold Fits; omega)
  obtain ⟨deadline, hdeadline, -⟩ := checked_of_fits
    (show Fits (now.toInt + ns.toInt) by unfold Fits; omega)
  refine ⟨⟨interval, now, deadline⟩, ?_⟩
  rw [waitFor, Option.bind_eq_bind, hns, Option.bind_some, hdeadline]
  rfl

theorem pollingWait_faithful : Faithful pollingWait where
  exact := by
    intro interval now w h
    obtain ⟨hinterval, hnow, hdeadline⟩ := waitFor_eq_some h
    exact ⟨by rw [Wait.Exact, hdeadline, hinterval, hnow], hinterval, hnow⟩
  defined := by
    intro interval now h0 hnow h
    exact waitFor_defined interval (by omega) hnow h

theorem waitAndMaybeSend_faithful : Faithful waitAndMaybeSend where
  exact := by
    intro interval now w h
    obtain ⟨timeout, htimeout, h⟩ := Option.bind_eq_some_iff.mp h
    obtain ⟨hinterval, hnow, hdeadline⟩ := waitFor_eq_some h
    have hms := toInt_of_checked htimeout
    refine ⟨?_, hinterval, hnow⟩
    rw [Wait.Exact, hdeadline, hinterval, hnow, hms]
    omega
  defined := by
    intro interval now h0 hnow h
    obtain ⟨timeout, htimeout, hms⟩ := checked_of_fits
      (show Fits (interval.toInt * 1000) by unfold Fits; omega)
    obtain ⟨w, hw⟩ := waitFor_defined interval
      (show 0 ≤ timeout.toInt * 1000000 by omega) hnow (by omega)
    refine ⟨w, ?_⟩
    rw [waitAndMaybeSend, Option.bind_eq_bind, htimeout]
    exact hw

/-! ## What a loop computes -/

/-- The clock is below 2^62 nanoseconds whenever a wait starts. -/
def ClockBounded (turns : List Turn) : Prop :=
  ∀ turn ∈ turns, 0 ≤ turn.now.toInt ∧ turn.now.toInt < 2 ^ 62

/-- The waits of a run have their exact deadlines. -/
def AllExact (run : Option (List Wait)) : Prop := ∃ ws, run = some ws ∧ ∀ w ∈ ws, w.Exact

/-- The longest interval, in seconds, that fits behind every clock below 2^62. -/
def longest : Int := 4611686018

/-- A clock close to 2^62. -/
def lateTurn (exit : Bool) : Turn := ⟨4611686018427387903, exit⟩

theorem lateTurn_bounded (exit : Bool) :
    0 ≤ (lateTurn exit).now.toInt ∧ (lateTurn exit).now.toInt < 2 ^ 62 :=
  ⟨show (0 : Int) ≤ (4611686018427387903 : Int64).toInt by decide,
    show (4611686018427387903 : Int64).toInt < 2 ^ 62 by decide⟩

/-- Step: a wait within the bound keeps the run exact, whatever follows. -/
theorem turnThen_exact {wait : Int64 → Int64 → Option Wait} (hwait : Faithful wait)
    {interval : Int64} (h0 : 0 ≤ interval.toInt) (hle : interval.toInt ≤ longest) {turn : Turn}
    (hclock : 0 ≤ turn.now.toInt ∧ turn.now.toInt < 2 ^ 62) {rest : Option (List Wait)}
    (hrest : AllExact rest) : AllExact (turnThen (wait interval) turn rest) := by
  unfold longest at hle
  obtain ⟨w, hw⟩ := hwait.defined h0 hclock.1 (by omega)
  have hexact := (hwait.exact hw).1
  obtain ⟨ws, rfl, hall⟩ := hrest
  rw [turnThen, Option.bind_eq_bind, hw, Option.bind_some]
  cases turn.exit with
  | true => exact ⟨[w], rfl, fun v hv => List.mem_singleton.mp hv ▸ hexact⟩
  | false =>
    refine ⟨w :: ws, rfl, fun v hv => ?_⟩
    rcases List.mem_cons.mp hv with rfl | hv
    · exact hexact
    · exact hall v hv

/-- Run: so do any number of waits. -/
theorem waits_exact {wait : Int64 → Int64 → Option Wait} (hwait : Faithful wait)
    {interval : Int64} (h0 : 0 ≤ interval.toInt) (hle : interval.toInt ≤ longest)
    {turns : List Turn} (hclock : ClockBounded turns) : AllExact (waits (wait interval) turns) := by
  induction turns with
  | nil => exact ⟨[], rfl, fun w hw => nomatch hw⟩
  | cons turn turns ih =>
    have hrest := ih fun t ht => hclock t (List.mem_cons_of_mem turn ht)
    exact turnThen_exact hwait h0 hle (hclock turn List.mem_cons_self) hrest

/-- A run that starts late is exact only within the bound. -/
theorem le_longest {wait : Int64 → Int64 → Option Wait} (hwait : Faithful wait)
    {interval : Int64} {exit : Bool} {rest : Option (List Wait)}
    (h : AllExact (turnThen (wait interval) (lateTurn exit) rest)) :
    interval.toInt ≤ longest := by
  obtain ⟨ws, hws, -⟩ := h
  obtain ⟨w, hw, -⟩ := Option.bind_eq_some_iff.mp hws
  obtain ⟨hexact, hinterval, hnow⟩ := hwait.exact hw
  have hlate : w.now.toInt = 4611686018427387903 := by
    rw [hnow]
    show (4611686018427387903 : Int64).toInt = 4611686018427387903
    decide
  have hfits := w.deadline.toInt_lt
  rw [Wait.Exact, hinterval, hlate] at hexact
  unfold longest
  omega

/-- What follows a turn that goes on has been run. -/
theorem rest_of_turnThen {wait : Int64 → Option Wait} {rest : Option (List Wait)}
    (h : AllExact (turnThen wait (lateTurn false) rest)) : AllExact rest := by
  obtain ⟨ws, hws, hall⟩ := h
  obtain ⟨w, hw, hws⟩ := Option.bind_eq_some_iff.mp hws
  obtain ⟨rs, rfl, hws⟩ := Option.bind_eq_some_iff.mp hws
  obtain rfl := Option.some.inj hws
  exact ⟨rs, rfl, fun v hv => hall v (List.mem_cons_of_mem w hv)⟩

/-! ## Which configurations are safe -/

/-- In every run of either loop no operation overflows, and every deadline is exact. -/
def NoOverflow (config : ClientConfig) : Prop :=
  ∀ turns, ClockBounded turns →
    AllExact (featurePollingLoop config turns) ∧ AllExact (metricSendingLoop config turns)

theorem isValid_iff (config : ClientConfig) :
    config.isValid = true ↔ config.url ≠ [] ∧ config.clientKey ≠ [] ∧
      0 ≤ config.refreshInterval.toInt ∧ 0 ≤ config.metricsInterval.toInt ∧
      0 ≤ config.metricsIntervalInitial.toInt := by
  have hneg : ∀ i : Int64, decide (i < 0) = true ↔ i.toInt < 0 := fun i =>
    decide_eq_true_iff.trans (Signed.neg_iff i)
  unfold ClientConfig.isValid
  split
  · rename_i h
    simp only [Bool.or_eq_true, List.isEmpty_iff, hneg] at h
    refine iff_of_false (by decide) fun hv => ?_
    rcases h with (((h | h) | h) | h) | h
    · exact hv.1 h
    · exact hv.2.1 h
    · omega
    · omega
    · omega
  · rename_i h
    simp only [Bool.or_eq_true, List.isEmpty_iff, hneg, not_or] at h
    exact iff_of_true rfl ⟨h.1.1.1.1, h.1.1.1.2, by omega, by omega, by omega⟩

theorem isRefreshEnabled_iff (config : ClientConfig) :
    config.isRefreshEnabled = true ↔ 0 < config.refreshInterval.toInt :=
  decide_eq_true_iff.trans (Signed.pos_iff config.refreshInterval)

theorem isMetricsEnabled_iff (config : ClientConfig) :
    config.isMetricsEnabled = true ↔ 0 < config.metricsInterval.toInt :=
  decide_eq_true_iff.trans (Signed.pos_iff config.metricsInterval)

/-- The polling loop is exact in every run if and only if its interval is within the bound. -/
theorem polling_exact_iff {config : ClientConfig} (h0 : 0 ≤ config.refreshInterval.toInt) :
    (∀ turns, ClockBounded turns → AllExact (featurePollingLoop config turns)) ↔
      config.refreshInterval.toInt ≤ longest := by
  have henabled := isRefreshEnabled_iff config
  unfold featurePollingLoop
  cases he : config.isRefreshEnabled with
  | false =>
    have hzero := mt henabled.mpr (by rw [he]; decide)
    exact iff_of_true (fun turns _ => ⟨[], rfl, fun w hw => nomatch hw⟩)
      (by unfold longest; omega)
  | true =>
    constructor
    · intro h
      exact le_longest pollingWait_faithful (h [lateTurn true] fun turn hturn =>
        List.mem_singleton.mp hturn ▸ lateTurn_bounded true)
    · intro hle turns hclock
      exact waits_exact pollingWait_faithful h0 hle hclock

/-- The metrics loop is exact in every run if and only if it is off or both of its intervals are
within the bound. -/
theorem metrics_exact_iff {config : ClientConfig} (h0 : 0 ≤ config.metricsInterval.toInt)
    (hi : 0 ≤ config.metricsIntervalInitial.toInt) :
    (∀ turns, ClockBounded turns → AllExact (metricSendingLoop config turns)) ↔
      config.metricsInterval = 0 ∨ config.metricsInterval.toInt ≤ longest ∧
        config.metricsIntervalInitial.toInt ≤ longest := by
  have hzero : config.metricsInterval = 0 ↔ config.metricsInterval.toInt = 0 :=
    Int64.toInt_inj.symm
  have henabled := isMetricsEnabled_iff config
  have hpos := Signed.pos_iff config.metricsIntervalInitial
  have hwait := waitAndMaybeSend_faithful
  unfold metricSendingLoop
  cases he : config.isMetricsEnabled with
  | false =>
    have hoff := mt henabled.mpr (by rw [he]; decide)
    exact iff_of_true (fun turns _ => ⟨[], rfl, fun w hw => nomatch hw⟩)
      (Or.inl (hzero.mpr (by omega)))
  | true =>
    have hon := henabled.mp he
    rw [or_iff_right (fun h => absurd (hzero.mp h) (by omega))]
    by_cases hinitial : config.metricsIntervalInitial > 0
    · simp only [if_pos hinitial]
      constructor
      · -- two late turns: the first waits for the initial interval, the second for the other
        intro h
        have hrun := h [lateTurn false, lateTurn true] fun turn hturn => by
          rcases List.mem_cons.mp hturn with rfl | hturn
          · exact lateTurn_bounded false
          · exact List.mem_singleton.mp hturn ▸ lateTurn_bounded true
        exact ⟨le_longest hwait (rest_of_turnThen hrun), le_longest hwait hrun⟩
      · rintro ⟨hle, hlei⟩ turns hclock
        cases turns with
        | nil => exact ⟨[], rfl, fun w hw => nomatch hw⟩
        | cons turn turns =>
          exact turnThen_exact hwait hi hlei (hclock turn List.mem_cons_self)
            (waits_exact hwait h0 hle fun t ht => hclock t (List.mem_cons_of_mem turn ht))
    · simp only [if_neg hinitial]
      have hnone := mt hpos.mpr hinitial
      constructor
      · intro h
        refine ⟨le_longest hwait (h [lateTurn true] fun turn hturn =>
          List.mem_singleton.mp hturn ▸ lateTurn_bounded true), ?_⟩
        unfold longest
        omega
      · rintro ⟨hle, -⟩ turns hclock
        exact waits_exact hwait h0 hle hclock

/-- An accepted configuration never overflows if and only if every interval that it waits for is
at most 4611686018 seconds. -/
theorem noOverflow_iff {config : ClientConfig} (h : config.isValid = true) :
    NoOverflow config ↔ config.refreshInterval.toInt ≤ longest ∧
      (config.metricsInterval = 0 ∨ config.metricsInterval.toInt ≤ longest ∧
        config.metricsIntervalInitial.toInt ≤ longest) := by
  obtain ⟨-, -, hrefresh, hmetrics, hinitial⟩ := (isValid_iff config).mp h
  rw [← polling_exact_iff hrefresh, ← metrics_exact_iff hmetrics hinitial]
  exact forall₂_and

/-- The configuration with the default intervals. -/
def defaultIntervals : ClientConfig :=
  ClientConfig.make (bytes "http://unleash/api") (bytes "key") (bytes "app") []

/-- Every interval as long as the clock bears, the first one of the reports too. -/
def longestIntervals : ClientConfig :=
  { defaultIntervals with
    refreshInterval := 4611686018
    metricsInterval := 4611686018
    metricsIntervalInitial := 4611686018 }

theorem noOverflow_longest : NoOverflow longestIntervals :=
  (noOverflow_iff (by decide)).mpr ⟨by decide, Or.inr ⟨by decide, by decide⟩⟩

/-- A configuration that asks for the longest intervals there are. -/
def neverRefresh : ClientConfig :=
  { defaultIntervals with
    refreshInterval := 9223372036854775807
    metricsInterval := 9223372036854775807 }

/-- It is accepted, and both loops overflow at their first wait, when the clock shows zero. -/
theorem neverRefresh_overflows :
    neverRefresh.isValid = true ∧ featurePollingLoop neverRefresh [⟨0, false⟩] = none ∧
      metricSendingLoop neverRefresh [⟨0, false⟩] = none ∧ ¬ NoOverflow neverRefresh := by
  have hpolling : featurePollingLoop neverRefresh [⟨0, false⟩] = none := by decide
  refine ⟨by decide, hpolling, by decide, fun h => ?_⟩
  obtain ⟨ws, hws, -⟩ := (h [⟨0, false⟩] fun turn hturn => by
    rw [List.mem_singleton.mp hturn]
    exact ⟨show (0 : Int) ≤ (0 : Int64).toInt by decide,
      show (0 : Int64).toInt < 2 ^ 62 by decide⟩).1
  rw [hpolling] at hws
  nomatch hws

end Intervals

end Unleash
