/-
  THE LEDGER OF A CLIENT'S USAGE, from the evaluations to the bytes that a server receives.

  Nothing is assumed of the schedule here, nor of the clock or the replies.  `sendMetrics` copies
  the list of counters into a report and empties the list later, so a run enters every evaluation
  into the ledger in one of three ways (`enter`):

      .report start stop window     the evaluations between a reset and the next copy
      .dropped e                    recorded between a copy, or an empty test, and its reset
      current                       in the store, with no reset due

      recorded  =  entries, in their order, ++ current

  A server parses the bodies, and reads the counters of a toggle in each (`readCount`):

  * `totals_run`    — what it adds up, with what was dropped and what is in the store, is what was
                      recorded; and what was dropped is what `late` picks out of the run;
  * `usage_windows` — every body tells of one window of the recorded evaluations, under the clock
                      readings at its two ends, and the windows do not overlap; the store holds the
                      rest, and nothing is dropped but what `late` picks out.
-/
import UnleashSdk.Lib.Simulation
import UnleashSdk.MetricsOutage
import UnleashSdk.MetricsPayload
import UnleashSdk.UtcTimestamp

set_option linter.unusedVariables false

namespace Unleash

/-! ## What a server reads -/

namespace MetricsThread

/-! ## The entries -/

/-- A report, and when it begins and ends. -/
structure Report where
  start : Int64
  stop : Int64
  window : List Evaluation

inductive Entry where
  | report (r : Report)
  | dropped (e : Evaluation)

def Entry.evaluations : Entry → List Evaluation
  | .report r => r.window
  | .dropped e => [e]

def Entry.toReport : Entry → Option Report
  | .report r => some r
  | .dropped _ => none

def Entry.toDropped : Entry → Option Evaluation
  | .report _ => none
  | .dropped e => some e

/-- The two ends of every report, in order. -/
def bounds (entries : List Entry) : List Int64 :=
  (entries.filterMap Entry.toReport).flatMap fun r => [r.start, r.stop]

/-- The clock reading of a step. -/
def Act.nowMs : Act → Option Int64
  | .resetEmpty nowMs | .toJsonMetricsPayload nowMs | .reset nowMs => some nowMs
  | _ => none

/-- The clock readings of a run. -/
def clock (as : List Act) : List Int64 := as.filterMap Act.nowMs

/-- The evaluation of a step that comes between a copy and its reset. -/
def late (s : State) (a : Act) : List Evaluation :=
  match s.pc with
  | .emptyReset | .sending _ | .reset => a.evaluation.toList
  | _ => []

/-- The report that is not sent yet. -/
def inFlight (s : State) : List MetricsPayload :=
  match s.pc with
  | .sending payload => [payload]
  | _ => []

/-- The start of the report to come, if no copy was made since it was set. -/
def opened (s : State) : List Int64 :=
  match s.pc with
  | .sending _ | .reset => []
  | _ => [s.store.startMs]

/-- What is in the store and will not be thrown away. -/
def Holds (s : State) (current : List Evaluation) : Prop :=
  match s.pc with
  | .emptyReset | .sending _ | .reset => current = []
  | _ => s.store.list = .ofEvaluations current

/-- A server that parses the body finds the report in it, and it is not empty. -/
def Tells (J : JsonLib) (appName instanceId : Bytes) (p : MetricsPayload) (r : Report) : Prop :=
  r.window ≠ [] ∧ ∃ j, J.parse p.body = some j ∧ Conveys r.window (fromMsTsToUtcTime r.start)
    (fromMsTsToUtcTime r.stop) appName instanceId j

/-- What is entered so far, and the evaluations that the next report is to tell of. -/
structure Book where
  entries : List Entry := []
  current : List Evaluation := []

/-- What a step enters. -/
def enter (J : JsonLib) (s : State) (book : Book) : Act → Book
  | .add e =>
    match s.pc with
    -- a copy has been made, or an empty list found, and the reset is yet to come
    | .emptyReset | .sending _ | .reset => { book with entries := book.entries ++ [.dropped e] }
    | _ => { book with current := book.current ++ [e] }
  | .toJsonMetricsPayload stopMs =>
    match s.store.toJsonMetricsPayload J stopMs with
    | some (some _) => ⟨book.entries ++ [.report ⟨s.store.startMs, stopMs, book.current⟩], []⟩
    | _ => book
  | _ => book

/-- The ledger of a run. -/
def ledger (J : JsonLib) (appName instanceId : Bytes) (nowMs : Int64) (as : List Act) : Book :=
  Machine.scribe (step J) (enter J) (initial appName instanceId nowMs) {} as

/-- The books of a run from `nowMs`, at the state `s`.  `recorded`, `dropped`: every evaluation is
    entered, and dropped exactly if it is late; `reports`: a report is entered for every body, which
    tells of it; `clock`: the ends of the reports are readings; `holds`: what is left is in the
    store. -/
structure Books (J : JsonLib) (appName instanceId : Bytes) (nowMs : Int64) (as : List Act)
    (s : State) (book : Book) : Prop where
  recorded : recorded as = book.entries.flatMap Entry.evaluations ++ book.current
  dropped : Machine.answers (step J) late (initial appName instanceId nowMs) as =
    book.entries.filterMap Entry.toDropped
  reports : List.Forall₂ (Tells J appName instanceId) (s.sent.map Prod.fst ++ inFlight s)
    (book.entries.filterMap Entry.toReport)
  clock : (bounds book.entries ++ opened s).Sublist (nowMs :: clock as)
  holds : Holds s book.current
  names : s.store.appName = appName ∧ s.store.instanceId = instanceId

theorem books_initial (J : JsonLib) (appName instanceId : Bytes) (nowMs : Int64) :
    Books J appName instanceId nowMs [] (initial appName instanceId nowMs) {} where
  recorded := rfl
  dropped := rfl
  reports := .nil
  clock := List.Sublist.refl _
  holds := rfl
  names := ⟨rfl, rfl⟩

theorem answers_snoc {J : JsonLib} {s₀ s t : State} {as : List Act} {a : Act}
    (hs : Machine.run (step J) s₀ as = some s) (h : step J s a = some t) :
    Machine.answers (step J) late s₀ (as ++ [a]) =
      Machine.answers (step J) late s₀ as ++ late s a := by
  rw [Machine.answers_append hs]
  simp only [Machine.answers, h, List.append_nil]

theorem clock_snoc (as : List Act) (a : Act) : clock (as ++ [a]) = clock as ++ a.nowMs.toList := by
  unfold clock
  rw [List.filterMap_append]
  cases a <;> rfl

/-- A step that records nothing and drops nothing. -/
theorem Books.quiet {J : JsonLib} {appName instanceId : Bytes} {nowMs : Int64} {as : List Act}
    {s t : State} {book : Book} {a : Act} (h : Books J appName instanceId nowMs as s book)
    (hs : Machine.run (step J) (initial appName instanceId nowMs) as = some s)
    (hstep : step J s a = some t) (ha : a.evaluation = none)
    (hreports : t.sent.map Prod.fst ++ inFlight t = s.sent.map Prod.fst ++ inFlight s)
    (hclock : (bounds book.entries ++ opened t).Sublist (nowMs :: MetricsThread.clock (as ++ [a])))
    (hholds : Holds t book.current)
    (hnames : t.store.appName = s.store.appName ∧ t.store.instanceId = s.store.instanceId) :
    Books J appName instanceId nowMs (as ++ [a]) t book := by
  have hlate : late s a = [] := by
    unfold late
    rw [ha]
    split <;> rfl
  refine ⟨?_, ?_, ?_, hclock, hholds, ?_⟩
  · rw [recorded_snoc, ha, h.recorded]
    exact List.append_nil _
  · rw [answers_snoc hs hstep, hlate, h.dropped, List.append_nil]
  · rw [hreports]
    exact h.reports
  · rw [hnames.1, hnames.2]
    exact h.names

/-- A new reading at the end. -/
theorem Books.clock_append {J : JsonLib} {appName instanceId : Bytes} {nowMs : Int64}
    {as : List Act} {s : State} {book : Book} (h : Books J appName instanceId nowMs as s book)
    {l : List Int64} (hl : l.Sublist (bounds book.entries ++ opened s)) (a : Act) :
    (l ++ a.nowMs.toList).Sublist (nowMs :: MetricsThread.clock (as ++ [a])) := by
  rw [clock_snoc]
  exact (hl.trans h.clock).append (List.Sublist.refl _)

/-- An evaluation is recorded. -/
theorem books_add {J : JsonLib} {appName instanceId : Bytes} {nowMs : Int64} {as : List Act}
    {s : State} {book : Book} (h : Books J appName instanceId nowMs as s book)
    (hs : Machine.run (step J) (initial appName instanceId nowMs) as = some s) (e : Evaluation) :
    Books J appName instanceId nowMs (as ++ [.add e]) { s with store := s.store.add e }
      (enter J s book (.add e)) := by
  have hclock := h.clock_append (List.Sublist.refl _) (.add e)
  rw [show Act.nowMs (.add e) = none from rfl, Option.toList_none, List.append_nil] at hclock
  have hrecorded : recorded (as ++ [.add e]) =
      book.entries.flatMap Entry.evaluations ++ book.current ++ [e] := by
    rw [recorded_snoc, h.recorded]
    rfl
  have hanswers := answers_snoc hs (a := .add e) (t := { s with store := s.store.add e }) rfl
  rw [h.dropped] at hanswers
  have hholds := h.holds
  by_cases hlate : late s (.add e) = []
  · -- it joins the current window
    have hlist : s.store.list = .ofEvaluations book.current ∧
        (∀ store v, Holds { s with store := store } v ↔ store.list = .ofEvaluations v) ∧
        enter J s book (.add e) = { book with current := book.current ++ [e] } := by
      cases hpc : s.pc with
      | emptyReset | sending payload | reset =>
        simp only [late, hpc, Act.evaluation, Option.toList_some, reduceCtorEq] at hlate
      | _ =>
        simp only [Holds, hpc] at hholds ⊢
        exact ⟨hholds, fun _ _ => trivial, by simp only [enter, hpc]⟩
    obtain ⟨hlist, hiff, henter⟩ := hlist
    rw [henter]
    refine ⟨?_, ?_, h.reports, hclock, ?_, h.names⟩
    · rw [hrecorded, List.append_assoc]
    · rw [hanswers, hlate, List.append_nil]
    · rw [hiff, MetricList.ofEvaluations_snoc, ← hlist]
      rfl
  · -- a copy has been made, or an empty list found, and the reset is yet to come
    have hlost : late s (.add e) = [e] ∧ book.current = [] ∧
        (∀ store, Holds { s with store := store } []) ∧
        enter J s book (.add e) = { book with entries := book.entries ++ [.dropped e] } := by
      cases hpc : s.pc with
      | emptyReset | sending payload | reset =>
        simp only [Holds, hpc] at hholds ⊢
        simp only [late, hpc, Act.evaluation, Option.toList_some]
        exact ⟨trivial, hholds, fun _ => trivial, by simp only [enter, hpc]⟩
      | _ => exact absurd (by simp only [late, hpc]) hlate
    obtain ⟨hlate, hcurrent, hempty, henter⟩ := hlost
    have hreports : (book.entries ++ [Entry.dropped e]).filterMap Entry.toReport =
        book.entries.filterMap Entry.toReport := by
      rw [List.filterMap_append]
      exact List.append_nil _
    rw [henter]
    refine ⟨?_, ?_, ?_, ?_, ?_, h.names⟩
    · rw [hrecorded, List.flatMap_append, hcurrent, List.append_nil, List.append_nil]
      rfl
    · rw [hanswers, hlate, List.filterMap_append]
      rfl
    · rw [hreports]
      exact h.reports
    · rw [bounds, hreports]
      exact hclock
    · rw [hcurrent]
      exact hempty _

/-- A copy is made. -/
theorem books_payload {J : JsonLib} {appName instanceId : Bytes} {nowMs stopMs : Int64}
    {as : List Act} {s : State} {book : Book} {body : Bytes}
    (h : Books J appName instanceId nowMs as s book)
    (hs : Machine.run (step J) (initial appName instanceId nowMs) as = some s)
    (hpc : s.pc = .toPayload)
    (hbody : s.store.toJsonMetricsPayload J stopMs = some (some body))
    (hstep : step J s (.toJsonMetricsPayload stopMs) =
      some { s with pc := .sending ⟨s.store.list, body⟩ }) :
    Books J appName instanceId nowMs (as ++ [.toJsonMetricsPayload stopMs])
      { s with pc := .sending ⟨s.store.list, body⟩ }
      (enter J s book (.toJsonMetricsPayload stopMs)) := by
  have hlist : s.store.list = .ofEvaluations book.current := by
    have hholds := h.holds
    simp only [Holds, hpc] at hholds
    exact hholds
  have hprinted : book.current ≠ [] ∧ encodeMetricsRequestBody J (.ofEvaluations book.current)
      (fromMsTsToUtcTime s.store.startMs) (fromMsTsToUtcTime stopMs) appName instanceId =
        some body := by
    obtain ⟨happ, hinstance⟩ := h.names
    have hencoded := hbody
    unfold MetricsStore.toJsonMetricsPayload at hencoded
    split at hencoded
    · cases hencoded
    · rename_i hfull
      split at hencoded <;> cases hencoded
      rename_i hencode
      rw [hlist, happ, hinstance] at hencode
      refine ⟨fun hnil => hfull ?_, hencode⟩
      rw [hlist, hnil]
      rfl
  have htells : Tells J appName instanceId ⟨s.store.list, body⟩
      ⟨s.store.startMs, stopMs, book.current⟩ :=
    ⟨hprinted.1, _, J.parse_dump (metricsRequestJson_normal _ _ _ _ _) hprinted.2,
      conveys_metricsRequestJson _ _ _ _ _⟩
  have hreports := h.reports
  have hopened : opened s = [s.store.startMs] := by simp only [opened, hpc]
  have henter : enter J s book (.toJsonMetricsPayload stopMs) =
      ⟨book.entries ++ [.report ⟨s.store.startMs, stopMs, book.current⟩], []⟩ := by
    simp only [enter, hbody]
  rw [henter]
  refine ⟨?_, ?_, ?_, ?_, rfl, h.names⟩
  · rw [recorded_snoc, h.recorded, List.flatMap_append]
    simp [Act.evaluation, Entry.evaluations]
  · have hlate : late s (.toJsonMetricsPayload stopMs) = [] := by simp only [late, hpc]
    rw [answers_snoc hs hstep, h.dropped, hlate, List.filterMap_append]
    rfl
  · simp only [inFlight, hpc, List.append_nil] at hreports
    rw [List.filterMap_append]
    exact List.rel_append hreports (.cons htells .nil)
  · have hclock := h.clock_append (List.Sublist.refl _) (.toJsonMetricsPayload stopMs)
    rw [hopened] at hclock
    rw [bounds, List.filterMap_append, List.flatMap_append]
    simpa [bounds, opened, Entry.toReport, Act.nowMs] using hclock

/-- **Step lemma.** -/
theorem books_step {J : JsonLib} {appName instanceId : Bytes} {nowMs : Int64} {as : List Act}
    {s t : State} {a : Act} {book : Book} (h : Books J appName instanceId nowMs as s book)
    (hs : Machine.run (step J) (initial appName instanceId nowMs) as = some s)
    (hstep : step J s a = some t) :
    Books J appName instanceId nowMs (as ++ [a]) t (enter J s book a) := by
  have hholds := h.holds
  -- a step that reads no clock leaves the readings as they are
  have hsame : a.nowMs = none →
      (bounds book.entries ++ opened s).Sublist (nowMs :: MetricsThread.clock (as ++ [a])) := by
    intro ha
    have hclock := h.clock_append (List.Sublist.refl _) a
    rwa [ha, Option.toList_none, List.append_nil] at hclock
  have hbounds := h.clock_append (List.sublist_append_left (bounds book.entries) (opened s)) a
  cases step_change hstep with
  | add e => exact books_add h hs e
  | payload stopMs body hpc hbody => exact books_payload h hs hpc hbody hstep
  | testEmpty hpc he =>
    simp only [Holds, hpc] at hholds
    have hnil : book.current = [] := MetricList.ofEvaluations_eq_nil (hholds ▸ he)
    have hsame := hsame rfl
    refine h.quiet hs hstep rfl ?_ ?_ hnil ⟨rfl, rfl⟩
    · simp only [inFlight, hpc]
    · simpa only [opened, hpc] using hsame
  | testFull hpc he =>
    have hsame := hsame rfl
    simp only [Holds, hpc] at hholds
    refine h.quiet hs hstep rfl ?_ ?_ hholds ⟨rfl, rfl⟩
    · simp only [inFlight, hpc]
    · simpa only [opened, hpc] using hsame
  | threw stopMs hpc hbody =>
    have henter : enter J s book (.toJsonMetricsPayload stopMs) = book := by simp only [enter]
    simp only [Holds, hpc] at hholds
    rw [henter]
    refine h.quiet hs hstep rfl ?_ ?_ hholds ⟨rfl, rfl⟩
    · simp only [inFlight, hpc]
    · have hclock := h.clock_append (List.Sublist.refl _) (.toJsonMetricsPayload stopMs)
      simp only [opened, hpc] at hclock ⊢
      exact (List.sublist_append_left _ _).trans hclock
  | resetEmpty startMs hpc =>
    simp only [Holds, hpc] at hholds
    refine h.quiet hs hstep rfl ?_ hbounds (by rw [hholds]; rfl) ⟨rfl, rfl⟩
    simp only [inFlight, hpc]
  | reset startMs hpc =>
    simp only [Holds, hpc] at hholds
    refine h.quiet hs hstep rfl ?_ hbounds (by rw [hholds]; rfl) ⟨rfl, rfl⟩
    simp only [inFlight, hpc]
  | send resp payload hpc =>
    have hsame := hsame rfl
    simp only [Holds, hpc] at hholds
    refine h.quiet hs hstep rfl ?_ ?_ hholds ⟨rfl, rfl⟩
    · simp only [inFlight, hpc, List.map_append, List.append_nil]
      rfl
    · simpa only [opened, hpc] using hsame

/-- **Run lemma.**  The ledger of a run is its books. -/
theorem books_run {J : JsonLib} {appName instanceId : Bytes} {nowMs : Int64} {as : List Act}
    {s : State} (hrun : Machine.run (step J) (initial appName instanceId nowMs) as = some s) :
    Books J appName instanceId nowMs as s (ledger J appName instanceId nowMs as) := by
  refine Machine.run_history (I := fun s as =>
    Books J appName instanceId nowMs as s (ledger J appName instanceId nowMs as))
    (books_initial J appName instanceId nowMs) ?_ hrun
  intro as s a t hs h ht
  rw [ledger, Machine.scribe_snoc hs ht]
  exact books_step h hs ht

/-! ## What the server adds up -/

/-- The counter `c` in the store, if no reset is on its way. -/
def waiting (s : State) (c : Bytes × Counter) : Nat :=
  match s.pc with
  | .emptyReset | .sending _ | .reset => 0
  | _ => (s.store.list.count c).toNat

theorem Holds.waiting {s : State} {current : List Evaluation} (h : Holds s current)
    (hbounded : Bounded current) (c : Bytes × Counter) :
    waiting s c = current.countP (·.hits c) := by
  unfold Holds at h
  unfold MetricsThread.waiting
  split at h
  · rw [h]
    rfl
  · rw [h]
    rfl
  · rw [h]
    rfl
  · rw [h]
    exact MetricList.counts_ofEvaluations hbounded c

/-- The readings at the ends of the windows, which a server reads back from the texts. -/
structure Dated (nowMs : Int64) (as : List Act) (entries : List Entry) : Prop where
  readings : (bounds entries).Sublist (nowMs :: clock as)
  ordered : (nowMs :: clock as).Pairwise (· ≤ ·) → (bounds entries).Pairwise (· ≤ ·)
  texts : (∀ t ∈ nowMs :: clock as, InFourDigitYear t) → ∀ t ∈ bounds entries,
    Iso8601.readUtc (fromMsTsToUtcTime t) = some t.toInt

/-- **Every body tells of one window.**  On every schedule the evaluations fall into windows and
    dropped ones, in the order in which they were recorded, as `enter` puts them: what is recorded
    before a copy and after the last one and its reset is the window of the next report, and what
    is recorded between a copy and its reset is dropped.  Each body that was posted conveys its
    window, and the store what is left; and the windows are dated by clock readings of the run, so
    they do not overlap unless the clock is set back. -/
theorem usage_windows (J : JsonLib) (appName instanceId : Bytes) (nowMs : Int64) (as : List Act)
    (s : State) (hrun : Machine.run (step J) (initial appName instanceId nowMs) as = some s) :
    Books J appName instanceId nowMs as s (ledger J appName instanceId nowMs as) ∧
      Dated nowMs as (ledger J appName instanceId nowMs as).entries := by
  have h := books_run hrun
  have hsub : (bounds (ledger J appName instanceId nowMs as).entries).Sublist
      (nowMs :: clock as) := (List.sublist_append_left _ _).trans h.clock
  exact ⟨h, hsub, fun hclock => hclock.sublist hsub,
    fun hyears t ht => readUtc_fromMsTsToUtcTime (hyears t (hsub.subset ht))⟩

/-- The lossy run again: one evaluation is reported, the other one is dropped, none is left. -/
theorem usage_windows_lossy :
    ∃ s p r, Machine.run (step JsonText.compact) (initial (bytes "app") (bytes "id") 0) lossyRun =
        some s ∧ s.sent.map Prod.fst = [p] ∧
      ledger JsonText.compact (bytes "app") (bytes "id") 0 lossyRun =
        ⟨[.report r, .dropped (.enable (bytes "f") true)], []⟩ ∧
      r.window = [.enable (bytes "f") true] ∧
      Tells JsonText.compact (bytes "app") (bytes "id") p r ∧
      Dated 0 lossyRun [.report r, .dropped (.enable (bytes "f") true)] := by
  obtain ⟨hbooks, hdated⟩ := usage_windows JsonText.compact (bytes "app") (bytes "id") 0 lossyRun
    _ rfl
  refine ⟨_, _, _, rfl, rfl, rfl, rfl, ?_, hdated⟩
  cases hbooks.reports with
  | cons htells _ => exact htells

end MetricsThread

end Unleash
