/-
  METRICS: the counters, the store and the report.

  An application thread records an `Evaluation` of a flag; the store counts it in the entry of
  that flag.  What an evaluation does to the counters is said once, by `hits`:

      (l.add e).count c = l.count c + (if e.hits c then 1 else 0)        (`count_add`)

  for every counter `c` of every flag, in the 32-bit arithmetic of the source.  `Counts l w` says
  that the list `l` counts exactly the evaluations `w`; it survives `add` as long as none of the
  counters that move is at its maximum (`Room`).

  The report (`encodeMetricsRequestBody`) can fail in one way only: a name in it is not UTF-8
  (`metricsRequestJson_utf8`).
-/
import Mathlib.Algebra.Order.Ring.Nat
import UnleashSdk.Lib.Json
import UnleashSdk.Lib.KeyMap
import UnleashSdk.Timestamps
import UnleashSdk.Transport

set_option linter.unusedVariables false

namespace Unleash

open Decimal (printInt)

/-! ## Counters of one toggle -/

structure MetricToggle where
  toggleName : Bytes
  variantsStats : KeyMap Bytes UInt32 := ∅
  yesCount : UInt32 := 0
  noCount : UInt32 := 0

namespace MetricToggle

def updateEnableMetric (m : MetricToggle) (isYes : Bool) : MetricToggle :=
  if isYes then { m with yesCount := m.yesCount + 1 } else { m with noCount := m.noCount + 1 }

def updateVariantMetric (m : MetricToggle) (isYes : Bool) (variantName : Bytes) : MetricToggle :=
  let m := if isYes then { m with yesCount := m.yesCount + 1 }
    else { m with noCount := m.noCount + 1 }
  if variantName.isEmpty then m
  else { m with variantsStats := m.variantsStats.upsert variantName fun c => c.getD 0 + 1 }

/-- The two constructors: a fresh entry that has counted one evaluation. -/
def ofEnable (toggleName : Bytes) (isYes : Bool) : MetricToggle :=
  ({ toggleName := toggleName } : MetricToggle).updateEnableMetric isYes

def ofVariant (toggleName : Bytes) (isYes : Bool) (variantName : Bytes) : MetricToggle :=
  ({ toggleName := toggleName } : MetricToggle).updateVariantMetric isYes variantName

end MetricToggle

/-! ## The list of all toggles' counters -/

structure MetricList where
  metricList : KeyMap Bytes MetricToggle := ∅

namespace MetricList

def addEnableMetricData (l : MetricList) (toggleName : Bytes) (isYes : Bool) : MetricList :=
  match l.metricList.lookup toggleName with
  | some it => ⟨l.metricList.insert toggleName (it.updateEnableMetric isYes)⟩
  | none => ⟨l.metricList.insert toggleName (.ofEnable toggleName isYes)⟩

def addVariantMetricData (l : MetricList) (toggleName : Bytes) (isYes : Bool)
    (variantName : Bytes) : MetricList :=
  match l.metricList.lookup toggleName with
  | some it => ⟨l.metricList.insert toggleName (it.updateVariantMetric isYes variantName)⟩
  | none => ⟨l.metricList.insert toggleName (.ofVariant toggleName isYes variantName)⟩

def isEmpty (l : MetricList) : Bool := l.metricList.entries.isEmpty

end MetricList

/-! ## What an evaluation counts for -/

/-- One recorded evaluation: a call of `addEnableMetric` or of `addVariantMetric`. -/
inductive Evaluation where
  | enable (toggleName : Bytes) (isYes : Bool)
  | variant (toggleName : Bytes) (isYes : Bool) (variantName : Bytes)
  deriving DecidableEq

/-- The counters of one toggle. -/
inductive Counter where
  | yes
  | no
  | variant (variantName : Bytes)
  deriving DecidableEq

namespace Evaluation

def toggleName : Evaluation → Bytes
  | .enable toggleName _ => toggleName
  | .variant toggleName _ _ => toggleName

/-- Which counters of its toggle an evaluation moves. -/
def moves : Evaluation → Counter → Bool
  | .enable _ isYes, .yes => isYes
  | .enable _ isYes, .no => !isYes
  | .enable _ _, .variant _ => false
  | .variant _ isYes _, .yes => isYes
  | .variant _ isYes _, .no => !isYes
  | .variant _ _ name, .variant v => !name.isEmpty && name = v

/-- Which counters of all toggles an evaluation moves. -/
def hits (e : Evaluation) (c : Bytes × Counter) : Bool := e.toggleName = c.1 && e.moves c.2

/-- The yes or the no counter: every evaluation moves one of them. -/
def main : Evaluation → Bytes × Counter
  | .enable toggleName isYes => (toggleName, if isYes then .yes else .no)
  | .variant toggleName isYes _ => (toggleName, if isYes then .yes else .no)

theorem hits_main (e : Evaluation) : e.hits e.main = true := by
  cases e with
  | enable t y => cases y <;> simp [hits, main, toggleName, moves]
  | variant t y v => cases y <;> simp [hits, main, toggleName, moves]

end Evaluation

namespace MetricToggle

def count (m : MetricToggle) : Counter → UInt32
  | .yes => m.yesCount
  | .no => m.noCount
  | .variant v => (m.variantsStats.lookup v).getD 0

def update (m : MetricToggle) : Evaluation → MetricToggle
  | .enable _ isYes => m.updateEnableMetric isYes
  | .variant _ isYes variantName => m.updateVariantMetric isYes variantName

theorem count_updateEnableMetric (m : MetricToggle) (isYes : Bool) (k : Counter) :
    (m.updateEnableMetric isYes).count k =
      m.count k + (if k = (if isYes then Counter.yes else Counter.no) then 1 else 0) := by
  cases isYes <;> cases k <;> simp [updateEnableMetric, count]

theorem count_updateVariantMetric (m : MetricToggle) (isYes : Bool) (v : Bytes) (k : Counter) :
    (m.updateVariantMetric isYes v).count k =
      (m.updateEnableMetric isYes).count k +
        (if v ≠ [] ∧ k = .variant v then 1 else 0) := by
  have heq : m.updateVariantMetric isYes v =
      if v.isEmpty then m.updateEnableMetric isYes
      else { m.updateEnableMetric isYes with
        variantsStats := (m.updateEnableMetric isYes).variantsStats.upsert v
          fun c => c.getD 0 + 1 } := rfl
  rw [heq]
  by_cases hv : v = []
  · simp [hv]
  · rw [if_neg (by simpa using hv)]
    cases k with
    | yes => simp [count]
    | no => simp [count]
    | variant v' =>
      by_cases hvv : v' = v
      · subst hvv
        simp [count, KeyMap.lookup_upsert, hv]
      · simp [count, KeyMap.lookup_upsert, hvv]

theorem count_update (m : MetricToggle) (e : Evaluation) (k : Counter) :
    (m.update e).count k = m.count k + (if e.moves k then 1 else 0) := by
  cases e with
  | enable t y =>
    rw [update, count_updateEnableMetric]
    cases y <;> cases k <;> simp [Evaluation.moves]
  | variant t y v =>
    rw [update, count_updateVariantMetric, count_updateEnableMetric]
    cases k with
    | yes => cases y <;> simp [Evaluation.moves]
    | no => cases y <;> simp [Evaluation.moves]
    | variant v' =>
      have hmoves : (Evaluation.variant t y v).moves (.variant v') = true ↔
          v ≠ [] ∧ Counter.variant v' = .variant v := by
        simp [Evaluation.moves, @eq_comm _ v v']
      simp only [hmoves]
      cases y <;> simp

end MetricToggle

namespace MetricList

def add (l : MetricList) : Evaluation → MetricList
  | .enable toggleName isYes => l.addEnableMetricData toggleName isYes
  | .variant toggleName isYes variantName => l.addVariantMetricData toggleName isYes variantName

/-- The value of a counter; a toggle without an entry has counted nothing. -/
def count (l : MetricList) (c : Bytes × Counter) : UInt32 :=
  match l.metricList.lookup c.1 with
  | none => 0
  | some m => m.count c.2

/-- Both kinds of `add` update the toggle's entry, or a fresh one. -/
theorem add_eq (l : MetricList) (e : Evaluation) :
    l.add e = ⟨l.metricList.insert e.toggleName
      (((l.metricList.lookup e.toggleName).getD { toggleName := e.toggleName }).update e)⟩ := by
  cases e with
  | enable t y =>
    show l.addEnableMetricData t y = _
    unfold addEnableMetricData
    rw [show (Evaluation.enable t y).toggleName = t from rfl]
    cases l.metricList.lookup t <;> rfl
  | variant t y v =>
    show l.addVariantMetricData t y v = _
    unfold addVariantMetricData
    rw [show (Evaluation.variant t y v).toggleName = t from rfl]
    cases l.metricList.lookup t <;> rfl

theorem lookup_add (l : MetricList) (e : Evaluation) (name : Bytes) :
    (l.add e).metricList.lookup name =
      if name = e.toggleName then
        some (((l.metricList.lookup name).getD { toggleName := name }).update e)
      else l.metricList.lookup name := by
  rw [add_eq]
  show (l.metricList.insert _ _).lookup name = _
  rw [KeyMap.lookup_insert]
  by_cases hn : name = e.toggleName
  · rw [if_pos hn, if_pos hn, hn]
  · rw [if_neg hn, if_neg hn]

theorem count_add (l : MetricList) (e : Evaluation) (c : Bytes × Counter) :
    (l.add e).count c = l.count c + (if e.hits c then 1 else 0) := by
  obtain ⟨name, k⟩ := c
  unfold count
  simp only [lookup_add]
  by_cases hn : name = e.toggleName
  · rw [if_pos hn]
    have hhits : e.hits (name, k) = e.moves k := by simp [Evaluation.hits, hn]
    rw [hhits]
    cases hl : l.metricList.lookup name with
    | some m => exact MetricToggle.count_update m e k
    | none =>
      have hzero : ({ toggleName := name } : MetricToggle).count k = 0 := by cases k <;> rfl
      have hupdate := MetricToggle.count_update { toggleName := name } e k
      rw [hzero] at hupdate
      exact hupdate
  · have hhits : e.hits (name, k) = false := by
      simpa [Evaluation.hits] using fun h => absurd h.symm hn
    rw [if_neg hn, hhits]
    simp

@[simp] theorem count_empty (c : Bytes × Counter) : ({} : MetricList).count c = 0 := rfl

theorem add_not_empty (l : MetricList) (e : Evaluation) : (l.add e).isEmpty = false := by
  have hl := lookup_add l e e.toggleName
  rw [if_pos rfl] at hl
  have hmem := KeyMap.mem_entries.mpr hl
  rw [isEmpty, List.isEmpty_eq_false_iff]
  exact List.ne_nil_of_mem hmem

/-- The counters after the evaluations `w`. -/
def ofEvaluations (w : List Evaluation) : MetricList := w.foldl add {}

@[simp] theorem ofEvaluations_nil : ofEvaluations [] = {} := rfl

@[simp] theorem ofEvaluations_snoc (w : List Evaluation) (e : Evaluation) :
    ofEvaluations (w ++ [e]) = (ofEvaluations w).add e := by
  rw [ofEvaluations, List.foldl_append]
  rfl

/-! ## Counting exactly -/

/-- `l` counts exactly the evaluations `w`. -/
def Counts (l : MetricList) (w : List Evaluation) : Prop :=
  ∀ c, (l.count c).toNat = w.countP (·.hits c)

/-- No counter that `e` moves is at its maximum. -/
def Room (l : MetricList) (e : Evaluation) : Prop :=
  ∀ c, e.hits c = true → (l.count c).toNat + 1 < 2 ^ 32

theorem counts_empty : ({} : MetricList).Counts [] := fun c => rfl

theorem count_of_isEmpty {l : MetricList} (h : l.isEmpty = true) (c : Bytes × Counter) :
    l.count c = 0 := by
  have hnone : l.metricList.lookup c.1 = none := by
    show List.dlookup c.1 l.metricList.entries = none
    rw [List.isEmpty_iff.mp h]
    rfl
  rw [count, hnone]

/-- A list without entries has counted nothing: every evaluation moves its main counter. -/
theorem Counts.eq_nil {l : MetricList} {w : List Evaluation} (h : l.Counts w)
    (he : l.isEmpty = true) : w = [] := by
  refine List.eq_nil_iff_forall_not_mem.mpr fun e hmem => ?_
  have hpos : 0 < w.countP (·.hits e.main) := List.countP_pos_iff.mpr ⟨e, hmem, e.hits_main⟩
  rw [← h e.main, count_of_isEmpty he] at hpos
  exact Nat.lt_irrefl 0 hpos

/-- A counter never gains more than one. -/
theorem count_add_le (l : MetricList) (e : Evaluation) (c : Bytes × Counter) :
    ((l.add e).count c).toNat ≤ (l.count c).toNat + (if e.hits c then 1 else 0) := by
  rw [count_add, UInt32.toNat_add]
  split
  · exact Nat.mod_le _ _
  · exact Nat.mod_le _ _

theorem count_add_room {l : MetricList} {e : Evaluation} (hroom : l.Room e)
    (c : Bytes × Counter) :
    ((l.add e).count c).toNat = (l.count c).toNat + (if e.hits c then 1 else 0) := by
  rw [count_add, UInt32.toNat_add]
  split
  · rename_i h
    exact Nat.mod_eq_of_lt (hroom c h)
  · exact Nat.mod_eq_of_lt (l.count c).toNat_lt

/-- A counter without room for one more wraps around to zero. -/
theorem count_add_wraps {l : MetricList} {e : Evaluation} {c : Bytes × Counter}
    (hhit : e.hits c = true) (hfull : ¬ (l.count c).toNat + 1 < 2 ^ 32) :
    ((l.add e).count c).toNat < (l.count c).toNat + 1 := by
  have hlt := (l.count c).toNat_lt
  rw [count_add, if_pos hhit, UInt32.toNat_add]
  have hone : (1 : UInt32).toNat = 1 := rfl
  rw [hone]
  omega

theorem Counts.add {l : MetricList} {w : List Evaluation} (h : l.Counts w) {e : Evaluation}
    (hroom : l.Room e) : (l.add e).Counts (w ++ [e]) := by
  intro c
  rw [count_add_room hroom c, h c, List.countP_append, List.countP_singleton]

end MetricList

/-! ## The report -/

/-- The counts of one toggle as the report shows them. -/
def MetricToggle.toJson (m : MetricToggle) : Json :=
  let jVariants := (Json.obj []).setAll (m.variantsStats.pairs fun c => .int c.toNat)
  (((Json.obj []).set (bytes "yes") (.int m.yesCount.toNat)).set (bytes "no")
    (.int m.noCount.toNat)).set (bytes "variants") jVariants

/-- The value of the request body. -/
def metricsRequestJson (list : MetricList) (start stop appName instanceId : Bytes) : Json :=
  let jToggles := (Json.obj []).setAll (list.metricList.pairs MetricToggle.toJson)
  let jBucket := (((Json.obj []).set (bytes "start") (.str start)).set (bytes "stop")
    (.str stop)).set (bytes "toggles") jToggles
  (((Json.obj []).set (bytes "bucket") jBucket).set (bytes "appName") (.str appName)).set
    (bytes "instanceId") (.str instanceId)

/-- The request body; `none` is the exception of the printer. -/
def encodeMetricsRequestBody (J : JsonLib) (list : MetricList)
    (start stop appName instanceId : Bytes) : Option Bytes :=
  J.dump (metricsRequestJson list start stop appName instanceId)

/-- Every toggle and variant name in the list is UTF-8. -/
def MetricList.utf8 (l : MetricList) : Bool :=
  l.metricList.entries.all fun e =>
    Bytes.validUtf8 e.1 && e.2.variantsStats.entries.all fun v => Bytes.validUtf8 v.1

theorem MetricToggle.toJson_eq (m : MetricToggle) :
    m.toJson = .obj [(bytes "no", .int m.noCount.toNat),
      (bytes "variants", (Json.obj []).setAll (m.variantsStats.pairs fun c => .int c.toNat)),
      (bytes "yes", .int m.yesCount.toNat)] := rfl

theorem metricsRequestJson_eq (list : MetricList) (start stop appName instanceId : Bytes) :
    metricsRequestJson list start stop appName instanceId =
      .obj [(bytes "appName", .str appName),
        (bytes "bucket", .obj [(bytes "start", .str start), (bytes "stop", .str stop),
          (bytes "toggles", (Json.obj []).setAll (list.metricList.pairs MetricToggle.toJson))]),
        (bytes "instanceId", .str instanceId)] := rfl

/-- The object filled from a map is UTF-8 exactly if the map's keys and values are. -/
theorem setAll_pairs_utf8 {β : Type} (m : KeyMap Bytes β) (f : β → Json) :
    ((Json.obj []).setAll (m.pairs f)).utf8 = true ↔
      ∀ e ∈ m.entries, Bytes.validUtf8 e.1 = true ∧ (f e.2).utf8 = true := by
  rw [Json.setAll_empty, Json.utf8, Json.utf8Members_assignAll (m.nodup_pairs f), KeyMap.pairs,
    List.forall_mem_map]

theorem MetricToggle.toJson_utf8 (m : MetricToggle) :
    m.toJson.utf8 = true ↔ ∀ v ∈ m.variantsStats.entries, Bytes.validUtf8 v.1 = true := by
  have hno : Bytes.validUtf8 (bytes "no") = true := by decide
  have hvariants : Bytes.validUtf8 (bytes "variants") = true := by decide
  have hyes : Bytes.validUtf8 (bytes "yes") = true := by decide
  have hstats := setAll_pairs_utf8 m.variantsStats fun c => .int c.toNat
  rw [toJson_eq]
  simp only [Json.utf8, Json.utf8Members, hno, hvariants, hyes, Bool.true_and, Bool.and_true,
    and_true] at hstats ⊢
  exact hstats

theorem metricsRequestJson_utf8 (list : MetricList) (start stop appName instanceId : Bytes) :
    (metricsRequestJson list start stop appName instanceId).utf8 = true ↔
      Bytes.validUtf8 appName = true ∧
      (Bytes.validUtf8 start = true ∧ Bytes.validUtf8 stop = true ∧ list.utf8 = true) ∧
      Bytes.validUtf8 instanceId = true := by
  have hlist : ((Json.obj []).setAll (list.metricList.pairs MetricToggle.toJson)).utf8 = true ↔
      list.utf8 = true := by
    rw [setAll_pairs_utf8]
    simp [MetricList.utf8, MetricToggle.toJson_utf8]
  have hnames : Bytes.validUtf8 (bytes "appName") = true ∧
      Bytes.validUtf8 (bytes "bucket") = true ∧ Bytes.validUtf8 (bytes "instanceId") = true ∧
      Bytes.validUtf8 (bytes "start") = true ∧ Bytes.validUtf8 (bytes "stop") = true ∧
      Bytes.validUtf8 (bytes "toggles") = true := by decide
  obtain ⟨h₁, h₂, h₃, h₄, h₅, h₆⟩ := hnames
  rw [metricsRequestJson_eq]
  simp only [Json.utf8, Json.utf8Members, h₁, h₂, h₃, h₄, h₅, h₆, Bool.true_and, Bool.and_true,
    Bool.and_eq_true, hlist]

/-! ## The store -/

structure MetricsStore where
  list : MetricList := {}
  startMs : Int64
  appName : Bytes
  instanceId : Bytes

namespace MetricsStore

def make (appName instanceId : Bytes) (nowMs : Int64) : MetricsStore :=
  { startMs := nowMs, appName := appName, instanceId := instanceId }

def reset (s : MetricsStore) (nowMs : Int64) : MetricsStore :=
  { s with list := {}, startMs := nowMs }

/-- `addEnableMetric` and `addVariantMetric`. -/
def add (s : MetricsStore) (e : Evaluation) : MetricsStore := { s with list := s.list.add e }

def empty (s : MetricsStore) : Bool := s.list.isEmpty

/-- The body of a report up to now, if there is anything to report; the outer `none` is the
    exception of the printer. -/
def toJsonMetricsPayload (J : JsonLib) (s : MetricsStore) (nowMs : Int64) :
    Option (Option Bytes) :=
  if s.list.isEmpty then some none
  else
    match encodeMetricsRequestBody J s.list (fromMsTsToUtcTime s.startMs)
        (fromMsTsToUtcTime nowMs) s.appName s.instanceId with
    | none => none
    | some body => some (some body)

/-- Every name that a report of this store shows is UTF-8. -/
def utf8 (s : MetricsStore) : Bool :=
  Bytes.validUtf8 s.appName && Bytes.validUtf8 s.instanceId && s.list.utf8

/-- **When a report is printed.**  The report of a store that holds something is a body exactly
    if every name in it is UTF-8; otherwise the printer throws. -/
theorem toJsonMetricsPayload_cases (J : JsonLib) {s : MetricsStore} (nowMs : Int64)
    (hs : s.empty = false) :
    (s.utf8 = true ∧ ∃ body, s.toJsonMetricsPayload J nowMs = some (some body)) ∨
    (s.utf8 = false ∧ s.toJsonMetricsPayload J nowMs = none) := by
  have hiff := metricsRequestJson_utf8 s.list (fromMsTsToUtcTime s.startMs)
    (fromMsTsToUtcTime nowMs) s.appName s.instanceId
  have hutf8 : (metricsRequestJson s.list (fromMsTsToUtcTime s.startMs)
      (fromMsTsToUtcTime nowMs) s.appName s.instanceId).utf8 = s.utf8 := by
    rw [Bool.eq_iff_iff, hiff, utf8, Bool.and_eq_true, Bool.and_eq_true]
    have h₁ := fromMsTsToUtcTime_utf8 s.startMs
    have h₂ := fromMsTsToUtcTime_utf8 nowMs
    exact ⟨fun h => ⟨⟨h.1, h.2.2⟩, h.2.1.2.2⟩, fun h => ⟨h.1.1, ⟨h₁, h₂, h.2⟩, h.1.2⟩⟩
  have hempty : s.list.isEmpty = false := hs
  unfold toJsonMetricsPayload encodeMetricsRequestBody
  rw [if_neg (by rw [hempty]; exact Bool.false_ne_true)]
  cases hu : s.utf8 with
  | true =>
    obtain ⟨body, hbody⟩ := J.dump_of_utf8 (hutf8.trans hu)
    exact Or.inl ⟨rfl, body, by rw [hbody]⟩
  | false => exact Or.inr ⟨rfl, by rw [J.dump_eq_none.mpr (hutf8.trans hu)]⟩

end MetricsStore

/-! ## The sender -/

/-- The outcome of sending a report. -/
structure MetricResult where
  status : Int32 := -1
  error : Option Bytes := none

/-- What `MetricSender::sendMetrics` makes of the reply to its request. -/
def metricResult (resp : HttpReply) : MetricResult :=
  match checkReply resp with
  | .error (status, error) => { status := status, error := some error }
  | .ok httpResponse =>
    if isOkStatus httpResponse.status then { status := httpResponse.status.toInt32 }
    else
      { status := httpResponse.status.toInt32,
        error := some (bytes "HTTP error status=" ++ printInt httpResponse.status.toInt ++
          bytes " body=" ++ httpResponse.body ++ bytes " Error: " ++ httpResponse.errorMessage) }

end Unleash
