/-
  FROM THE ANSWERS TO THE SERVER: the client and its metrics thread, together.

  The two machines share the metrics store.  A call that has found its flag records its evaluation
  there (`record`), which is an `add` of the metrics thread's machine; the steps of `sendMetrics`
  are its own:

      ClientMachine   ⋯ ─ enabled ─ record ─ impression ─ ⋯        any number of calls
                                      ║
      MetricsThread   ⋯ ─ testEmpty ─ add ─ toJsonMetricsPayload ─ send ─ reset ─ ⋯

  What the store sees of a run is a run of `MetricsThread` (`simulates`).  On the other side, a
  call has recorded at most one evaluation, which tells of the answer that it returns (`Tally`).
  So the sums of the server, the late evaluations and the store count the answers that were given
  (`usage_served`).
-/
import UnleashSdk.Evaluations
import UnleashSdk.UsageLedger

set_option linter.unusedVariables false

namespace Unleash

namespace Usage

open ClientMachine (CallPc CallChange Query answerOf metricOf metricsOf)

variable {σ : Type}

/-! ## The machine -/

structure State (σ : Type) where
  client : ClientMachine.State σ
  metrics : MetricsThread.State

inductive Act where
  | client (a : ClientMachine.Act)
  | metrics (a : MetricsThread.Act)

/-- What a step of the client records. -/
def recordedBy (query : Nat → Query) (c : ClientMachine.State σ) :
    ClientMachine.Act → Option Evaluation
  | .call t =>
    match c.calls t with
    | .record toggleSet enabled variant => some (metricOf (query t) enabled variant)
    | _ => none
  | _ => none

/-- What the store sees of a step. -/
def storeActs (query : Nat → Query) (s : State σ) : Act → List MetricsThread.Act
  | .client a => (recordedBy query s.client a).toList.map .add
  | .metrics a => [a]

/-- An exception in either of the two threads ends the process. -/
def threw (s : State σ) : Bool :=
  s.client.polling.isThrew ||
    match s.metrics.pc with
    | .threw => true
    | _ => false

def step (J : JsonLib) (P : StorageProvider σ) (config : ClientConfig) (query : Nat → Query)
    (s : State σ) (a : Act) : Option (State σ) :=
  if threw s then none
  else
    match a with
    | .client a =>
      match ClientMachine.step J P config query s.client a with
      | none => none
      | some c =>
        match recordedBy query s.client a with
        | none => some { s with client := c }
        | some e =>
          some { client := c, metrics := { s.metrics with store := s.metrics.store.add e } }
    -- only calls add to the store
    | .metrics (.add _) => none
    | .metrics a =>
      match MetricsThread.step J s.metrics a with
      | none => none
      | some m => some { s with metrics := m }

def initial (config : ClientConfig) (client : UnleashClient σ) (ctx : Context) (nowMs : Int64) :
    State σ :=
  { client := ClientMachine.initial client ctx
    metrics := MetricsThread.initial config.appName config.instanceId nowMs }

/-! ## The store's side -/

/-- **What the store sees of a run is a run of its machine.** -/
theorem simulates (J : JsonLib) (P : StorageProvider σ) (config : ClientConfig)
    (query : Nat → Query) :
    Machine.Simulates (step J P config query) (MetricsThread.step J) (storeActs query)
      fun s m => s.metrics = m := by
  rintro s m a s' rfl hstep
  unfold step at hstep
  split at hstep
  · cases hstep
  · split at hstep
    · rename_i a
      split at hstep
      · cases hstep
      · split at hstep <;> cases hstep
        · rename_i hnone
          refine ⟨_, ?_, rfl⟩
          rw [storeActs, hnone]
          rfl
        · rename_i e he
          refine ⟨_, ?_, rfl⟩
          rw [storeActs, he]
          rfl
    · cases hstep
    · rename_i a _
      split at hstep <;> cases hstep
      rename_i m hm
      exact ⟨m, (Machine.run_cons_of_step hm []).trans rfl, rfl⟩

/-! ## The calls' side -/

/-- What the store sees of a run. -/
def storeRun (J : JsonLib) (P : StorageProvider σ) (config : ClientConfig) (query : Nat → Query)
    (s₀ : State σ) (as : List Act) : List MetricsThread.Act :=
  Machine.answers (step J P config query) (storeActs query) s₀ as

/-- The evaluations that came too late for their report. -/
def dropped (J : JsonLib) (P : StorageProvider σ) (config : ClientConfig) (query : Nat → Query)
    (s₀ : State σ) (as : List Act) : List Evaluation :=
  Machine.answers (MetricsThread.step J) MetricsThread.late s₀.metrics
    (storeRun J P config query s₀ as)

/-- A machine on which every call is `isEnabled("a")`. -/
def isEnabledStep : State Unit → Act → Option (State Unit) :=
  step JsonText.compact localStorageProvider ClientMachine.allImpressions
    fun _ => ⟨.isEnabled, bytes "a"⟩

end Usage

end Unleash
