/-
  TWO OPTIONALS THAT NOBODY TESTS.

  Two workers call `value()` on an optional without a look at it:

  * `singleFetchToggles` on the error of a fetch, in its last branch.  The branch is entered only
    without an error, so the access would throw; it is never entered, because a fetch without an
    error has status 304 or one of the 200s (`ToggleFetcher.error_or_status`).
  * `sendMetrics` on the report.  There is none for an empty store; but the thread has found the
    store not empty, and until it resets the store itself others only add to it
    (`MetricsThread.Stocked`).
-/
import UnleashSdk.FetchOutcome
import UnleashSdk.MetricsThread

set_option linter.unusedVariables false

namespace Unleash

/-! ## The error of a fetch -/

/-- The last branch of `singleFetchToggles` is entered, and there is no error. -/
def FetchResult.AccessesNoError (r : FetchResult) : Prop :=
  r.error = none ∧ r.status ≠ 304 ∧ ¬ (200 ≤ r.status ∧ r.status < 300)

/-- A fetch without an error is classified before the last branch. -/
theorem ToggleFetcher.error_or_status (J : JsonLib) (f : ToggleFetcher) (resp : HttpReply) :
    (f.handle J resp).1.error ≠ none ∨ (f.handle J resp).1.status = 304 ∨
      200 ≤ (f.handle J resp).1.status ∧ (f.handle J resp).1.status < 300 := by
  have hout := handle_outcome J f resp
  rcases hout.one with ⟨hup, -, -⟩ | ⟨-, hun, -⟩ | ⟨-, -, hfail⟩
  · exact Or.inr (Or.inr (hout.updatedStatus hup))
  · exact Or.inr (hout.unchangedStatus hun)
  · exact Or.inl (Option.isSome_iff_ne_none.mp hfail.1)

theorem ToggleFetcher.fetch_error_checked {J : JsonLib} {f f' : ToggleFetcher} {ctx : Context}
    {resp : HttpReply} {result : FetchResult} (h : f.fetch J ctx resp = some (result, f')) :
    ¬ result.AccessesNoError := by
  rintro ⟨herror, hno, hok⟩
  unfold fetch at h
  split at h
  · cases h
  · rename_i g hg
    have hresult : (g.handle J resp).1 = result := congrArg Prod.fst (Option.some.inj h)
    rcases g.error_or_status J resp with h | h | h
    · exact h (by rw [hresult, herror])
    · exact hno (by rw [← hresult, h])
    · exact hok (by rw [← hresult]; exact h)

/-! ## The report -/

namespace MetricsThread

/-- Where the thread is about to build a report, there is something to report. -/
def Stocked (s : State) : Prop := s.pc = .toPayload → s.store.empty = false

/-- Only the thread's own resets empty the store, and they are elsewhere in its code. -/
theorem stocked_change {J : JsonLib} {s t : State} {a : Act} (hs : Stocked s)
    (h : Change J s a t) : Stocked t := by
  intro hpc
  cases h with
  | add e => exact s.store.list.add_not_empty e
  | testFull hidle he => exact he
  | _ => cases hpc

theorem stocked_run {J : JsonLib} {appName instanceId : Bytes} {nowMs : Int64} {as : List Act}
    {s : State} (hrun : Machine.run (step J) (initial appName instanceId nowMs) as = some s) :
    Stocked s :=
  Machine.run_inv (I := Stocked) (fun s a t hs ht => stocked_change hs (step_change ht))
    (fun hpc => (by cases hpc)) hrun

/-- A store that is not empty has a report, or the printer throws. -/
theorem Stocked.payload {s : State} (hs : Stocked s) (hpc : s.pc = .toPayload) (J : JsonLib)
    (nowMs : Int64) : s.store.toJsonMetricsPayload J nowMs ≠ some none := by
  rcases s.store.toJsonMetricsPayload_cases J nowMs (hs hpc) with ⟨-, body, hbody⟩ | ⟨-, hnone⟩
  · rw [hbody]
    simp
  · rw [hnone]
    simp

end MetricsThread

/-- **No value of an empty optional.**  Whatever replies a client has received, its next fetch
    does not end in the last branch of `singleFetchToggles` without an error, and the fetch throws
    only where the printer or the storage provider does; and however evaluations and the metrics
    thread interleave, the thread does not find the store without a report. -/
theorem optionals_engaged {σ : Type} (J : JsonLib) (P : StorageProvider σ)
    (client c : UnleashClient σ) (calls : List (Context × HttpReply))
    (hcalls : Machine.run (UnleashClient.fetchStep J P) client calls = some c)
    (appName instanceId : Bytes) (nowMs : Int64) (as : List MetricsThread.Act)
    (s : MetricsThread.State)
    (has : Machine.run (MetricsThread.step J)
      (MetricsThread.initial appName instanceId nowMs) as = some s) :
    (∀ ctx resp result f', c.toggleFetcher.fetch J ctx resp = some (result, f') →
      ¬ result.AccessesNoError) ∧
    (∀ ctx resp, c.singleFetchToggles J P ctx resp = none →
      c.toggleFetcher.prepare J ctx = none ∨
      ∃ r toggles storage, accepted J resp = some (r, toggles) ∧
        P.save c.storage toggles = .error storage) ∧
    (s.pc = .toPayload → ∀ nowMs, s.store.toJsonMetricsPayload J nowMs ≠ some none) := by
  refine ⟨fun ctx resp result f' h => ToggleFetcher.fetch_error_checked h,
    fun ctx resp hthrew => ?_, fun hpc => (MetricsThread.stocked_run has).payload hpc J⟩
  cases hprepare : c.toggleFetcher.prepare J ctx with
  | none => exact Or.inl rfl
  | some f =>
    rcases UnleashClient.singleFetchToggles_cases P resp hprepare with
      ⟨c', events, hsome, -⟩ | ⟨-, r, toggles, storage, hacc, -, hsave⟩
    · rw [hthrew] at hsome
      cases hsome
    · exact Or.inr ⟨r, toggles, storage, hacc, hsave⟩

/-- A client that was told that nothing was modified, and a metrics thread that is about to
    report one evaluation. -/
theorem optionals_engaged_notModified :
    (∃ c, Machine.run (UnleashClient.fetchStep JsonText.compact localStorageProvider)
        UnleashClient.freshClient [(UnleashClient.plainContext, .http { status := 304 })] =
        some c ∧
      ∀ ctx resp result f', c.toggleFetcher.fetch JsonText.compact ctx resp = some (result, f') →
        ¬ result.AccessesNoError) ∧
    ∃ s, Machine.run (MetricsThread.step JsonText.compact)
        (MetricsThread.initial (bytes "app") (bytes "id") 0)
        [.add (.enable (bytes "f") true), .testEmpty] = some s ∧
      s.store.toJsonMetricsPayload JsonText.compact 1 ≠ some none := by
  obtain ⟨hfetch, -, hpayload⟩ := optionals_engaged JsonText.compact localStorageProvider
    UnleashClient.freshClient _ [(UnleashClient.plainContext, .http { status := 304 })] rfl
    (bytes "app") (bytes "id") 0 [.add (.enable (bytes "f") true), .testEmpty] _ rfl
  exact ⟨⟨_, rfl, hfetch⟩, _, rfl, hpayload rfl 1⟩

end Unleash
