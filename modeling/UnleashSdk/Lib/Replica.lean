/-
  A REPLICA that asks its source, one question at a time.

  The source goes through versions 0, 1, 2, …  The replica asks, and some time later it observes
  a version that was current at a moment after the question, or the question comes to nothing
  (`forget`).  Answers travel for any time, during which the source may go on.

  Two facts follow, whatever the interleaving: what is observed never goes back to an older
  version (`observed_sorted`), and what is observed in answer to a question that was asked since
  the source has changed last is the current version (`observed_current`).
-/
import Mathlib.Data.List.Basic
import UnleashSdk.Lib.Machine

set_option linter.unusedVariables false

namespace Replica

/-- The current version, the one that was current when the open question was asked, and the
    versions observed so far. -/
structure State where
  current : Nat := 0
  asked : Option Nat := none
  observed : List Nat := []

inductive Act where
  | publish
  | ask
  | observe (n : Nat)
  | forget
  deriving DecidableEq

def step (s : State) : Act → Option State
  | .publish => some { s with current := s.current + 1 }
  | .ask =>
    match s.asked with
    | none => some { s with asked := some s.current }
    | some _ => none
  | .observe n =>
    match s.asked with
    | some m =>
      if m ≤ n ∧ n ≤ s.current then
        some { s with asked := none, observed := s.observed ++ [n] }
      else none
    | none => none
  | .forget =>
    match s.asked with
    | some _ => some { s with asked := none }
    | none => none

/-- Observed versions are in order, none is newer than the open question or the source. -/
structure Inv (s : State) : Prop where
  sorted : s.observed.Pairwise (· ≤ ·)
  asked : ∀ m, s.asked = some m → m ≤ s.current ∧ ∀ n ∈ s.observed, n ≤ m
  current : ∀ n ∈ s.observed, n ≤ s.current

theorem inv_initial : Inv {} :=
  ⟨List.Pairwise.nil, fun m hm => (by cases hm), fun n hn => (by cases hn)⟩

theorem inv_step {s t : State} {a : Act} (h : Inv s) (hstep : step s a = some t) : Inv t := by
  cases a with
  | publish =>
    cases hstep
    refine ⟨h.sorted, fun m hm => ?_, fun n hn => Nat.le_succ_of_le (h.current n hn)⟩
    obtain ⟨hle, hobs⟩ := h.asked m hm
    exact ⟨Nat.le_succ_of_le hle, hobs⟩
  | ask =>
    simp only [step] at hstep
    split at hstep <;> cases hstep
    refine ⟨h.sorted, fun m hm => ?_, h.current⟩
    cases hm
    exact ⟨Nat.le_refl _, h.current⟩
  | observe n =>
    simp only [step] at hstep
    split at hstep
    · rename_i m hm
      split at hstep <;> cases hstep
      rename_i hn
      obtain ⟨-, hobs⟩ := h.asked m hm
      -- everything observed before is no newer than the question
      refine ⟨?_, fun k hk => (by cases hk), fun k hk => ?_⟩
      · rw [List.pairwise_append]
        refine ⟨h.sorted, List.pairwise_singleton _ _, fun k hk l hl => ?_⟩
        rw [List.mem_singleton.mp hl]
        exact Nat.le_trans (hobs k hk) hn.1
      · rcases List.mem_append.mp hk with hk | hk
        · exact h.current k hk
        · rw [List.mem_singleton.mp hk]
          exact hn.2
    · cases hstep
  | forget =>
    simp only [step] at hstep
    split at hstep <;> cases hstep
    exact ⟨h.sorted, fun m hm => (by cases hm), h.current⟩

/-- **Observations never go back.** -/
theorem observed_sorted {as : List Act} {s : State} (hrun : Machine.run step {} as = some s) :
    s.observed.Pairwise (· ≤ ·) ∧ ∀ n ∈ s.observed, n ≤ s.current := by
  have h : Inv s := Machine.run_inv (fun _ _ _ hu hv => inv_step hu hv) inv_initial hrun
  exact ⟨h.sorted, h.current⟩

/-- Since a moment without an open question nothing was published: what has been observed since
    then, and what will be, is current. -/
structure Quiet (s₀ s : State) : Prop where
  current : s.current = s₀.current
  asked : ∀ m, s.asked = some m → m = s.current
  observed : ∃ new, s.observed = s₀.observed ++ new ∧ ∀ n ∈ new, n = s.current

/-- **Observations are fresh.**  Whoever asks after the last publication observes the current
    version. -/
theorem observed_current {s₀ s : State} {as : List Act} (hidle : s₀.asked = none)
    (hquiet : .publish ∉ as) (hrun : Machine.run step s₀ as = some s) : Quiet s₀ s := by
  have h0 : Quiet s₀ s₀ :=
    ⟨rfl, fun m hm => (by rw [hidle] at hm; cases hm), [], by simp, fun n hn => (by cases hn)⟩
  refine Machine.run_history (I := fun s as => .publish ∉ as → Quiet s₀ s) (fun _ => h0) ?_
    hrun hquiet
  intro as u a v _ ih hv hnot
  have hu : Quiet s₀ u := ih fun hmem => hnot (List.mem_append_left _ hmem)
  cases a with
  | publish => exact absurd (List.mem_append_right _ (List.mem_singleton.mpr rfl)) hnot
  | ask =>
    simp only [step] at hv
    split at hv <;> cases hv
    exact ⟨hu.current, fun m hm => (by cases hm; rfl), hu.observed⟩
  | observe n =>
    simp only [step] at hv
    split at hv
    · rename_i m hm
      split at hv <;> cases hv
      rename_i hn
      have hm : m = u.current := hu.asked m hm
      obtain ⟨new, hnew, hcur⟩ := hu.observed
      refine ⟨hu.current, fun k hk => (by cases hk), new ++ [n], ?_, fun k hk => ?_⟩
      · show u.observed ++ [n] = _
        rw [hnew, List.append_assoc]
      · rcases List.mem_append.mp hk with hk | hk
        · exact hcur k hk
        · rw [List.mem_singleton.mp hk]
          show n = u.current
          omega
    · cases hv
  | forget =>
    simp only [step] at hv
    split at hv <;> cases hv
    exact ⟨hu.current, fun m hm => (by cases hm), hu.observed⟩

end Replica
