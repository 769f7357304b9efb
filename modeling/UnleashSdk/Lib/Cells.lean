/-
  CELLS: a store of independent places.

  Every action writes one place, by what was there before.  So what is in a place depends on the
  actions at that place alone, in their order, whatever goes on elsewhere in between
  (`run_at`); and a place that nobody writes stays as it was (`written_of_ne`).
-/
import Mathlib.Logic.Function.Basic
import UnleashSdk.Lib.Machine

set_option linter.unusedVariables false

namespace Cells

variable {κ ν α : Type} [DecidableEq κ] (place : α → κ) (write : α → ν → ν)
  (allowed : α → Bool)

/-- An action writes its place, if it can be taken at all. -/
def step (s : κ → ν) (a : α) : Option (κ → ν) :=
  if allowed a then some (Function.update s (place a) (write a (s (place a)))) else none

/-- The actions at a place. -/
def at_ (k : κ) (as : List α) : List α := as.filter fun a => decide (place a = k)

variable {place write allowed}

/-- **One place.**  It is written by the actions at it, one after the other. -/
theorem run_at {s t : κ → ν} {as : List α}
    (hrun : Machine.run (step place write allowed) s as = some t) (k : κ) :
    t k = (at_ place k as).foldl (fun v a => write a v) (s k) := by
  refine Machine.run_history (I := fun t as => t k =
    (at_ place k as).foldl (fun v a => write a v) (s k)) rfl ?_ hrun
  intro as u a v hu ih hstep
  unfold step at hstep
  split at hstep
  · cases hstep
    rw [at_, List.filter_append, List.foldl_append]
    by_cases hk : place a = k
    · subst hk
      rw [Function.update_self, List.filter_cons_of_pos (by simp), ih]
      rfl
    · rw [Function.update_of_ne (Ne.symm hk), List.filter_cons_of_neg (by simpa using hk), ih]
      rfl
  · cases hstep

/-- A place where something has changed was written. -/
theorem written_of_ne {s t : κ → ν} {as : List α}
    (hrun : Machine.run (step place write allowed) s as = some t) {k : κ} (h : t k ≠ s k) :
    ∃ a ∈ as, place a = k := by
  by_contra hnone
  refine h ((run_at hrun k).trans ?_)
  have hempty : at_ place k as = [] :=
    List.filter_eq_nil_iff.mpr fun a ha hk => hnone ⟨a, ha, of_decide_eq_true hk⟩
  rw [hempty]
  rfl

end Cells
