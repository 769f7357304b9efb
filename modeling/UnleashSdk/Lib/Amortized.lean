/-
  AMORTIZED BOUNDS on the runs of a machine.

  Some steps spend, some steps bring an income, and a state holds a balance.  If no step spends
  more than it takes from the balance and its own income,

      spend s a + balance t  ≤  balance s + income s a        for every step from s to t,

  then a run spends no more than the balance it starts with and all the income on the way.  The
  rule takes an invariant, under which the inequality has to be shown.

  A balance may be kept in several accounts, one of which pays (`pay_from`).
-/
import Mathlib.Algebra.Order.BigOperators.Group.Finset
import UnleashSdk.Lib.Machine

set_option linter.unusedVariables false

namespace Machine

variable {σ α : Type} {step : σ → α → Option σ}

/-- What the steps of a run add up to. -/
def total (step : σ → α → Option σ) (f : σ → α → Nat) : σ → List α → Nat
  | _, [] => 0
  | s, a :: as =>
    f s a +
      match step s a with
      | some t => total step f t as
      | none => 0

/-- **Amortized bound.** -/
theorem total_le {spend income : σ → α → Nat} (balance : σ → Nat) (I : σ → Prop)
    (hkeep : ∀ s a t, I s → step s a = some t → I t)
    (hpay : ∀ s a t, I s → step s a = some t → spend s a + balance t ≤ balance s + income s a)
    {s t : σ} {as : List α} (hs : I s) (hrun : run step s as = some t) :
    total step spend s as + balance t ≤ balance s + total step income s as := by
  induction as generalizing s with
  | nil =>
    obtain rfl : s = t := Option.some.inj hrun
    simp [total]
  | cons a as ih =>
    obtain ⟨u, hu, hrest⟩ := run_cons_some hrun
    have hfirst := hpay s a u hs hu
    have hothers := ih (hkeep s a u hs hu) hrest
    simp only [total, hu]
    omega

theorem total_zero (s : σ) (as : List α) : total step (fun _ _ => 0) s as = 0 := by
  induction as generalizing s with
  | nil => rfl
  | cons a as ih =>
    unfold total
    split
    · rw [ih]
    · rfl

/-- Without an income a run spends no more than the balance. -/
theorem total_le_balance {spend : σ → α → Nat} (balance : σ → Nat) (I : σ → Prop)
    (hkeep : ∀ s a t, I s → step s a = some t → I t)
    (hpay : ∀ s a t, I s → step s a = some t → spend s a + balance t ≤ balance s)
    {s t : σ} {as : List α} (hs : I s) (hrun : run step s as = some t) :
    total step spend s as ≤ balance s := by
  have hbound : total step spend s as + balance t ≤ balance s + total step (fun _ _ => 0) s as :=
    total_le balance I hkeep hpay hs hrun
  rw [total_zero] at hbound
  omega

/-- One account pays, and no other one grows. -/
theorem pay_from {ι : Type} [Fintype ι] [DecidableEq ι] {before after : ι → Nat} {i : ι} {n : Nat}
    (hi : after i + n ≤ before i) (hothers : ∀ j, j ≠ i → after j ≤ before j) :
    ∑ j, after j + n ≤ ∑ j, before j := by
  rw [← Finset.add_sum_erase _ after (Finset.mem_univ i),
    ← Finset.add_sum_erase _ before (Finset.mem_univ i), Nat.add_right_comm]
  exact Nat.add_le_add hi
    (Finset.sum_le_sum fun j hj => hothers j (Finset.ne_of_mem_erase hj))

end Machine
