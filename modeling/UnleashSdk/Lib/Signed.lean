/-
  SIGNED 64-BIT ARITHMETIC THAT NOTICES OVERFLOW.

  An operation on signed 64-bit integers has the mathematical result where that fits into the
  type, and no defined result elsewhere.  `checked n` is the outcome of an operation whose
  mathematical result is `n`: that number, or `none`.  Where the outcome is a number, the
  wrapping operations of `Int64` give the same.
-/
import Mathlib.Algebra.Order.Ring.Int

set_option linter.unusedVariables false

namespace Signed

/-- `n` is a value of the type. -/
def Fits (n : Int) : Prop := -2 ^ 63 ≤ n ∧ n < 2 ^ 63

instance (n : Int) : Decidable (Fits n) := inferInstanceAs (Decidable (_ ∧ _))

/-- The outcome of an operation whose mathematical result is `n`. -/
def checked (n : Int) : Option Int64 := if Fits n then some (Int64.ofInt n) else none

theorem neg_iff (a : Int64) : a < 0 ↔ a.toInt < 0 := by
  rw [Int64.lt_iff_toInt_lt, Int64.toInt_zero]

theorem pos_iff (a : Int64) : 0 < a ↔ 0 < a.toInt := by
  rw [Int64.lt_iff_toInt_lt, Int64.toInt_zero]

theorem toInt_fits (a : Int64) : Fits a.toInt := ⟨a.le_toInt, a.toInt_lt⟩

theorem checked_of_fits {n : Int} (h : Fits n) : ∃ a, checked n = some a ∧ a.toInt = n :=
  ⟨Int64.ofInt n, if_pos h, Int64.toInt_ofInt_of_le h.1 h.2⟩

theorem checked_eq_none_iff {n : Int} : checked n = none ↔ ¬ Fits n := by
  unfold checked
  split
  · rename_i h
    exact iff_of_false (Option.some_ne_none _) (not_not_intro h)
  · rename_i h
    exact iff_of_true rfl h

theorem toInt_of_checked {n : Int} {a : Int64} (h : checked n = some a) : a.toInt = n := by
  by_cases hfits : Fits n
  · obtain ⟨b, hb, hn⟩ := checked_of_fits hfits
    rw [h] at hb
    rw [Option.some.inj hb, hn]
  · rw [checked_eq_none_iff.mpr hfits] at h
    nomatch h

theorem fits_of_checked {n : Int} {a : Int64} (h : checked n = some a) : Fits n :=
  toInt_of_checked h ▸ toInt_fits a

/-- A number that fits is what it wraps to. -/
theorem bmod_of_fits {n : Int} (h : Fits n) : n.bmod (2 ^ 64) = n :=
  Int.bmod_eq_of_le h.1 h.2

theorem add_of_checked {a b c : Int64} (h : checked (a.toInt + b.toInt) = some c) :
    a + b = c := by
  rw [← Int64.toInt_inj, Int64.toInt_add, bmod_of_fits (fits_of_checked h), toInt_of_checked h]

theorem sub_of_checked {a b c : Int64} (h : checked (a.toInt - b.toInt) = some c) :
    a - b = c := by
  rw [← Int64.toInt_inj, Int64.toInt_sub, bmod_of_fits (fits_of_checked h), toInt_of_checked h]

theorem div_of_checked {a b c : Int64} (h : checked (a.toInt.tdiv b.toInt) = some c) :
    a / b = c := by
  rw [← Int64.toInt_inj, Int64.toInt_div, bmod_of_fits (fits_of_checked h), toInt_of_checked h]

theorem mod_of_checked {a b c : Int64} (h : checked (a.toInt.tmod b.toInt) = some c) :
    a % b = c := by
  rw [← Int64.toInt_inj, Int64.toInt_mod, toInt_of_checked h]

end Signed
