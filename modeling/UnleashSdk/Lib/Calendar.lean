/-
  THE GREGORIAN CALENDAR.

  A `Date` is a day of the proleptic Gregorian calendar, a `DateTime` a second of such a day in
  UTC; both carry the bounds of their fields.  They are ordered as calendars order them: by the
  year, then the month, and so on.  `Date.number` counts days and `DateTime.instant` counts
  seconds from 1 January 1970, and both keep the order, so no two dates share a number.
-/
import Mathlib.Data.Prod.Lex
import Mathlib.Order.SuccPred.Basic
import Mathlib.Algebra.Order.Ring.Int
import Mathlib.Data.Int.ConditionallyCompleteOrder
import Mathlib.Tactic.IntervalCases

set_option linter.unusedVariables false

namespace Calendar

/-! ## Years and months -/

/-- Every fourth year, the centuries apart unless 400 divides them. -/
def isLeap (year : Int) : Bool := year % 4 = 0 && (year % 100 ≠ 0 || year % 400 = 0)

def daysInMonth (year : Int) (month : Nat) : Nat :=
  if month = 2 then (if isLeap year then 29 else 28)
  else if month = 4 ∨ month = 6 ∨ month = 9 ∨ month = 11 then 30 else 31

/-- The days of the first `k` months of a year. -/
def daysInMonths (year : Int) : Nat → Nat
  | 0 => 0
  | k + 1 => daysInMonths year k + daysInMonth year (k + 1)

/-- The number of the first day of a year. -/
def yearStart (year : Int) : Int :=
  365 * (year - 1) + (year - 1) / 4 - (year - 1) / 100 + (year - 1) / 400 - 719162

theorem isLeap_iff (year : Int) :
    isLeap year = true ↔ year % 4 = 0 ∧ (year % 100 ≠ 0 ∨ year % 400 = 0) := by
  simp only [isLeap, Bool.and_eq_true, Bool.or_eq_true, decide_eq_true_eq]

theorem daysInMonths_year (year : Int) :
    daysInMonths year 12 = if isLeap year then 366 else 365 := by
  cases h : isLeap year with
  | true => simp [daysInMonths, daysInMonth, h]
  | false => simp [daysInMonths, daysInMonth, h]

/-- A year is as long as its months. -/
theorem yearStart_succ (year : Int) :
    yearStart (year + 1) = yearStart year + daysInMonths year 12 := by
  rw [daysInMonths_year]
  have hleap := isLeap_iff year
  unfold yearStart
  split
  · rename_i h
    have h := hleap.mp h
    omega
  · rename_i h
    have h := mt hleap.mpr h
    omega

theorem daysInMonth_pos (year : Int) (month : Nat) : 0 < daysInMonth year month := by
  unfold daysInMonth
  repeat' split
  all_goals omega

theorem daysInMonths_strictMono (year : Int) : StrictMono (daysInMonths year) :=
  strictMono_nat_of_lt_succ fun k => Nat.lt_add_of_pos_right (daysInMonth_pos year (k + 1))

theorem yearStart_strictMono : StrictMono yearStart :=
  strictMono_int_of_lt_succ fun year => by
    have hsucc := yearStart_succ year
    have hpos : daysInMonths year 0 < daysInMonths year 12 :=
      daysInMonths_strictMono year (by decide)
    have hzero : daysInMonths year 0 = 0 := rfl
    omega

/-! ## Years from March

A year that is counted from 1 March has its leap day at the end. -/

/-- From March on, the lengths of the months repeat after five. -/
theorem daysInMonth_march (year : Int) {k : Nat} (h : k ≤ 9) :
    daysInMonth year (k + 3) + (153 * k + 2) / 5 = (153 * (k + 1) + 2) / 5 := by
  interval_cases k <;> rfl

theorem daysInMonths_march (year : Int) {k : Nat} (h : k ≤ 10) :
    daysInMonths year (k + 2) = 31 + daysInMonth year 2 + (153 * k + 2) / 5 := by
  induction k with
  | zero => rfl
  | succ k ih =>
    have hstep : daysInMonths year (k + 1 + 2) =
        daysInMonths year (k + 2) + daysInMonth year (k + 3) := rfl
    have hmonth := daysInMonth_march year (show k ≤ 9 by omega)
    rw [hstep, ih (by omega)]
    omega

/-- The number of 1 March, from the leap days up to then. -/
theorem yearStart_march (year : Int) :
    yearStart year + (31 + daysInMonth year 2) =
      365 * year + year / 4 - year / 100 + year / 400 - 719468 := by
  have hsucc := yearStart_succ year
  rw [daysInMonths_march year (Nat.le_refl 10)] at hsucc
  unfold yearStart at hsucc ⊢
  rw [Int.add_sub_cancel] at hsucc
  omega

theorem daysInMonth_february (year : Int) :
    28 ≤ daysInMonth year 2 ∧ (isLeap year = true → daysInMonth year 2 = 29) := by
  constructor
  · show 28 ≤ if isLeap year then 29 else 28
    split <;> omega
  · intro h
    show (if isLeap year then 29 else 28) = 29
    rw [if_pos h]

/-! ## Dates -/

structure Date where
  year : Int
  month : Nat
  day : Nat
  month_pos : 1 ≤ month
  month_le : month ≤ 12
  day_pos : 1 ≤ day
  day_le : day ≤ daysInMonth year month

namespace Date

@[ext] theorem ext {d e : Date} (hy : d.year = e.year) (hm : d.month = e.month)
    (hd : d.day = e.day) : d = e := by
  cases d; cases e
  simp only at hy hm hd
  subst hy hm hd
  rfl

instance : LinearOrder Date :=
  LinearOrder.lift' (fun d => toLex (d.year, toLex (d.month, d.day))) fun d e h => by
    have h : (d.year, d.month, d.day) = (e.year, e.month, e.day) := h
    simp only [Prod.mk.injEq] at h
    exact ext h.1 h.2.1 h.2.2

theorem lt_iff {d e : Date} :
    d < e ↔ d.year < e.year ∨ d.year = e.year ∧
      (d.month < e.month ∨ d.month = e.month ∧ d.day < e.day) := by
  show toLex (d.year, toLex (d.month, d.day)) < toLex (e.year, toLex (e.month, e.day)) ↔ _
  rw [Prod.Lex.toLex_lt_toLex, Prod.Lex.toLex_lt_toLex]

/-- The number of a day, counted from 1 January 1970. -/
def number (d : Date) : Int := yearStart d.year + daysInMonths d.year (d.month - 1) + (d.day - 1)

/-- A day lies within its month. -/
theorem day_lt (d : Date) :
    daysInMonths d.year (d.month - 1) + (d.day - 1) < daysInMonths d.year d.month := by
  have hmonth : d.month = d.month - 1 + 1 := by have := d.month_pos; omega
  have hstep : daysInMonths d.year d.month =
      daysInMonths d.year (d.month - 1) + daysInMonth d.year d.month := by
    rw [hmonth]; rfl
  have := d.day_pos
  have := d.day_le
  omega

theorem yearStart_le_number (d : Date) : yearStart d.year ≤ d.number := by
  have := d.day_pos
  unfold number
  omega

/-- A day lies within its year. -/
theorem number_lt_yearStart (d : Date) : d.number < yearStart (d.year + 1) := by
  have hday := d.day_lt
  have hmonth := (daysInMonths_strictMono d.year).monotone d.month_le
  have := d.day_pos
  rw [yearStart_succ]
  unfold number
  omega

/-- Later days have greater numbers. -/
theorem number_strictMono : StrictMono number := by
  intro d e h
  rcases lt_iff.mp h with hyear | ⟨hyear, hmonth | ⟨hmonth, hday⟩⟩
  · calc d.number < yearStart (d.year + 1) := d.number_lt_yearStart
      _ ≤ yearStart e.year := yearStart_strictMono.monotone hyear
      _ ≤ e.number := e.yearStart_le_number
  · have hd := d.day_lt
    have hle : daysInMonths e.year d.month ≤ daysInMonths e.year (e.month - 1) :=
      (daysInMonths_strictMono e.year).monotone (by omega)
    rw [hyear] at hd
    have := d.day_pos
    have := e.day_pos
    unfold number
    rw [hyear]
    omega
  · unfold number
    rw [hyear, hmonth]
    omega

/-- The years between two that a day's number lies between. -/
theorem year_bounds {d : Date} {lo hi : Int} (h : yearStart lo ≤ d.number)
    (h' : d.number < yearStart hi) : lo ≤ d.year ∧ d.year < hi := by
  have hlo := yearStart_strictMono.lt_iff_lt.mp (lt_of_le_of_lt h d.number_lt_yearStart)
  have hhi := yearStart_strictMono.lt_iff_lt.mp (lt_of_le_of_lt d.yearStart_le_number h')
  omega

/-- The day with these fields, if there is one. -/
def ofFields? (year : Int) (month day : Nat) : Option Date :=
  if h : 1 ≤ month ∧ month ≤ 12 ∧ 1 ≤ day ∧ day ≤ daysInMonth year month then
    some ⟨year, month, day, h.1, h.2.1, h.2.2.1, h.2.2.2⟩
  else none

@[simp] theorem ofFields?_fields (d : Date) : ofFields? d.year d.month d.day = some d :=
  dif_pos ⟨d.month_pos, d.month_le, d.day_pos, d.day_le⟩

theorem month_lt (d : Date) : d.month < 100 := by
  have := d.month_le
  omega

theorem day_lt_hundred (d : Date) : d.day < 100 := by
  have hle := d.day_le
  have hmonth : daysInMonth d.year d.month ≤ 31 := by
    unfold daysInMonth
    repeat' split
    all_goals omega
  omega

end Date

/-! ## Times of day -/

structure DateTime where
  date : Date
  hour : Nat
  minute : Nat
  second : Nat
  hour_lt : hour < 24
  minute_lt : minute < 60
  second_lt : second < 60

namespace DateTime

@[ext] theorem ext {a b : DateTime} (hd : a.date = b.date) (hh : a.hour = b.hour)
    (hm : a.minute = b.minute) (hs : a.second = b.second) : a = b := by
  cases a; cases b
  simp only at hd hh hm hs
  subst hd hh hm hs
  rfl

instance : LinearOrder DateTime :=
  LinearOrder.lift' (fun a => toLex (a.date, toLex (a.hour, toLex (a.minute, a.second))))
    fun a b h => by
      have h : (a.date, a.hour, a.minute, a.second) = (b.date, b.hour, b.minute, b.second) := h
      simp only [Prod.mk.injEq] at h
      exact ext h.1 h.2.1 h.2.2.1 h.2.2.2

theorem lt_iff {a b : DateTime} :
    a < b ↔ a.date < b.date ∨ a.date = b.date ∧ (a.hour < b.hour ∨ a.hour = b.hour ∧
      (a.minute < b.minute ∨ a.minute = b.minute ∧ a.second < b.second)) := by
  show toLex (a.date, toLex (a.hour, toLex (a.minute, a.second))) <
    toLex (b.date, toLex (b.hour, toLex (b.minute, b.second))) ↔ _
  rw [Prod.Lex.toLex_lt_toLex, Prod.Lex.toLex_lt_toLex, Prod.Lex.toLex_lt_toLex]

/-- The seconds since the epoch. -/
def instant (a : DateTime) : Int :=
  a.date.number * 86400 + a.hour * 3600 + a.minute * 60 + a.second

/-- Later times have greater instants. -/
theorem instant_strictMono : StrictMono instant := by
  intro a b h
  have := a.hour_lt
  have := a.minute_lt
  have := a.second_lt
  unfold instant
  rcases lt_iff.mp h with hdate | ⟨hdate, htime⟩
  · have hnumber := Date.number_strictMono hdate
    omega
  · rw [hdate]
    omega

/-- The time with these fields, if there is one. -/
def ofFields? (date : Date) (hour minute second : Nat) : Option DateTime :=
  if h : hour < 24 ∧ minute < 60 ∧ second < 60 then
    some ⟨date, hour, minute, second, h.1, h.2.1, h.2.2⟩
  else none

@[simp] theorem ofFields?_fields (a : DateTime) :
    ofFields? a.date a.hour a.minute a.second = some a :=
  dif_pos ⟨a.hour_lt, a.minute_lt, a.second_lt⟩

/-- The years between two that an instant lies between. -/
theorem year_bounds {a : DateTime} {lo hi : Int} (h : yearStart lo * 86400 ≤ a.instant)
    (h' : a.instant < yearStart hi * 86400) : lo ≤ a.date.year ∧ a.date.year < hi := by
  have := a.hour_lt
  have := a.minute_lt
  have := a.second_lt
  unfold instant at h h'
  exact Date.year_bounds (by omega) (by omega)

end DateTime

end Calendar
