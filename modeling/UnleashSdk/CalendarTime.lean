/-
  `gmtime` AND `putTime`, against the calendar.

  `gmtime` counts years from 1 March, so that a leap day is the last day of its year and the
  months before it follow one formula.  The year comes out of a 400-year era by correcting for
  the leap days first; `yearOfEra_spec` says that the correction is right, `date_of_march` turns
  a year and a day counted from March into a date, and `gmtime_shows` joins them: the fields of
  `gmtime t` are those of the calendar time at the instant `t`.  `putTime` then prints that time.
-/
import UnleashSdk.Lib.Iso8601
import UnleashSdk.Timestamps

set_option linter.unusedVariables false

namespace Unleash

open Calendar (Date DateTime isLeap isLeap_iff daysInMonth daysInMonths yearStart daysInMonth_march
  daysInMonths_march yearStart_march daysInMonth_february)

/-- The broken-down time `tm` has the fields of `a`. -/
structure Tm.Shows (tm : Tm) (a : DateTime) : Prop where
  year : tm.year + 1900 = a.date.year
  mon : tm.mon + 1 = a.date.month
  mday : tm.mday = a.date.day
  hour : tm.hour = a.hour
  min : tm.min = a.minute
  sec : tm.sec = a.second

/-! ## Years of an era -/

/-- The year `y` of an era, counted from March, that has the day `e`: `y` starts no later and
the next year starts after it. -/
theorem yearOfEra_spec {e y : Int} (h0 : 0 ≤ e) (h1 : e < 146097)
    (hy : y = (e - e / 1460 + e / 36524 - e / 146096) / 365) :
    0 ≤ y ∧ y < 400 ∧ 365 * y + y / 4 - y / 100 ≤ e ∧
      e < 365 * (y + 1) + (y + 1) / 4 - (y + 1) / 100 + (y + 1) / 400 := by
  obtain ⟨q, hq⟩ : ∃ q, q = e / 1460 := ⟨_, rfl⟩
  obtain ⟨c, hc⟩ : ∃ c, c = e / 36524 := ⟨_, rfl⟩
  obtain ⟨l, hl⟩ : ∃ l, l = e / 146096 := ⟨_, rfl⟩
  rw [← hq, ← hc, ← hl] at hy
  -- the last day of the era counts to a fifth century
  have hlast : l = 0 ∧ c ≤ 3 ∨ l = 1 ∧ c = 4 := by omega
  have hfour : 4 * q - 1 ≤ y ∧ y ≤ 4 * q + 3 := by omega
  have hcentury : 100 * c ≤ y + l ∧ y + l ≤ 100 * c + 99 := by
    rcases (show c = 0 ∨ c = 1 ∨ c = 2 ∨ c = 3 ∨ c = 4 by omega) with rfl | rfl | rfl | rfl | rfl
    all_goals omega
  have hyear : 365 * y ≤ e - q + c - l ∧ e - q + c - l < 365 * y + 365 := by omega
  have hend : e < 36524 * (c - l + 1) + l := by omega
  clear hq hc hl hy
  have hquarter : y / 4 ≤ q ∧ q ≤ (y + 1) / 4 := by omega
  have hhundred : y / 100 = c - l := by omega
  refine ⟨by omega, by omega, by omega, ?_⟩
  -- the last year of a century ends with the century
  rcases (show y + 1 = 100 * (c - l + 1) ∨ (y + 1) / 100 = c - l by omega) with hfull | hpart
  · rw [hfull]
    omega
  · omega

/-! ## Dates of a year counted from March -/

/-- The date on day `n` of a year counted from March, as `gmtime` computes its fields. -/
theorem date_of_march {year n k : Int} (h0 : 0 ≤ n) (h1 : n ≤ 365)
    (hleap : n = 365 → isLeap (year + 1) = true) (hk : k = (5 * n + 2) / 153) :
    ∃ d : Date, d.month = (if k < 10 then k + 3 else k - 9) ∧
      d.year = year + (if (if k < 10 then k + 3 else k - 9) ≤ 2 then 1 else 0) ∧
      d.day = n - (153 * k + 2) / 5 + 1 ∧
      d.number = 365 * year + year / 4 - year / 100 + year / 400 - 719468 + n := by
  by_cases hlate : k < 10
  · -- March to December
    obtain ⟨m, rfl⟩ : ∃ m : Nat, k = m := ⟨k.toNat, by omega⟩
    obtain ⟨day, hday⟩ : ∃ day : Nat, n - (153 * m + 2) / 5 + 1 = day :=
      ⟨(n - (153 * m + 2) / 5 + 1).toNat, by omega⟩
    have hle : day ≤ daysInMonth year (m + 3) := by
      have hlen := daysInMonth_march year (show m ≤ 9 by omega)
      have hcast : (153 * (m : Int) + 2) / 5 = ((153 * m + 2) / 5 : Nat) := rfl
      rw [hcast] at hday
      omega
    have hbefore := daysInMonths_march year (show m ≤ 10 by omega)
    have hstart := yearStart_march year
    refine ⟨⟨year, m + 3, day, by omega, by omega, by omega, hle⟩, ?_, ?_, hday.symm, ?_⟩
    · rw [if_pos hlate]; rfl
    · rw [if_pos hlate, if_neg (by omega)]
      exact (Int.add_zero year).symm
    · show yearStart year + daysInMonths year (m + 2) + (day - 1) = _
      rw [hbefore]
      omega
  · -- January and February, of the next year
    have hfeb := daysInMonth_february (year + 1)
    have hstart : yearStart (year + 1) =
        365 * year + year / 4 - year / 100 + year / 400 - 719162 := by
      unfold yearStart
      rw [Int.add_sub_cancel]
    rcases (show k = 10 ∨ k = 11 by omega) with rfl | rfl
    · obtain ⟨day, hday⟩ : ∃ day : Nat, n - 305 = day := ⟨(n - 305).toNat, by omega⟩
      have hlen : daysInMonth (year + 1) 1 = 31 := rfl
      refine ⟨⟨year + 1, 1, day, by omega, by omega, by omega, by omega⟩, rfl, rfl, ?_, ?_⟩
      · show (day : Int) = n - (153 * 10 + 2) / 5 + 1
        omega
      · show yearStart (year + 1) + ((0 : Nat) : Int) + (day - 1) = _
        omega
    · obtain ⟨day, hday⟩ : ∃ day : Nat, n - 336 = day := ⟨(n - 336).toNat, by omega⟩
      have hlen : day ≤ daysInMonth (year + 1) 2 := by
        rcases (show n < 365 ∨ n = 365 by omega) with hn | hn
        · omega
        · rw [hfeb.2 (hleap hn)]; omega
      refine ⟨⟨year + 1, 2, day, by omega, by omega, by omega, hlen⟩, rfl, rfl, ?_, ?_⟩
      · show (day : Int) = n - (153 * 11 + 2) / 5 + 1
        omega
      · show yearStart (year + 1) + ((31 : Nat) : Int) + (day - 1) = _
        omega

/-- The year after day 365, counted from March, is a leap year, in whichever era. -/
theorem leap_of_day {e y n : Int} (era : Int) (h0 : 0 ≤ y) (h400 : y < 400)
    (hn : n = e - (365 * y + y / 4 - y / 100))
    (hnext : e < 365 * (y + 1) + (y + 1) / 4 - (y + 1) / 100 + (y + 1) / 400) (h : n = 365) :
    isLeap (y + era * 400 + 1) = true := by
  have hstep : 1 ≤ (y + 1) / 4 - y / 4 - ((y + 1) / 100 - y / 100) + (y + 1) / 400 := by omega
  clear hn hnext
  have hfour : (y + 1) % 4 = 0 ∨ (y + 1) / 4 = y / 4 := by omega
  have hera : y + 1 = 400 ∨ (y + 1) / 400 = 0 := by omega
  have hcentury : (y + 1) % 100 ≠ 0 ∨ (y + 1) / 100 = y / 100 + 1 := by omega
  have hmono : y / 100 ≤ (y + 1) / 100 := by omega
  rw [isLeap_iff]
  omega

/-- An era has 97 leap days. -/
theorem leapDays_era (y era : Int) (h0 : 0 ≤ y) (h400 : y < 400) :
    (y + era * 400) / 4 - (y + era * 400) / 100 + (y + era * 400) / 400 =
      y / 4 - y / 100 + era * 97 := by
  have hfour : (y + era * 400) / 4 = y / 4 + era * 100 := by omega
  have hcentury : (y + era * 400) / 100 = y / 100 + era * 4 := by omega
  have hera : (y + era * 400) / 400 = era := by omega
  rw [hfour, hcentury, hera]
  omega

/-! ## The calendar time at an instant -/

/-- `gmtime t` shows the calendar time at `t` seconds after the epoch. -/
theorem gmtime_shows (t : Int) : ∃ a : DateTime, (gmtime t).Shows a ∧ a.instant = t := by
  obtain ⟨e, he⟩ : ∃ e, e = (t / 86400 + 719468) % 146097 := ⟨_, rfl⟩
  obtain ⟨y, hy⟩ : ∃ y, y = (e - e / 1460 + e / 36524 - e / 146096) / 365 := ⟨_, rfl⟩
  obtain ⟨n, hn⟩ : ∃ n, n = e - (365 * y + y / 4 - y / 100) := ⟨_, rfl⟩
  obtain ⟨era, hera⟩ : ∃ era, era = (t / 86400 + 719468) / 146097 := ⟨_, rfl⟩
  obtain ⟨hy0, hy400, hstart, hnext⟩ := yearOfEra_spec (by omega) (by omega) hy
  have hleap := leap_of_day era hy0 hy400 hn hnext
  obtain ⟨d, hmonth, hyear, hday, hnumber⟩ :=
    date_of_march (k := (5 * n + 2) / 153) (show 0 ≤ n by omega) (show n ≤ 365 by omega) hleap rfl
  refine ⟨⟨d, (t % 86400 / 3600).toNat, (t % 86400 / 60 % 60).toNat, (t % 86400 % 60).toNat,
    by omega, by omega, by omega⟩, ?_, ?_⟩
  · have hfields : gmtime t =
        { year := y + era * 400 + (if (if (5 * n + 2) / 153 < 10 then (5 * n + 2) / 153 + 3
            else (5 * n + 2) / 153 - 9) ≤ 2 then 1 else 0) - 1900,
          mon := (if (5 * n + 2) / 153 < 10 then (5 * n + 2) / 153 + 3
            else (5 * n + 2) / 153 - 9) - 1,
          mday := n - (153 * ((5 * n + 2) / 153) + 2) / 5 + 1,
          hour := t % 86400 / 3600, min := t % 86400 / 60 % 60, sec := t % 86400 % 60 } := by
      rw [hn, hy, he, hera]
      rfl
    rw [hfields, ← hday, ← hyear, ← hmonth]
    constructor
    · exact Int.sub_add_cancel _ _
    · exact Int.sub_add_cancel _ _
    · rfl
    · exact (Int.toNat_of_nonneg (show 0 ≤ t % 86400 / 3600 by omega)).symm
    · exact (Int.toNat_of_nonneg (show 0 ≤ t % 86400 / 60 % 60 by omega)).symm
    · exact (Int.toNat_of_nonneg (show 0 ≤ t % 86400 % 60 by omega)).symm
  · -- the days of the earlier eras come back on top of the day of this one
    have hdays : d.number = t / 86400 := by
      have hleaps := leapDays_era y era hy0 hy400
      rw [hnumber]
      omega
    show d.number * 86400 + ((t % 86400 / 3600).toNat : Int) * 3600 +
      ((t % 86400 / 60 % 60).toNat : Int) * 60 + ((t % 86400 % 60).toNat : Int) = t
    rw [hdays]
    clear * -
    omega

/-! ## Its text -/

theorem padded_two {n : Nat} (h : n < 100) : padded 2 n = Decimal.fixedDigits 2 n :=
  Decimal.replicate_natDigits 2 n (by decide) h

/-- The printed text of a time: its year, and then the fields behind the year. -/
theorem putTime_shows {tm : Tm} {a : DateTime} (h : tm.Shows a) (rest : Bytes) :
    putTime tm ++ rest = Decimal.printInt a.date.year ++ Iso8601.textThen a rest := by
  rw [putTime, h.year, h.mon, h.mday, h.hour, h.min, h.sec, padded_two a.date.month_lt,
    padded_two a.date.day_lt_hundred, padded_two (lt_trans a.hour_lt (by decide)),
    padded_two (lt_trans a.minute_lt (by decide)), padded_two (lt_trans a.second_lt (by decide))]
  simp only [List.append_assoc]
  rfl

end Unleash
