/-
  UTC TIMESTAMPS ARE EXACT AND KEEP THE ORDER.

  1. The split.  `splitMs` makes the operations of `fromMsTsToUtcTime` one by one and notices
     overflow.  None occurs, at the ends of the range and below zero either, and what comes out
     are the seconds and milliseconds of the input: `splitMs_spec`.
  2. The text.  The seconds are a calendar time (`gmtime_shows`), so in the years of four digits
     the function prints that time as ISO 8601 does: `fromMsTsToUtcTime_text`.
  3. Reading and comparing the text are facts about such texts, whoever prints them.
-/
import UnleashSdk.CalendarTime
import UnleashSdk.Lib.Signed

set_option linter.unusedVariables false

namespace Unleash

open Calendar (DateTime yearStart)
open Signed (Fits checked checked_of_fits toInt_of_checked toInt_fits)

/-! ## The split -/

/-- Seconds and milliseconds of a timestamp as `fromMsTsToUtcTime` computes them, or `none` if
one of the operations overflows. -/
def splitMs (msTimeStamp : Int64) : Option (Int64 × Int64) := do
  let sec ← checked (msTimeStamp.toInt.tdiv 1000)
  let ms ← checked (msTimeStamp.toInt.tmod 1000)
  if ms < 0 then
    let ms ← checked (ms.toInt + 1000)
    let sec ← checked (sec.toInt - 1)
    return (sec, ms)
  else
    return (sec, ms)

/-- Truncating division rounds towards zero, and the remainder has the sign of the dividend. -/
theorem truncate_spec (n : Int) :
    n.tdiv 1000 * 1000 + n.tmod 1000 = n ∧ -1000 < n.tmod 1000 ∧ n.tmod 1000 < 1000 ∧
      (n.tmod 1000 < 0 → n < 0) := by
  have hdiv := Int.mul_tdiv_add_tmod n 1000
  have hlo := Int.lt_tmod_of_pos n (show (0 : Int) < 1000 by decide)
  have hhi := Int.tmod_lt_of_pos n (show (0 : Int) < 1000 by decide)
  refine ⟨by omega, hlo, hhi, fun hneg => ?_⟩
  by_cases h : 0 ≤ n
  · have := Int.tmod_nonneg 1000 h
    omega
  · omega

/-- No operation of the split overflows, and it loses nothing. -/
theorem splitMs_spec (msTimeStamp : Int64) :
    ∃ sec ms, splitMs msTimeStamp = some (sec, ms) ∧ 0 ≤ ms.toInt ∧ ms.toInt ≤ 999 ∧
      sec.toInt * 1000 + ms.toInt = msTimeStamp.toInt := by
  obtain ⟨hsplit, hlo, hhi, hsign⟩ := truncate_spec msTimeStamp.toInt
  have hfits := toInt_fits msTimeStamp
  unfold Fits at hfits
  obtain ⟨sec, hsec, hsecInt⟩ := checked_of_fits
    (show Fits (msTimeStamp.toInt.tdiv 1000) by unfold Fits; omega)
  obtain ⟨ms, hms, hmsInt⟩ := checked_of_fits
    (show Fits (msTimeStamp.toInt.tmod 1000) by unfold Fits; omega)
  unfold splitMs
  simp only [hsec, hms, Option.bind_eq_bind, Option.bind_some]
  by_cases hneg : ms < 0
  · -- the borrow: a negative remainder comes from a negative input
    have hneg' : ms.toInt < 0 := (Signed.neg_iff ms).mp hneg
    obtain ⟨ms', hms', hmsInt'⟩ := checked_of_fits
      (show Fits (ms.toInt + 1000) by unfold Fits; omega)
    obtain ⟨sec', hsec', hsecInt'⟩ := checked_of_fits
      (show Fits (sec.toInt - 1) by unfold Fits; omega)
    rw [if_pos hneg, hms', Option.bind_some, hsec', Option.bind_some]
    exact ⟨sec', ms', rfl, by omega, by omega, by omega⟩
  · have hpos : ¬ ms.toInt < 0 := mt (Signed.neg_iff ms).mpr hneg
    rw [if_neg hneg]
    exact ⟨sec, ms, rfl, by omega, by omega, by omega⟩

/-- The function prints the outcome of the split. -/
theorem fromMsTsToUtcTime_split {msTimeStamp sec ms : Int64}
    (h : splitMs msTimeStamp = some (sec, ms)) :
    fromMsTsToUtcTime msTimeStamp =
      putTime (gmtime sec.toInt) ++ bytes "." ++ padded 3 ms.toInt ++ bytes "Z" := by
  unfold splitMs at h
  obtain ⟨s, hs, h⟩ := Option.bind_eq_some_iff.mp h
  obtain ⟨m, hm, h⟩ := Option.bind_eq_some_iff.mp h
  have hdiv : msTimeStamp / 1000 = s := Signed.div_of_checked hs
  have hmod : msTimeStamp % 1000 = m := Signed.mod_of_checked hm
  unfold fromMsTsToUtcTime
  rw [hdiv, hmod]
  by_cases hneg : m < 0
  · rw [if_pos hneg] at h
    obtain ⟨m', hm', h⟩ := Option.bind_eq_some_iff.mp h
    obtain ⟨s', hs', h⟩ := Option.bind_eq_some_iff.mp h
    have hadd : m + 1000 = m' := Signed.add_of_checked hm'
    have hsub : s - 1 = s' := Signed.sub_of_checked hs'
    obtain ⟨rfl, rfl⟩ : s' = sec ∧ m' = ms := Prod.mk.inj (Option.some.inj h)
    simp only [if_pos hneg, hadd, hsub]
  · rw [if_neg hneg] at h
    obtain ⟨rfl, rfl⟩ : s = sec ∧ m = ms := Prod.mk.inj (Option.some.inj h)
    simp only [if_neg hneg]

/-! ## The text -/

/-- The timestamps of the years 1000 to 9999. -/
def InFourDigitYear (msTimeStamp : Int64) : Prop :=
  yearStart 1000 * 86400 * 1000 ≤ msTimeStamp.toInt ∧
    msTimeStamp.toInt < yearStart 10000 * 86400 * 1000

instance (msTimeStamp : Int64) : Decidable (InFourDigitYear msTimeStamp) :=
  inferInstanceAs (Decidable (_ ∧ _))

theorem printInt_year {year : Int} (hlo : 1000 ≤ year) (hhi : year < 10000) :
    Decimal.printInt year = Decimal.fixedDigits 4 year.toNat := by
  have habs : year.natAbs = year.toNat := by omega
  rw [Decimal.printInt, if_neg (by omega), habs]
  exact Decimal.natDigits_eq_fixedDigits 3 year.toNat (by omega) (by omega)

/-- In a year of four digits the text is the ISO 8601 text of the instant. -/
theorem fromMsTsToUtcTime_text {msTimeStamp : Int64} (h : InFourDigitYear msTimeStamp) :
    ∃ (a : DateTime) (millis : Nat), millis < 1000 ∧
      a.instant * 1000 + millis = msTimeStamp.toInt ∧ 1000 ≤ a.date.year ∧
      a.date.year < 10000 ∧ fromMsTsToUtcTime msTimeStamp = Iso8601.utcText a millis := by
  obtain ⟨sec, ms, hsplit, hlo, hhi, hsum⟩ := splitMs_spec msTimeStamp
  obtain ⟨a, hshows, hinstant⟩ := gmtime_shows sec.toInt
  obtain ⟨millis, hmillis⟩ : ∃ millis : Nat, ms.toInt = millis := ⟨ms.toInt.toNat, by omega⟩
  obtain ⟨hstart, hend⟩ := h
  have hyear : 1000 ≤ a.date.year ∧ a.date.year < 10000 :=
    DateTime.year_bounds (by omega) (by omega)
  have hpadded : padded 3 millis = Decimal.fixedDigits 3 millis :=
    Decimal.replicate_natDigits 3 millis (by decide) (show millis < 1000 by omega)
  refine ⟨a, millis, by omega, by omega, hyear.1, hyear.2, ?_⟩
  rw [fromMsTsToUtcTime_split hsplit, hmillis, hpadded, List.append_assoc, List.append_assoc,
    putTime_shows hshows, printInt_year hyear.1 hyear.2]
  rfl

/-! ## Exactness and order -/

/-- The text is read back as the timestamp. -/
theorem readUtc_fromMsTsToUtcTime {msTimeStamp : Int64} (h : InFourDigitYear msTimeStamp) :
    Iso8601.readUtc (fromMsTsToUtcTime msTimeStamp) = some msTimeStamp.toInt := by
  obtain ⟨a, millis, hmillis, hsum, hlo, hhi, htext⟩ := fromMsTsToUtcTime_text h
  rw [htext, Iso8601.readUtc_utcText (by omega) hhi hmillis, hsum]

/-- The earlier timestamp has the smaller text. -/
theorem fromMsTsToUtcTime_lt {t u : Int64} (ht : InFourDigitYear t) (hu : InFourDigitYear u)
    (h : t < u) : fromMsTsToUtcTime t < fromMsTsToUtcTime u := by
  obtain ⟨a, m, hm, hsum, hlo, -, htext⟩ := fromMsTsToUtcTime_text ht
  obtain ⟨b, n, hn, hsum', -, hhi, htext'⟩ := fromMsTsToUtcTime_text hu
  have hlt : t.toInt < u.toInt := Int64.lt_iff_toInt_lt.mp h
  rw [htext, htext']
  refine Iso8601.utcText_lt (by omega) hhi hn ?_
  -- the seconds decide, and where they agree the milliseconds do
  rcases (show a.instant < b.instant ∨ a.instant = b.instant ∧ m < n by omega) with h | ⟨h, hmn⟩
  · exact Or.inl (DateTime.instant_strictMono.lt_iff_lt.mp h)
  · exact Or.inr ⟨DateTime.instant_strictMono.injective h, hmn⟩

theorem fromMsTsToUtcTime_lt_iff {t u : Int64} (ht : InFourDigitYear t)
    (hu : InFourDigitYear u) : fromMsTsToUtcTime t < fromMsTsToUtcTime u ↔ t < u := by
  constructor
  · intro h
    rcases Int.lt_trichotomy t.toInt u.toInt with hlt | heq | hgt
    · exact Int64.lt_iff_toInt_lt.mpr hlt
    · rw [Int64.toInt_inj.mp heq] at h
      exact absurd h (List.lt_irrefl _)
    · have hback := fromMsTsToUtcTime_lt hu ht (Int64.lt_iff_toInt_lt.mpr hgt)
      exact absurd h (List.lt_asymm hback)
  · exact fromMsTsToUtcTime_lt ht hu

/-- The split is exact for every timestamp; in the years 1000 to 9999 the text determines the
timestamp, and the texts compare as the timestamps do. -/
theorem utcTimestamps_exact :
    (∀ t : Int64, ∃ sec ms, splitMs t = some (sec, ms) ∧ 0 ≤ ms.toInt ∧ ms.toInt ≤ 999 ∧
      sec.toInt * 1000 + ms.toInt = t.toInt ∧
      fromMsTsToUtcTime t =
        putTime (gmtime sec.toInt) ++ bytes "." ++ padded 3 ms.toInt ++ bytes "Z") ∧
    (∀ t, InFourDigitYear t → Iso8601.readUtc (fromMsTsToUtcTime t) = some t.toInt) ∧
    (∀ t u, InFourDigitYear t → InFourDigitYear u →
      (fromMsTsToUtcTime t < fromMsTsToUtcTime u ↔ t < u)) := by
  refine ⟨fun t => ?_, fun t => readUtc_fromMsTsToUtcTime, fun t u => fromMsTsToUtcTime_lt_iff⟩
  obtain ⟨sec, ms, hsplit, hlo, hhi, hsum⟩ := splitMs_spec t
  exact ⟨sec, ms, hsplit, hlo, hhi, hsum, fromMsTsToUtcTime_split hsplit⟩

/-- The two timestamps at the epoch. -/
theorem utcTimestamps_exact_epoch :
    Iso8601.readUtc (bytes "1969-12-31T23:59:59.999Z") = some (-1) ∧
      bytes "1969-12-31T23:59:59.999Z" < bytes "1970-01-01T00:00:00.000Z" := by
  have hbefore : fromMsTsToUtcTime (-1) = bytes "1969-12-31T23:59:59.999Z" := by decide
  have hepoch : fromMsTsToUtcTime 0 = bytes "1970-01-01T00:00:00.000Z" := by decide
  have hread := utcTimestamps_exact.2.1 (-1) (by decide)
  have hlt := (utcTimestamps_exact.2.2 (-1) 0 (by decide) (by decide)).mpr (by decide)
  rw [hbefore] at hread hlt
  rw [hepoch] at hlt
  exact ⟨hread, hlt⟩

end Unleash
