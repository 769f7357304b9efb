/-
  LOCAL TIMESTAMPS.

  `getISO8601CurrentTimeStamp` prints a local calendar time and its offset from UTC, and derives
  the offset's sign, hours and minutes one by one:
      sign     from the hours, after they were truncated towards zero
      hours    |offset / 3600|
      minutes  |offset % 3600 / 60|
  Within the hour west of UTC the hours are truncated to zero, and zero counts as east: an offset
  of -00:30 is printed as +00:30.  Everywhere else the text denotes the offset, and with it the
  instant.
-/
import UnleashSdk.CalendarTime

set_option linter.unusedVariables false

namespace Unleash

open Calendar (DateTime)
open Iso8601 (offsetText readOffset readLocal readOffset_offsetText)

/-- The local calendar time at an instant, `offsetSeconds` east of UTC. -/
def localtime (t offsetSeconds : Int) : Tm := gmtime (t + offsetSeconds)

/-- The offset at the end of a timestamp. -/
def suffix (s : Bytes) : Bytes := s.drop (s.length - 6)

/-- Less than an hour west of UTC. -/
def WithinHourWest (offsetSeconds : Int) : Prop := -3600 < offsetSeconds ∧ offsetSeconds < 0

/-! ## The parts of the offset -/

/-- The sign, hours and minutes that are printed. -/
def offsetSuffix (offsetSeconds : Int) : Bytes :=
  offsetText (if offsetSeconds.tdiv 3600 ≥ 0 then 0x2B else 0x2D) (offsetSeconds.tdiv 3600).natAbs
    ((offsetSeconds.tmod 3600).tdiv 60).natAbs

theorem offset_parts (offsetSeconds : Int) :
    (offsetSeconds.tdiv 3600).natAbs = offsetSeconds.natAbs / 3600 ∧
      ((offsetSeconds.tmod 3600).tdiv 60).natAbs = offsetSeconds.natAbs % 3600 / 60 := by
  constructor
  · exact Int.natAbs_tdiv offsetSeconds 3600
  · rw [Int.natAbs_tdiv, Int.natAbs_tmod]
    rfl

/-- The hours count as east unless there is a whole hour to the west. -/
theorem tdiv_nonneg_iff (offsetSeconds : Int) :
    offsetSeconds.tdiv 3600 ≥ 0 ↔ -3600 < offsetSeconds := by
  have hdiv := Int.mul_tdiv_add_tmod offsetSeconds 3600
  have hlo := Int.lt_tmod_of_pos offsetSeconds (show (0 : Int) < 3600 by decide)
  have hhi := Int.tmod_lt_of_pos offsetSeconds (show (0 : Int) < 3600 by decide)
  constructor
  · intro h
    omega
  · intro h
    by_cases hneg : offsetSeconds < 0
    · -- truncated to zero
      have habs := (offset_parts offsetSeconds).1
      omega
    · exact Int.tdiv_nonneg (by omega) (by decide)

/-- The timestamp is the local time and the suffix, as long as the hours have two digits. -/
theorem getISO8601CurrentTimeStamp_eq (localTm : Tm) {offsetSeconds : Int}
    (hlo : -360000 < offsetSeconds) (hhi : offsetSeconds < 360000) :
    getISO8601CurrentTimeStamp localTm offsetSeconds =
      putTime localTm ++ offsetSuffix offsetSeconds := by
  obtain ⟨hhours, hminutes⟩ := offset_parts offsetSeconds
  unfold getISO8601CurrentTimeStamp offsetSuffix offsetText
  dsimp only
  rw [padded_two (show (offsetSeconds.tdiv 3600).natAbs < 100 by omega),
    padded_two (show ((offsetSeconds.tmod 3600).tdiv 60).natAbs < 100 by omega)]
  simp only [List.append_assoc]
  split
  · rfl
  · rfl

/-! ## Reading the suffix -/

/-- The suffix denotes the offset's distance from UTC, to the west only from a whole hour on. -/
theorem readOffset_offsetSuffix {offsetSeconds : Int} (hminutes : offsetSeconds % 60 = 0)
    (hlo : -360000 < offsetSeconds) (hhi : offsetSeconds < 360000) :
    readOffset (offsetSuffix offsetSeconds) =
      some (if -3600 < offsetSeconds then (offsetSeconds.natAbs : Int) else offsetSeconds) := by
  obtain ⟨hhours, hmins⟩ := offset_parts offsetSeconds
  have hsign := tdiv_nonneg_iff offsetSeconds
  rw [offsetSuffix, readOffset_offsetText _ (by omega) (by omega), hhours, hmins]
  by_cases h : -3600 < offsetSeconds
  · rw [if_pos (hsign.mpr h), if_pos rfl, if_pos h]
    exact congrArg some (by omega)
  · rw [if_neg (mt hsign.mp h), if_neg (by decide), if_pos rfl, if_neg h]
    exact congrArg some (by omega)

theorem readOffset_offsetSuffix_iff {offsetSeconds : Int} (hminutes : offsetSeconds % 60 = 0)
    (hlo : -360000 < offsetSeconds) (hhi : offsetSeconds < 360000) :
    readOffset (offsetSuffix offsetSeconds) = some offsetSeconds ↔
      ¬ WithinHourWest offsetSeconds := by
  rw [readOffset_offsetSuffix hminutes hlo hhi, Option.some_inj]
  unfold WithinHourWest
  split
  · omega
  · omega

theorem suffix_append (s : Bytes) (offsetSeconds : Int) :
    suffix (s ++ offsetSuffix offsetSeconds) = offsetSuffix offsetSeconds := by
  have hlen : (offsetSuffix offsetSeconds).length = 6 := Iso8601.offsetText_length _ _ _
  rw [suffix, List.length_append, hlen, Nat.add_sub_cancel, List.drop_left]

/-- The whole text of a local time denotes that time, less the offset its suffix denotes. -/
theorem readLocal_timestamp {localTm : Tm} {a : DateTime} (h : localTm.Shows a)
    {offsetSeconds : Int} (hlo : -360000 < offsetSeconds) (hhi : offsetSeconds < 360000) :
    readLocal (getISO8601CurrentTimeStamp localTm offsetSeconds) =
      (readOffset (offsetSuffix offsetSeconds)).map fun offset => a.instant - offset := by
  rw [getISO8601CurrentTimeStamp_eq localTm hlo hhi, putTime_shows h]
  exact Iso8601.readLocal_text a (Iso8601.offsetText_length _ _ _)

/-! ## Which timestamps denote the instant -/

/-- For an offset of whole minutes, the suffix denotes the offset, and the text of the local time
denotes the instant, unless the offset is within the hour west of UTC. -/
theorem localTimestamp_exact_iff (localTm : Tm) (t offsetSeconds : Int)
    (hminutes : offsetSeconds % 60 = 0) (hlo : -360000 < offsetSeconds)
    (hhi : offsetSeconds < 360000) :
    (readOffset (suffix (getISO8601CurrentTimeStamp localTm offsetSeconds)) =
        some offsetSeconds ↔ ¬ WithinHourWest offsetSeconds) ∧
      (readLocal (getISO8601CurrentTimeStamp (localtime t offsetSeconds) offsetSeconds) =
        some t ↔ ¬ WithinHourWest offsetSeconds) := by
  have hiff := readOffset_offsetSuffix_iff hminutes hlo hhi
  constructor
  · rw [getISO8601CurrentTimeStamp_eq localTm hlo hhi, suffix_append]
    exact hiff
  · obtain ⟨a, hshows, hinstant⟩ := gmtime_shows (t + offsetSeconds)
    rw [← hiff, localtime, readLocal_timestamp hshows hlo hhi, hinstant,
      readOffset_offsetSuffix hminutes hlo hhi, Option.map_some, Option.some_inj, Option.some_inj]
    omega

/-- Half past three hours west, a whole hour away from UTC and more. -/
theorem newfoundland_exact :
    readOffset (bytes "-03:30") = some (-12600) ∧
      readLocal (bytes "2024-02-29T09:04:56-03:30") = some 1709210096 := by
  have htext : getISO8601CurrentTimeStamp (localtime 1709210096 (-12600)) (-12600) =
      bytes "2024-02-29T09:04:56-03:30" := by decide
  have hexact := localTimestamp_exact_iff (localtime 1709210096 (-12600)) 1709210096 (-12600)
    (by decide) (by decide) (by decide)
  rw [htext] at hexact
  exact ⟨hexact.1.mpr (by unfold WithinHourWest; omega),
    hexact.2.mpr (by unfold WithinHourWest; omega)⟩

/-- Half an hour west of UTC is printed as half an hour east, an hour from the instant. -/
theorem halfHourWest_misread :
    getISO8601CurrentTimeStamp (localtime 0 (-1800)) (-1800) =
        bytes "1969-12-31T23:30:00+00:30" ∧
      readOffset (suffix (getISO8601CurrentTimeStamp (localtime 0 (-1800)) (-1800))) ≠
        some (-1800) ∧
      readLocal (getISO8601CurrentTimeStamp (localtime 0 (-1800)) (-1800)) ≠ some 0 := by
  decide

end Unleash
