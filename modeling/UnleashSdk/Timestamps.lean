/-
  TIMESTAMPS, as the metrics report prints them.

  `fromMsTsToUtcTime` splits a 64-bit count of milliseconds into seconds and milliseconds by
  truncating division, moves a negative remainder up, and prints the UTC calendar time of the
  seconds; `getISO8601CurrentTimeStamp` prints a local time and its offset.  The calendar
  (`gmtime`) is the proleptic Gregorian one, counted in 400-year eras that start on 1 March.
  Whatever the instant, the text is ASCII.
-/
import Mathlib.Algebra.Order.Ring.Int
import UnleashSdk.Lib.Decimal

set_option linter.unusedVariables false

namespace Unleash

open Decimal (printInt natDigits printInt_ascii)

/-! ## Calendar time -/

/-- A broken-down calendar time, in the conventions of C: years since 1900, months from 0. -/
structure Tm where
  year : Int
  mon : Int
  mday : Int
  hour : Int
  min : Int
  sec : Int

/-- The UTC calendar time, `t` seconds after the epoch. -/
def gmtime (t : Int) : Tm :=
  let days := t / 86400
  let secs := t % 86400
  let z := days + 719468
  let era := z / 146097
  let dayOfEra := z % 146097
  let yearOfEra := (dayOfEra - dayOfEra / 1460 + dayOfEra / 36524 - dayOfEra / 146096) / 365
  let dayOfYear := dayOfEra - (365 * yearOfEra + yearOfEra / 4 - yearOfEra / 100)
  let marchMonth := (5 * dayOfYear + 2) / 153
  let month := if marchMonth < 10 then marchMonth + 3 else marchMonth - 9
  let year := yearOfEra + era * 400 + (if month ≤ 2 then 1 else 0)
  { year := year - 1900, mon := month - 1, mday := dayOfYear - (153 * marchMonth + 2) / 5 + 1,
    hour := secs / 3600, min := secs / 60 % 60, sec := secs % 60 }

/-! ## Printing -/

/-- The text of `n`, filled with zeros on the left up to `width`. -/
def padded (width : Nat) (n : Int) : Bytes :=
  List.replicate (width - (printInt n).length) 0x30 ++ printInt n

/-- The format `%Y-%m-%dT%H:%M:%S`. -/
def putTime (tm : Tm) : Bytes :=
  printInt (tm.year + 1900) ++ bytes "-" ++ padded 2 (tm.mon + 1) ++ bytes "-" ++
    padded 2 tm.mday ++ bytes "T" ++ padded 2 tm.hour ++ bytes ":" ++ padded 2 tm.min ++
    bytes ":" ++ padded 2 tm.sec

/-- The timestamp of `p_msTimeStamp` milliseconds after the epoch. -/
def fromMsTsToUtcTime (msTimeStamp : Int64) : Bytes :=
  let sec := msTimeStamp / 1000
  let ms := msTimeStamp % 1000
  let (sec, ms) := if ms < 0 then (sec - 1, ms + 1000) else (sec, ms)
  putTime (gmtime sec.toInt) ++ bytes "." ++ padded 3 ms.toInt ++ bytes "Z"

/-- The timestamp of a local calendar time, `offsetSeconds` east of UTC. -/
def getISO8601CurrentTimeStamp (localTm : Tm) (offsetSeconds : Int) : Bytes :=
  let offsetHours := offsetSeconds.tdiv 3600
  let offsetMinutes := ((offsetSeconds.tmod 3600).tdiv 60).natAbs
  putTime localTm ++ (if offsetHours ≥ 0 then bytes "+" else bytes "-") ++
    padded 2 offsetHours.natAbs ++ bytes ":" ++ padded 2 offsetMinutes

/-! ## Every timestamp is ASCII -/

theorem padded_ascii (width : Nat) (n : Int) : ∀ b ∈ padded width n, b ≤ 0x7F := by
  intro b hb
  rcases List.mem_append.mp hb with hb | hb
  · rw [(List.mem_replicate.mp hb).2]; decide
  · exact printInt_ascii n b hb

theorem append_ascii {s t : Bytes} (hs : ∀ b ∈ s, b ≤ 0x7F) (ht : ∀ b ∈ t, b ≤ 0x7F) :
    ∀ b ∈ s ++ t, b ≤ 0x7F := fun b hb =>
  (List.mem_append.mp hb).elim (hs b) (ht b)

theorem putTime_ascii (tm : Tm) : ∀ b ∈ putTime tm, b ≤ 0x7F := by
  have hdash : ∀ b ∈ bytes "-", b ≤ 0x7F := Bytes.ascii_of_all (by decide)
  have hcolon : ∀ b ∈ bytes ":", b ≤ 0x7F := Bytes.ascii_of_all (by decide)
  have ht : ∀ b ∈ bytes "T", b ≤ 0x7F := Bytes.ascii_of_all (by decide)
  have hdate := append_ascii (append_ascii (append_ascii (append_ascii
    (printInt_ascii (tm.year + 1900)) hdash) (padded_ascii 2 (tm.mon + 1))) hdash)
    (padded_ascii 2 tm.mday)
  exact append_ascii (append_ascii (append_ascii (append_ascii (append_ascii
    (append_ascii hdate ht) (padded_ascii 2 tm.hour)) hcolon) (padded_ascii 2 tm.min)) hcolon)
    (padded_ascii 2 tm.sec)

/-- A timestamp is ASCII, so no encoder refuses it. -/
theorem fromMsTsToUtcTime_ascii (ms : Int64) : ∀ b ∈ fromMsTsToUtcTime ms, b ≤ 0x7F := by
  have hdot : ∀ b ∈ bytes ".", b ≤ 0x7F := Bytes.ascii_of_all (by decide)
  have hz : ∀ b ∈ bytes "Z", b ≤ 0x7F := Bytes.ascii_of_all (by decide)
  unfold fromMsTsToUtcTime
  exact append_ascii (append_ascii (append_ascii (putTime_ascii _) hdot) (padded_ascii 3 _)) hz

theorem getISO8601CurrentTimeStamp_ascii (localTm : Tm) (offsetSeconds : Int) :
    ∀ b ∈ getISO8601CurrentTimeStamp localTm offsetSeconds, b ≤ 0x7F := by
  have hsign : ∀ b ∈ (if offsetSeconds.tdiv 3600 ≥ 0 then bytes "+" else bytes "-"),
      b ≤ 0x7F := by
    split
    · exact Bytes.ascii_of_all (by decide)
    · exact Bytes.ascii_of_all (by decide)
  have hcolon : ∀ b ∈ bytes ":", b ≤ 0x7F := Bytes.ascii_of_all (by decide)
  unfold getISO8601CurrentTimeStamp
  exact append_ascii (append_ascii (append_ascii (append_ascii (putTime_ascii _) hsign)
    (padded_ascii 2 _)) hcolon) (padded_ascii 2 _)

theorem fromMsTsToUtcTime_utf8 (ms : Int64) : (fromMsTsToUtcTime ms).validUtf8 = true :=
  Bytes.validUtf8_of_ascii (fromMsTsToUtcTime_ascii ms)

example : fromMsTsToUtcTime 1709210096007 = bytes "2024-02-29T12:34:56.007Z" := by decide
example : fromMsTsToUtcTime (-1) = bytes "1969-12-31T23:59:59.999Z" := by decide

end Unleash
