/-
  TIMES AS ISO 8601 TEXT.

  `-MM-DDTHH:MM:SS` behind a year is the common part (`textThen`, `readDateTime`).  A UTC time has
  a year of four digits in front of it and milliseconds and a `Z` after it; such texts are read
  back (`readUtc`) and compare byte by byte as the times they denote.  A local time has a year
  of any length and its offset from UTC, `+HH:MM` or `-HH:MM`, after it (`readLocal`).
-/
import UnleashSdk.Lib.Calendar
import UnleashSdk.Lib.Decimal

set_option linter.unusedVariables false

namespace Iso8601

open Calendar (Date DateTime)
open Decimal (fixedDigits readFixed readInt readFixed_fixedDigits fixedDigits_append_lt)

/-- Takes the byte `c` off the front. -/
def expect (c : UInt8) : Bytes → Option Bytes
  | [] => none
  | b :: s => if b = c then some s else none

@[simp] theorem expect_cons (c : UInt8) (s : Bytes) : expect c (c :: s) = some s := if_pos rfl

/-! ## Behind the year -/

/-- The text of a time from the year's end to its seconds, and then `rest`. -/
def textThen (a : DateTime) (rest : Bytes) : Bytes :=
  0x2D :: (fixedDigits 2 a.date.month ++ 0x2D :: (fixedDigits 2 a.date.day ++
    0x54 :: (fixedDigits 2 a.hour ++ 0x3A :: (fixedDigits 2 a.minute ++
      0x3A :: (fixedDigits 2 a.second ++ rest)))))

/-- A time of the given year, and the text after it. -/
def readDateTime (year : Int) (s : Bytes) : Option (DateTime × Bytes) := do
  let s ← expect 0x2D s
  let (month, s) ← readFixed 2 s
  let s ← expect 0x2D s
  let (day, s) ← readFixed 2 s
  let date ← Date.ofFields? year month day
  let s ← expect 0x54 s
  let (hour, s) ← readFixed 2 s
  let s ← expect 0x3A s
  let (minute, s) ← readFixed 2 s
  let s ← expect 0x3A s
  let (second, s) ← readFixed 2 s
  let a ← DateTime.ofFields? date hour minute second
  return (a, s)

theorem textThen_length (a : DateTime) (rest : Bytes) :
    (textThen a rest).length = 15 + rest.length := by
  simp only [textThen, List.length_cons, List.length_append, Decimal.fixedDigits_length]
  omega

theorem readDateTime_textThen (a : DateTime) (rest : Bytes) :
    readDateTime a.date.year (textThen a rest) = some (a, rest) := by
  have hmonth : a.date.month < 10 ^ 2 := a.date.month_lt
  have hday : a.date.day < 10 ^ 2 := a.date.day_lt_hundred
  have hhour : a.hour < 10 ^ 2 := lt_trans a.hour_lt (by decide)
  have hminute : a.minute < 10 ^ 2 := lt_trans a.minute_lt (by decide)
  have hsecond : a.second < 10 ^ 2 := lt_trans a.second_lt (by decide)
  simp only [readDateTime, textThen, expect_cons, readFixed_fixedDigits hmonth,
    readFixed_fixedDigits hday, readFixed_fixedDigits hhour, readFixed_fixedDigits hminute,
    readFixed_fixedDigits hsecond, Date.ofFields?_fields, DateTime.ofFields?_fields,
    Option.bind_eq_bind, Option.bind_some, Option.pure_def]

/-- Within a year the texts compare as the times do, and then as what follows them. -/
theorem textThen_lt {a b : DateTime} {u v : Bytes} (hyear : a.date.year = b.date.year)
    (h : a < b ∨ a = b ∧ u < v) : textThen a u < textThen b v := by
  have hfield : ∀ {c : UInt8} {n m : Nat} {s t : Bytes}, m < 10 ^ 2 → (n < m ∨ n = m ∧ s < t) →
      c :: (fixedDigits 2 n ++ s) < c :: (fixedDigits 2 m ++ t) := fun hm hlt =>
    List.cons_lt_cons_self.mpr (fixedDigits_append_lt hm hlt)
  have hhour : b.hour < 10 ^ 2 := lt_trans b.hour_lt (by decide)
  have hminute : b.minute < 10 ^ 2 := lt_trans b.minute_lt (by decide)
  have hsecond : b.second < 10 ^ 2 := lt_trans b.second_lt (by decide)
  unfold textThen
  apply hfield b.date.month_lt
  rcases h with h | ⟨rfl, huv⟩
  · rcases DateTime.lt_iff.mp h with hdate | ⟨hdate, htime⟩
    · -- the dates differ, in the month or in the day
      rcases Date.lt_iff.mp hdate with hy | ⟨-, hmonth | ⟨hmonth, hday⟩⟩
      · omega
      · exact Or.inl hmonth
      · exact Or.inr ⟨hmonth, hfield b.date.day_lt_hundred (Or.inl hday)⟩
    · -- the dates agree, and the time of day decides
      rw [hdate]
      refine Or.inr ⟨rfl, hfield b.date.day_lt_hundred (Or.inr ⟨rfl, hfield hhour ?_⟩)⟩
      rcases htime with hlt | ⟨heq, hlt | ⟨heq', hlt⟩⟩
      · exact Or.inl hlt
      · exact Or.inr ⟨heq, hfield hminute (Or.inl hlt)⟩
      · exact Or.inr ⟨heq, hfield hminute (Or.inr ⟨heq', hfield hsecond (Or.inl hlt)⟩)⟩
  · have hsec := hfield (c := 0x3A) hsecond (Or.inr ⟨rfl, huv⟩)
    have hmin := hfield (c := 0x3A) hminute (Or.inr ⟨rfl, hsec⟩)
    have hhr := hfield (c := 0x54) hhour (Or.inr ⟨rfl, hmin⟩)
    exact Or.inr ⟨rfl, hfield a.date.day_lt_hundred (Or.inr ⟨rfl, hhr⟩)⟩

/-! ## UTC times with milliseconds -/

/-- `YYYY-MM-DDTHH:MM:SS.mmmZ`. -/
def utcText (a : DateTime) (millis : Nat) : Bytes :=
  fixedDigits 4 a.date.year.toNat ++ textThen a (0x2E :: (fixedDigits 3 millis ++ [0x5A]))

/-- The milliseconds since the epoch that such a text denotes. -/
def readUtc (s : Bytes) : Option Int := do
  let (year, s) ← readFixed 4 s
  let (a, s) ← readDateTime year s
  let s ← expect 0x2E s
  let (millis, s) ← readFixed 3 s
  let s ← expect 0x5A s
  if s = [] then some (a.instant * 1000 + millis) else none

theorem readUtc_utcText {a : DateTime} {millis : Nat} (hlo : 0 ≤ a.date.year)
    (hhi : a.date.year < 10000) (hmillis : millis < 1000) :
    readUtc (utcText a millis) = some (a.instant * 1000 + millis) := by
  have hyear : a.date.year.toNat < 10 ^ 4 := by omega
  have hcast : ((a.date.year.toNat : Nat) : Int) = a.date.year := Int.toNat_of_nonneg hlo
  have hmillis : millis < 10 ^ 3 := hmillis
  simp only [readUtc, utcText, readFixed_fixedDigits hyear, hcast, readDateTime_textThen,
    expect_cons, readFixed_fixedDigits hmillis, Option.bind_eq_bind, Option.bind_some, if_true]

/-- The earlier time has the smaller text. -/
theorem utcText_lt {a b : DateTime} {m n : Nat} (ha : 0 ≤ a.date.year)
    (hb : b.date.year < 10000) (hn : n < 1000) (h : a < b ∨ a = b ∧ m < n) :
    utcText a m < utcText b n := by
  have hmillis : m < n → (0x2E : UInt8) :: (fixedDigits 3 m ++ [0x5A]) <
      0x2E :: (fixedDigits 3 n ++ [0x5A]) := fun hlt =>
    List.cons_lt_cons_self.mpr (fixedDigits_append_lt hn (Or.inl hlt))
  have hle : a.date.year ≤ b.date.year := by
    rcases h with h | ⟨rfl, -⟩
    · rcases DateTime.lt_iff.mp h with hdate | ⟨hdate, -⟩
      · rcases Date.lt_iff.mp hdate with hy | ⟨hy, -⟩
        · exact le_of_lt hy
        · exact le_of_eq hy
      · rw [hdate]
    · exact le_refl _
  have hwidth : b.date.year.toNat < 10 ^ 4 := by omega
  rcases lt_or_eq_of_le hle with hy | hy
  · exact fixedDigits_append_lt hwidth (Or.inl (by omega))
  · refine fixedDigits_append_lt hwidth (Or.inr ⟨by rw [hy], textThen_lt hy ?_⟩)
    exact h.imp_right fun ⟨heq, hlt⟩ => ⟨heq, hmillis hlt⟩

/-! ## Local times with an offset -/

/-- `+HH:MM` or `-HH:MM`, by the sign's byte. -/
def offsetText (sign : UInt8) (hours minutes : Nat) : Bytes :=
  sign :: (fixedDigits 2 hours ++ 0x3A :: fixedDigits 2 minutes)

/-- The seconds east of UTC that an offset denotes. -/
def readOffset : Bytes → Option Int
  | [] => none
  | sign :: s => do
    let (hours, s) ← readFixed 2 s
    let s ← expect 0x3A s
    let (minutes, s) ← readFixed 2 s
    if s = [] ∧ minutes < 60 then
      if sign = 0x2B then some (hours * 3600 + minutes * 60)
      else if sign = 0x2D then some (-(hours * 3600 + minutes * 60))
      else none
    else none

/-- The seconds since the epoch that a local time denotes; its last 21 bytes are the common part
and the offset. -/
def readLocal (s : Bytes) : Option Int := do
  let year ← readInt (s.take (s.length - 21))
  let (a, s) ← readDateTime year (s.drop (s.length - 21))
  let offset ← readOffset s
  return a.instant - offset

theorem offsetText_length (sign : UInt8) (hours minutes : Nat) :
    (offsetText sign hours minutes).length = 6 := by
  simp only [offsetText, List.length_cons, List.length_append, Decimal.fixedDigits_length]

theorem readOffset_offsetText (sign : UInt8) {hours minutes : Nat} (hh : hours < 100)
    (hm : minutes < 60) :
    readOffset (offsetText sign hours minutes) =
      if sign = 0x2B then some (hours * 3600 + minutes * 60 : Int)
      else if sign = 0x2D then some (-(hours * 3600 + minutes * 60))
      else none := by
  have hh : hours < 10 ^ 2 := hh
  have hminutes : readFixed 2 (fixedDigits 2 minutes) = some (minutes, []) := by
    have hread := readFixed_fixedDigits (show minutes < 10 ^ 2 from lt_trans hm (by decide)) []
    rwa [List.append_nil] at hread
  simp only [readOffset, offsetText, readFixed_fixedDigits hh, expect_cons, hminutes,
    Option.bind_eq_bind, Option.bind_some, hm, and_self, if_true]

/-- A local time is read as its calendar time, less the offset that is printed with it. -/
theorem readLocal_text (a : DateTime) {suffix : Bytes} (h : suffix.length = 6) :
    readLocal (Decimal.printInt a.date.year ++ textThen a suffix) =
      (readOffset suffix).map fun offset => a.instant - offset := by
  have hlen : (Decimal.printInt a.date.year ++ textThen a suffix).length - 21 =
      (Decimal.printInt a.date.year).length := by
    rw [List.length_append, textThen_length, h]
    omega
  rw [readLocal, hlen, List.take_left, List.drop_left, Decimal.readInt_printInt]
  simp only [readDateTime_textThen, Option.bind_eq_bind, Option.bind_some]
  cases readOffset suffix with
  | none => rfl
  | some offset => rfl

end Iso8601
