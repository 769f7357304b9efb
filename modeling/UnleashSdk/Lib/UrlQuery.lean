/-
  QUERY STRINGS: fields, percent-encoded, in a URL.

      ?k₁=v₁&k₂=v₂&…&kₙ=vₙ

  `render` writes a list of fields, `parse` reads one back: it splits at every `&`, then at the
  first `=`, and percent-decodes both sides.  An encoder may leave any bytes as they are (`keep`)
  but the three that have a meaning here; then nothing it writes contains a separator
  (`not_mem_percentEncode`), and

      parse (render keep ps) = ps                                        (`parse_render`)

  whatever bytes the keys and the values consist of.
-/
import Mathlib.Data.List.Basic
import UnleashSdk.Lib.Bytes

set_option linter.unusedVariables false

namespace UrlQuery

/-! ## Percent-encoding -/

/-- The digit of `n < 16`, in upper case. -/
def hexDigit (n : UInt8) : UInt8 := if n < 10 then 0x30 + n else 0x37 + n

def hexValue (b : UInt8) : Option UInt8 :=
  if 0x30 ≤ b && b ≤ 0x39 then some (b - 0x30)
  else if 0x41 ≤ b && b ≤ 0x46 then some (b - 0x37)
  else if 0x61 ≤ b && b ≤ 0x66 then some (b - 0x57)
  else none

/-- Percent-encode what is not to be kept. -/
def percentEncode (keep : UInt8 → Bool) (s : Bytes) : Bytes :=
  s.flatMap fun c => if keep c then [c] else [0x25, hexDigit (c >>> 4), hexDigit (c &&& 0x0F)]

/-- A percent sign with two digits after it is one byte; anything else stands for itself. -/
def percentDecode : Bytes → Bytes
  | [] => []
  | [a] => [a]
  | [a, b] => [a, b]
  | a :: b :: c :: s =>
    if a = 0x25 then
      match hexValue b, hexValue c with
      | some high, some low => (high * 16 + low) :: percentDecode s
      | _, _ => a :: percentDecode (b :: c :: s)
    else a :: percentDecode (b :: c :: s)

theorem percentDecode_cons_ne {a : UInt8} (h : a ≠ 0x25) (s : Bytes) :
    percentDecode (a :: s) = a :: percentDecode s := by
  match s with
  | [] => rfl
  | [b] => rfl
  | b :: c :: s => rw [percentDecode, if_neg h]

/-- There are sixteen digits. -/
theorem hexDigit_cases {n : UInt8} (h : n < 16) {P : UInt8 → UInt8 → Prop}
    (hP : ∀ m : Fin 16, P (UInt8.ofNat m) (hexDigit (UInt8.ofNat m))) : P n (hexDigit n) := by
  have hlt : n.toNat < 16 := UInt8.lt_iff_toNat_lt.mp h
  have hn : UInt8.ofNat n.toNat = n := UInt8.ofNat_toNat
  have hPn := hP ⟨n.toNat, hlt⟩
  rwa [hn] at hPn

theorem hexValue_hexDigit {n : UInt8} (h : n < 16) : hexValue (hexDigit n) = some n :=
  hexDigit_cases h (P := fun n d => hexValue d = some n) (by decide)

theorem high_lt (c : UInt8) : c >>> 4 < 16 := by
  have hc := c.toNat_lt
  rw [UInt8.lt_iff_toNat_lt]
  simp only [UInt8.toNat_shiftRight, UInt8.reduceToNat, Nat.reduceMod, Nat.shiftRight_eq_div_pow]
  omega

theorem low_lt (c : UInt8) : c &&& 0x0F < 16 := by
  rw [UInt8.lt_iff_toNat_lt]
  simp only [UInt8.toNat_and, UInt8.reduceToNat]
  have hmod := Nat.and_two_pow_sub_one_eq_mod c.toNat 4
  simp only [Nat.reducePow, Nat.reduceSub] at hmod
  omega

/-- A byte is its two digits. -/
theorem high_low (c : UInt8) : (c >>> 4) * 16 + (c &&& 0x0F) = c := by
  have hc := c.toNat_lt
  have hmod := Nat.and_two_pow_sub_one_eq_mod c.toNat 4
  simp only [Nat.reducePow, Nat.reduceSub] at hmod
  rw [← UInt8.toNat_inj]
  simp only [UInt8.toNat_add, UInt8.toNat_mul, UInt8.toNat_shiftRight, UInt8.toNat_and,
    UInt8.reduceToNat, Nat.reduceMod, Nat.shiftRight_eq_div_pow, hmod]
  omega

theorem percentDecode_digits (c : UInt8) (s : Bytes) :
    percentDecode (0x25 :: hexDigit (c >>> 4) :: hexDigit (c &&& 0x0F) :: s) =
      c :: percentDecode s := by
  rw [percentDecode, if_pos rfl, hexValue_hexDigit (high_lt c), hexValue_hexDigit (low_lt c)]
  simp only [high_low]

/-- **Round trip** of one string. -/
theorem percentDecode_percentEncode {keep : UInt8 → Bool} (hkeep : keep 0x25 = false) (s : Bytes) :
    percentDecode (percentEncode keep s) = s := by
  induction s with
  | nil => rfl
  | cons c s ih =>
    rw [percentEncode, List.flatMap_cons]
    split
    · rename_i hc
      have hne : c ≠ 0x25 := by
        rintro rfl
        rw [hkeep] at hc
        cases hc
      rw [List.singleton_append, percentDecode_cons_ne hne]
      exact congrArg (c :: ·) ih
    · simp only [List.cons_append, List.nil_append, percentDecode_digits]
      exact congrArg (c :: ·) ih

/-- A separator that the encoder does not keep does not come out of it. -/
theorem not_mem_percentEncode {keep : UInt8 → Bool} {sep : UInt8} (hkeep : keep sep = false)
    (hpercent : sep ≠ 0x25) (hdigit : ∀ m : Fin 16, sep ≠ hexDigit (UInt8.ofNat m)) (s : Bytes) :
    sep ∉ percentEncode keep s := by
  intro hmem
  obtain ⟨c, -, hc⟩ := List.mem_flatMap.mp hmem
  split at hc
  · rename_i hkept
    rw [List.mem_singleton.mp hc, hkept] at hkeep
    cases hkeep
  · simp only [List.mem_cons, List.not_mem_nil, or_false] at hc
    rcases hc with hc | hc | hc
    · exact hpercent hc
    · exact hexDigit_cases (high_lt c) (P := fun _ d => sep ≠ d) hdigit hc
    · exact hexDigit_cases (low_lt c) (P := fun _ d => sep ≠ d) hdigit hc

/-- A digit as the encoder writes it. -/
def isUpperHex (b : UInt8) : Bool := (0x30 ≤ b && b ≤ 0x39) || (0x41 ≤ b && b ≤ 0x46)

/-- What an encoded string consists of: kept bytes, and triplets of a percent sign and two
    upper-case digits. -/
inductive Escaped (keep : UInt8 → Bool) : Bytes → Prop where
  | nil : Escaped keep []
  | kept {c : UInt8} {s : Bytes} (hc : keep c = true) (hs : Escaped keep s) : Escaped keep (c :: s)
  | triplet {a b : UInt8} {s : Bytes} (ha : isUpperHex a = true) (hb : isUpperHex b = true)
    (hs : Escaped keep s) : Escaped keep (0x25 :: a :: b :: s)

theorem isUpperHex_hexDigit {n : UInt8} (h : n < 16) : isUpperHex (hexDigit n) = true :=
  hexDigit_cases h (P := fun n d => isUpperHex d = true) (by decide)

theorem escaped_percentEncode (keep : UInt8 → Bool) (s : Bytes) :
    Escaped keep (percentEncode keep s) := by
  induction s with
  | nil => exact .nil
  | cons c s ih =>
    rw [percentEncode, List.flatMap_cons]
    split
    · rename_i hc
      exact .kept hc ih
    · exact .triplet (isUpperHex_hexDigit (high_lt c)) (isUpperHex_hexDigit (low_lt c)) ih

/-! ## Fields -/

def renderField (keep : UInt8 → Bool) (p : Bytes × Bytes) : Bytes :=
  percentEncode keep p.1 ++ 0x3D :: percentEncode keep p.2

/-- A query of these fields; without fields there is none. -/
def render (keep : UInt8 → Bool) (ps : List (Bytes × Bytes)) : Bytes :=
  if ps.isEmpty then [] else 0x3F :: List.intercalate [0x26] (ps.map (renderField keep))

/-- Append a field to a query. -/
def add (keep : UInt8 → Bool) (query : Bytes) (p : Bytes × Bytes) : Bytes :=
  query ++ (if query.isEmpty then 0x3F else 0x26) :: renderField keep p

def parseField (field : Bytes) : Bytes × Bytes :=
  (percentDecode (field.takeWhile (· != 0x3D)),
    percentDecode ((field.dropWhile (· != 0x3D)).drop 1))

def parse (query : Bytes) : List (Bytes × Bytes) :=
  match query with
  | [] => []
  | c :: fields => if c = 0x3F then (fields.splitOn 0x26).map parseField else []

/-- An encoder that leaves none of the bytes as it is that have a meaning in a query. -/
structure Safe (keep : UInt8 → Bool) : Prop where
  percent : keep 0x25 = false
  ampersand : keep 0x26 = false
  equals : keep 0x3D = false

theorem intercalate_snoc (sep : Bytes) {ls : List Bytes} (h : ls ≠ []) (l : Bytes) :
    sep.intercalate (ls ++ [l]) = sep.intercalate ls ++ sep ++ l := by
  induction ls with
  | nil => exact absurd rfl h
  | cons x xs ih =>
    cases xs with
    | nil => simp
    | cons y ys =>
      rw [List.cons_append, List.intercalate_cons_of_ne_nil (by simp), ih (by simp),
        List.intercalate_cons_cons]
      simp only [List.append_assoc]

theorem mem_intercalate {sep b : UInt8} {ls : List Bytes} (h : b ∈ [sep].intercalate ls) :
    b = sep ∨ ∃ l ∈ ls, b ∈ l := by
  induction ls with
  | nil => cases h
  | cons x xs ih =>
    cases xs with
    | nil =>
      rw [List.intercalate_singleton] at h
      exact Or.inr ⟨x, List.mem_cons_self, h⟩
    | cons y ys =>
      rw [List.intercalate_cons_cons] at h
      rcases List.mem_append.mp h with h | h
      · rcases List.mem_append.mp h with h | h
        · exact Or.inr ⟨x, List.mem_cons_self, h⟩
        · exact Or.inl (List.mem_singleton.mp h)
      · exact (ih h).imp_right fun ⟨l, hl, hb⟩ => ⟨l, List.mem_cons_of_mem x hl, hb⟩

/-- A query that is built field by field. -/
theorem add_render (keep : UInt8 → Bool) (ps : List (Bytes × Bytes)) (p : Bytes × Bytes) :
    add keep (render keep ps) p = render keep (ps ++ [p]) := by
  by_cases hps : ps = []
  · subst hps
    simp [add, render]
  · have hmap : ps.map (renderField keep) ≠ [] := by simpa using hps
    have hempty : ps.isEmpty = false := List.isEmpty_eq_false_iff.mpr hps
    simp [add, render, hempty, intercalate_snoc _ hmap]

theorem parseField_renderField {keep : UInt8 → Bool} (hkeep : Safe keep) (p : Bytes × Bytes) :
    parseField (renderField keep p) = p := by
  have hno : ∀ b ∈ percentEncode keep p.1, (b != 0x3D) = true := by
    intro b hb
    rw [bne_iff_ne]
    rintro rfl
    exact not_mem_percentEncode hkeep.equals (by decide) (by decide) p.1 hb
  rw [parseField, renderField, List.takeWhile_append_of_pos hno, List.dropWhile_append_of_pos hno]
  simp [percentDecode_percentEncode hkeep.percent]

theorem not_mem_renderField {keep : UInt8 → Bool} (hkeep : Safe keep) (p : Bytes × Bytes) :
    0x26 ∉ renderField keep p := by
  have hno := not_mem_percentEncode hkeep.ampersand (by decide) (by decide)
  simp [renderField, hno]

/-- **Round trip** of a query. -/
theorem parse_render {keep : UInt8 → Bool} (hkeep : Safe keep) (ps : List (Bytes × Bytes)) :
    parse (render keep ps) = ps := by
  cases ps with
  | nil => rfl
  | cons p ps =>
    rw [render, if_neg (by simp), parse, if_pos rfl, List.splitOn_intercalate, List.map_map]
    · exact List.map_id'' (parseField_renderField hkeep) _
    · intro field hfield
      obtain ⟨q, -, rfl⟩ := List.mem_map.mp hfield
      exact not_mem_renderField hkeep q
    · simp

end UrlQuery
