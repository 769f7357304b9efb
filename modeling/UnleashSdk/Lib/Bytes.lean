/-
  BYTE STRINGS AND UTF-8.

  A C++ string is a sequence of bytes, of any values: `Bytes`.  `validUtf8` decides whether such
  a sequence is well-formed UTF-8 (shortest forms only, no surrogates, nothing above U+10FFFF),
  by the table of well-formed byte sequences of the Unicode standard.
-/
import Mathlib.Data.List.Basic

set_option linter.unusedVariables false

/-- A byte string. -/
abbrev Bytes := List UInt8

/-- The UTF-8 bytes of a text. -/
def bytes (s : String) : Bytes := s.toUTF8.data.toList

namespace Bytes

/-- A continuation byte. -/
def isTail (b : UInt8) : Bool := 0x80 ≤ b && b ≤ 0xBF

/-- The second bytes a three-byte character's first byte allows. -/
def second3 (a b : UInt8) : Bool :=
  (a == 0xE0 && 0xA0 ≤ b && b ≤ 0xBF) || (0xE1 ≤ a && a ≤ 0xEC && isTail b) ||
    (a == 0xED && 0x80 ≤ b && b ≤ 0x9F) || (0xEE ≤ a && a ≤ 0xEF && isTail b)

/-- The second bytes a four-byte character's first byte allows. -/
def second4 (a b : UInt8) : Bool :=
  (a == 0xF0 && 0x90 ≤ b && b ≤ 0xBF) || (0xF1 ≤ a && a ≤ 0xF3 && isTail b) ||
    (a == 0xF4 && 0x80 ≤ b && b ≤ 0x8F)

/-- Well-formed UTF-8, one character at a time. -/
def validUtf8 : Bytes → Bool
  | [] => true
  | a :: s =>
    if a ≤ 0x7F then validUtf8 s
    else
      match s with
      | [] => false
      | b :: s =>
        if 0xC2 ≤ a && a ≤ 0xDF then isTail b && validUtf8 s
        else
          match s with
          | [] => false
          | c :: s =>
            if second3 a b then isTail c && validUtf8 s
            else
              match s with
              | [] => false
              | d :: s => second4 a b && isTail c && isTail d && validUtf8 s

@[simp] theorem validUtf8_nil : validUtf8 [] = true := rfl

theorem validUtf8_cons_ascii {a : UInt8} (h : a ≤ 0x7F) (s : Bytes) :
    validUtf8 (a :: s) = validUtf8 s := by
  rw [validUtf8.eq_def]
  exact if_pos h

/-- A text is ASCII if a look at its bytes says so. -/
theorem ascii_of_all {s : Bytes} (h : s.all (fun b => decide (b ≤ 0x7F)) = true) :
    ∀ b ∈ s, b ≤ 0x7F := fun b hb => of_decide_eq_true (List.all_eq_true.mp h b hb)

/-- ASCII text is well-formed UTF-8, whatever follows it decides the rest. -/
theorem validUtf8_ascii_append {s t : Bytes} (h : ∀ b ∈ s, b ≤ 0x7F) :
    validUtf8 (s ++ t) = validUtf8 t := by
  induction s with
  | nil => rfl
  | cons a s ih =>
    rw [List.cons_append, validUtf8_cons_ascii (h a List.mem_cons_self)]
    exact ih fun b hb => h b (List.mem_cons_of_mem a hb)

theorem validUtf8_of_ascii {s : Bytes} (h : ∀ b ∈ s, b ≤ 0x7F) : validUtf8 s = true := by
  have happ := validUtf8_ascii_append (t := []) h
  rwa [List.append_nil] at happ

example : validUtf8 (bytes "acmé") = true := by decide
example : validUtf8 [0xC0, 0xAF] = false := by decide  -- an overlong form of '/'

end Bytes
