/-
  DECIMAL NUMERALS.

  The digits of a number as bytes, most significant first and without leading zeros
  (`natDigits`), with a sign in front for an integer (`printInt`, the text of C++ `to_string`).
  `ofDigits` reads digits back, leading zeros or not.  `fixedDigits` writes a number in a field
  of fixed width; such fields compare as byte strings the way their numbers do.
-/
import Mathlib.Algebra.Group.Nat.Defs
import UnleashSdk.Lib.Bytes

set_option linter.unusedVariables false

namespace Decimal

def digit (n : Nat) : UInt8 := UInt8.ofNat (48 + n)

/-- The decimal digits of `n`, at most `fuel` of them. -/
def digitsFuel : Nat → Nat → Bytes
  | 0, _ => []
  | fuel + 1, n =>
    if n < 10 then [digit n] else digitsFuel fuel (n / 10) ++ [digit (n % 10)]

def natDigits (n : Nat) : Bytes := digitsFuel (n + 1) n

def isDigit (b : UInt8) : Bool := 48 ≤ b && b ≤ 57

def ofDigits (ds : Bytes) : Nat := ds.foldl (fun acc d => acc * 10 + (d.toNat - 48)) 0

theorem digit_toNat {n : Nat} (h : n < 10) : (digit n).toNat = 48 + n := by
  rw [digit, UInt8.toNat_ofNat']
  omega

theorem isDigit_digit {n : Nat} (h : n < 10) : isDigit (digit n) = true := by
  have hn := digit_toNat h
  simp only [isDigit, Bool.and_eq_true, decide_eq_true_eq, UInt8.le_iff_toNat_le, hn]
  exact ⟨Nat.le_add_right 48 n, show 48 + n ≤ 57 by omega⟩

theorem ofDigits_snoc (ds : Bytes) (d : UInt8) :
    ofDigits (ds ++ [d]) = ofDigits ds * 10 + (d.toNat - 48) := by
  rw [ofDigits, List.foldl_append]; rfl

/-- Reading the digits back, whatever fuel above `n` wrote them. -/
theorem ofDigits_digitsFuel : ∀ fuel n, n < fuel → ofDigits (digitsFuel fuel n) = n := by
  intro fuel
  induction fuel with
  | zero => intro n h; omega
  | succ fuel ih =>
    intro n h
    unfold digitsFuel
    split
    · rename_i hn
      have hd := digit_toNat hn
      simp only [ofDigits, List.foldl_cons, List.foldl_nil, hd]
      omega
    · rename_i hn
      rw [ofDigits_snoc, ih (n / 10) (by omega), digit_toNat (by omega)]
      omega

theorem digitsFuel_isDigit : ∀ fuel n, ∀ b ∈ digitsFuel fuel n, isDigit b = true := by
  intro fuel
  induction fuel with
  | zero => intro n b hb; nomatch hb
  | succ fuel ih =>
    intro n b hb
    unfold digitsFuel at hb
    split at hb
    · rename_i hn
      rw [List.mem_singleton] at hb
      rw [hb]; exact isDigit_digit hn
    · rcases List.mem_append.mp hb with hb | hb
      · exact ih (n / 10) b hb
      · rw [List.mem_singleton] at hb
        rw [hb]; exact isDigit_digit (by omega)

/-- No leading zero: the digits of a number are `0` alone or start with another digit. -/
theorem digitsFuel_head : ∀ fuel n, n < fuel →
    ∃ d ds, digitsFuel fuel n = d :: ds ∧ (d = 48 → ds = []) := by
  intro fuel
  induction fuel with
  | zero => intro n h; omega
  | succ fuel ih =>
    intro n h
    unfold digitsFuel
    split
    · exact ⟨digit n, [], rfl, fun _ => rfl⟩
    · rename_i hn
      obtain ⟨d, ds, heq, hzero⟩ := ih (n / 10) (by omega)
      refine ⟨d, ds ++ [digit (n % 10)], by rw [heq]; rfl, fun hd => ?_⟩
      -- a zero in front would make `n / 10` zero
      have hval := ofDigits_digitsFuel fuel (n / 10) (by omega)
      rw [heq, hzero hd, hd] at hval
      have hz : n / 10 = 0 := hval.symm
      omega

/-- The text of an integer: a sign if it is negative, then its digits. -/
def printInt (n : Int) : Bytes :=
  if n < 0 then 0x2D :: natDigits n.natAbs else natDigits n.natAbs

theorem ofDigits_natDigits (n : Nat) : ofDigits (natDigits n) = n :=
  ofDigits_digitsFuel (n + 1) n (Nat.lt_succ_self n)

theorem natDigits_head (n : Nat) : ((natDigits n).head? == some 0x2D) = false := by
  obtain ⟨d, ds, heq, -⟩ := digitsFuel_head (n + 1) n (Nat.lt_succ_self n)
  have hd : isDigit d = true := digitsFuel_isDigit (n + 1) n d (by rw [heq]; simp)
  rw [natDigits, heq]
  have hne : d ≠ 0x2D := by rintro rfl; revert hd; decide
  simpa using hne

theorem natDigits_ne_nil (n : Nat) : natDigits n ≠ [] := by
  obtain ⟨d, ds, heq, -⟩ := digitsFuel_head (n + 1) n (Nat.lt_succ_self n)
  rw [natDigits, heq]
  exact List.cons_ne_nil d ds

theorem printInt_ne_nil (n : Int) : printInt n ≠ [] := by
  unfold printInt
  split
  · exact List.cons_ne_nil _ _
  · exact natDigits_ne_nil _

/-- Digits are ASCII. -/
theorem isDigit_le {b : UInt8} (h : isDigit b = true) : b ≤ 0x7F := by
  have hle : b ≤ 57 := of_decide_eq_true (Bool.and_eq_true_iff.mp h).2
  exact UInt8.le_trans hle (by decide)

theorem natDigits_ascii (n : Nat) : ∀ b ∈ natDigits n, b ≤ 0x7F := fun b hb =>
  isDigit_le (digitsFuel_isDigit _ _ b hb)

theorem printInt_ascii (n : Int) : ∀ b ∈ printInt n, b ≤ 0x7F := by
  unfold printInt
  split
  · intro b hb
    rcases List.mem_cons.mp hb with rfl | hb
    · decide
    · exact natDigits_ascii _ b hb
  · exact natDigits_ascii _

/-! ## Fields of fixed width -/

/-- The last `width` digits of a number, zeros included. -/
def fixedDigits : Nat → Nat → Bytes
  | 0, _ => []
  | width + 1, n => fixedDigits width (n / 10) ++ [digit (n % 10)]

/-- The number in the first `width` bytes, which must be digits, and the bytes after it. -/
def readFixed (width : Nat) (s : Bytes) : Option (Nat × Bytes) :=
  if (s.take width).length = width ∧ (s.take width).all isDigit = true then
    some (ofDigits (s.take width), s.drop width)
  else none

/-- An integer that is all of a text, as `printInt` writes it. -/
def readInt (s : Bytes) : Option Int :=
  match s with
  | 0x2D :: ds => if ds ≠ [] ∧ ds.all isDigit = true then some (-(ofDigits ds : Int)) else none
  | ds => if ds ≠ [] ∧ ds.all isDigit = true then some (ofDigits ds) else none

@[simp] theorem fixedDigits_length (width : Nat) :
    ∀ n, (fixedDigits width n).length = width := by
  induction width with
  | zero => intro n; rfl
  | succ width ih =>
    intro n
    rw [fixedDigits, List.length_append, ih]
    rfl

theorem fixedDigits_isDigit (width : Nat) :
    ∀ n, (fixedDigits width n).all isDigit = true := by
  induction width with
  | zero => intro n; rfl
  | succ width ih =>
    intro n
    have hd : isDigit (digit (n % 10)) = true := isDigit_digit (by omega)
    rw [fixedDigits, List.all_append, ih, Bool.true_and, List.all_cons, hd]
    rfl

theorem ofDigits_fixedDigits (width : Nat) :
    ∀ n, n < 10 ^ width → ofDigits (fixedDigits width n) = n := by
  induction width with
  | zero =>
    intro n h
    have hn : n = 0 := by omega
    rw [hn]; rfl
  | succ width ih =>
    intro n h
    rw [fixedDigits, ofDigits_snoc, ih (n / 10) (by omega), digit_toNat (by omega)]
    omega

/-- A field is read back, whatever follows it. -/
theorem readFixed_fixedDigits {width n : Nat} (h : n < 10 ^ width) (s : Bytes) :
    readFixed width (fixedDigits width n ++ s) = some (n, s) := by
  have hlen := fixedDigits_length width n
  have htake : (fixedDigits width n ++ s).take width = fixedDigits width n :=
    List.take_left' hlen
  have hdrop : (fixedDigits width n ++ s).drop width = s := List.drop_left' hlen
  rw [readFixed, htake, hdrop, if_pos ⟨hlen, fixedDigits_isDigit width n⟩,
    ofDigits_fixedDigits width n h]

/-- The smaller number's field comes first. -/
theorem fixedDigits_lt (width : Nat) :
    ∀ n m, n < m → m < 10 ^ width → ∀ u v : Bytes,
      fixedDigits width n ++ u < fixedDigits width m ++ v := by
  induction width with
  | zero => intro n m hlt hm; omega
  | succ width ih =>
    intro n m hlt hm u v
    rw [fixedDigits, fixedDigits, List.append_assoc, List.append_assoc]
    rcases Nat.lt_or_eq_of_le (show n / 10 ≤ m / 10 by omega) with hhigh | hhigh
    · exact ih (n / 10) (m / 10) hhigh (by omega) _ _
    · -- the numbers differ in the last digit only
      rw [hhigh]
      apply List.append_left_lt
      apply List.cons_lt_cons_iff.mpr
      left
      rw [UInt8.lt_iff_toNat_lt, digit_toNat (by omega), digit_toNat (by omega)]
      omega

/-- Fields of one width compare as their numbers do, and then as what follows them. -/
theorem fixedDigits_append_lt {width n m : Nat} {u v : Bytes} (hm : m < 10 ^ width)
    (h : n < m ∨ n = m ∧ u < v) : fixedDigits width n ++ u < fixedDigits width m ++ v := by
  rcases h with hlt | ⟨heq, huv⟩
  · exact fixedDigits_lt width n m hlt hm u v
  · rw [heq]
    exact List.append_left_lt huv

/-- The digits do not depend on the fuel, if there is enough. -/
theorem digitsFuel_fuel : ∀ f g n, n < f → n < g → digitsFuel f n = digitsFuel g n := by
  intro f
  induction f with
  | zero => intro g n h; omega
  | succ f ih =>
    intro g n hf hg
    obtain ⟨g, rfl⟩ : ∃ g', g = g' + 1 := ⟨g - 1, by omega⟩
    unfold digitsFuel
    split
    · rfl
    · rw [ih g (n / 10) (by omega) (by omega)]

theorem natDigits_of_lt {n : Nat} (h : n < 10) : natDigits n = [digit n] := by
  rw [natDigits, digitsFuel, if_pos h]

theorem natDigits_step {n : Nat} (h : ¬ n < 10) :
    natDigits n = natDigits (n / 10) ++ [digit (n % 10)] := by
  rw [natDigits, digitsFuel, if_neg h, natDigits]
  rw [digitsFuel_fuel n (n / 10 + 1) (n / 10) (by omega) (by omega)]

/-- A number without leading zeros fills a field of its own length. -/
theorem natDigits_eq_fixedDigits (width : Nat) :
    ∀ n, 10 ^ width ≤ n → n < 10 ^ (width + 1) → natDigits n = fixedDigits (width + 1) n := by
  induction width with
  | zero =>
    intro n hlo hhi
    have hn : n < 10 := by omega
    rw [natDigits_of_lt hn, fixedDigits, fixedDigits, Nat.mod_eq_of_lt hn]
    rfl
  | succ width ih =>
    intro n hlo hhi
    have hpos : 0 < 10 ^ width := Nat.pow_pos (by decide)
    rw [natDigits_step (by omega), ih (n / 10) (by omega) (by omega)]
    rfl

theorem fixedDigits_zero (width : Nat) : fixedDigits width 0 = List.replicate width 0x30 := by
  induction width with
  | zero => rfl
  | succ width ih =>
    rw [fixedDigits, Nat.zero_div, ih, List.replicate_succ']
    rfl

/-- Zeros on the left fill a number's digits up to the width of its field. -/
theorem replicate_natDigits (width : Nat) :
    ∀ n, 0 < width → n < 10 ^ width →
      List.replicate (width - (natDigits n).length) 0x30 ++ natDigits n = fixedDigits width n := by
  induction width with
  | zero => intro n h; omega
  | succ width ih =>
    intro n _ hn
    by_cases hsmall : n < 10
    · have hzero : n / 10 = 0 := by omega
      rw [natDigits_of_lt hsmall, fixedDigits, hzero, fixedDigits_zero,
        Nat.mod_eq_of_lt hsmall]
      rfl
    · have hwidth : 0 < width := by
        rcases Nat.eq_zero_or_pos width with rfl | h
        · omega
        · exact h
      rw [natDigits_step hsmall, fixedDigits, ← ih (n / 10) hwidth (by omega),
        List.length_append, List.append_assoc]
      rw [show width + 1 - ((natDigits (n / 10)).length + [digit (n % 10)].length) =
        width - (natDigits (n / 10)).length from Nat.add_sub_add_right _ _ _]

theorem readInt_printInt (n : Int) : readInt (printInt n) = some n := by
  have hne := natDigits_ne_nil n.natAbs
  have hdigits : (natDigits n.natAbs).all isDigit = true :=
    List.all_eq_true.mpr (digitsFuel_isDigit _ _)
  have hval := ofDigits_natDigits n.natAbs
  unfold printInt
  split
  · rename_i hneg
    show (if natDigits n.natAbs ≠ [] ∧ (natDigits n.natAbs).all isDigit = true then _ else none) = _
    rw [if_pos ⟨hne, hdigits⟩, hval]
    exact congrArg some (by omega)
  · rename_i hpos
    have hhead := natDigits_head n.natAbs
    unfold readInt
    split
    · rename_i ds heq
      rw [heq] at hhead
      nomatch hhead
    · rw [if_pos ⟨hne, hdigits⟩, hval]
      exact congrArg some (by omega)

end Decimal
