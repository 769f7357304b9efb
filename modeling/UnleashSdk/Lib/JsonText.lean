/-
  A JSON LIBRARY, from the grammar: compact printer, parser, and the four promises proved.

  The printer writes no white space, members in key order, and escapes exactly the quote, the
  backslash and the control bytes.  The parser reads the whole grammar: white space between
  tokens, every escape (surrogate pairs included), integers, and numbers with a fraction or an
  exponent, which it keeps as their literal.  A repeated member name keeps its last value.

  Both recursions of the parser are bounded by a fuel that the length of the text supplies.  The
  round trip is one induction on that fuel, for values, items and members at once (`parse_core`);
  its only arithmetic is `cost_le`, that a printed value is never shorter than the fuel it needs.
-/
import Mathlib.Algebra.Order.Ring.Int
import UnleashSdk.Lib.Decimal
import UnleashSdk.Lib.Json

set_option linter.unusedVariables false

namespace JsonText

open Decimal

/-! ## Numbers -/

/-- The bytes a number is made of. -/
def isNumberByte (b : UInt8) : Bool :=
  isDigit b || b == 0x2B || b == 0x2D || b == 0x2E || b == 0x45 || b == 0x65

/-- An integer part: digits without a leading zero. -/
def isIntPart (ds : Bytes) : Bool :=
  match ds with
  | [] => false
  | d :: rest => ds.all isDigit && (d != 48 || rest.isEmpty)

/-- What follows the integer part: a fraction, an exponent, both or nothing. -/
def isTailPart (t : Bytes) : Bool :=
  let afterFrac :=
    match t with
    | 0x2E :: t =>
      if (t.takeWhile isDigit).isEmpty then none else some (t.dropWhile isDigit)
    | t => some t
  match afterFrac with
  | none => false
  | some [] => true
  | some (e :: t) =>
    let t := match t with
      | s :: t' => if s == 0x2B || s == 0x2D then t' else t
      | [] => []
    (e == 0x45 || e == 0x65) && !t.isEmpty && t.all isDigit

/-- The value of a number's bytes: an integer that fits into 64 bits, else the literal. -/
def number (lit : Bytes) : Option Json :=
  let neg := lit.head? == some 0x2D
  let body := if neg then lit.tail else lit
  if isIntPart body then
    let n : Int := if neg then -(ofDigits body : Int) else ofDigits body
    if -2 ^ 63 ≤ n ∧ n < 2 ^ 64 then some (.int n) else some (.float lit)
  else if isIntPart (body.takeWhile isDigit) && isTailPart (body.dropWhile isDigit) then
    some (.float lit)
  else none

theorem isDigit_isNumberByte {b : UInt8} (h : isDigit b = true) : isNumberByte b = true := by
  simp [isNumberByte, h]

theorem natDigits_isIntPart (n : Nat) : isIntPart (natDigits n) = true := by
  obtain ⟨d, ds, heq, hzero⟩ := digitsFuel_head (n + 1) n (Nat.lt_succ_self n)
  have hall : (natDigits n).all isDigit = true :=
    List.all_eq_true.mpr (digitsFuel_isDigit (n + 1) n)
  rw [natDigits, heq] at hall ⊢
  simp only [isIntPart, hall, Bool.true_and, Bool.or_eq_true, bne_iff_ne, List.isEmpty_iff]
  by_cases hd : d = 48
  · exact Or.inr (hzero hd)
  · exact Or.inl hd

theorem number_printInt {n : Int} (h : -2 ^ 63 ≤ n ∧ n < 2 ^ 64) :
    number (printInt n) = some (.int n) := by
  by_cases hn : n < 0
  · have hval : -((natDigits n.natAbs |> ofDigits : Nat) : Int) = n := by
      rw [ofDigits_natDigits]; omega
    simpa [number, printInt, hn, natDigits_isIntPart, hval] using h
  · have hval : ((natDigits n.natAbs |> ofDigits : Nat) : Int) = n := by
      rw [ofDigits_natDigits]; omega
    simpa [number, printInt, hn, natDigits_head, natDigits_isIntPart, hval] using h

theorem printInt_isNumberByte (n : Int) : ∀ b ∈ printInt n, isNumberByte b = true := by
  have hdigits : ∀ b ∈ natDigits n.natAbs, isNumberByte b = true := fun b hb =>
    isDigit_isNumberByte (digitsFuel_isDigit _ _ b hb)
  unfold printInt
  split
  · intro b hb
    rcases List.mem_cons.mp hb with rfl | hb
    · decide
    · exact hdigits b hb
  · exact hdigits

/-! ## Strings -/

def hexDigit (n : Nat) : UInt8 := if n < 10 then UInt8.ofNat (48 + n) else UInt8.ofNat (87 + n)

def hexVal (b : UInt8) : Option Nat :=
  if 48 ≤ b && b ≤ 57 then some (b.toNat - 48)
  else if 97 ≤ b && b ≤ 102 then some (b.toNat - 87)
  else if 65 ≤ b && b ≤ 70 then some (b.toNat - 55)
  else none

/-- Four hexadecimal digits. -/
def hex4 (a b c d : UInt8) : Option Nat :=
  match hexVal a, hexVal b, hexVal c, hexVal d with
  | some a, some b, some c, some d => some (((a * 16 + b) * 16 + c) * 16 + d)
  | _, _, _, _ => none

/-- The UTF-8 bytes of a code point. -/
def utf8Encode (u : Nat) : Bytes :=
  if u < 0x80 then [UInt8.ofNat u]
  else if u < 0x800 then [UInt8.ofNat (0xC0 + u / 64), UInt8.ofNat (0x80 + u % 64)]
  else if u < 0x10000 then
    [UInt8.ofNat (0xE0 + u / 4096), UInt8.ofNat (0x80 + u / 64 % 64), UInt8.ofNat (0x80 + u % 64)]
  else
    [UInt8.ofNat (0xF0 + u / 262144), UInt8.ofNat (0x80 + u / 4096 % 64),
      UInt8.ofNat (0x80 + u / 64 % 64), UInt8.ofNat (0x80 + u % 64)]

/-- The byte of a two-character escape. -/
def unescape (e : UInt8) : Option UInt8 :=
  if e = 0x22 || e = 0x5C || e = 0x2F then some e
  else if e = 0x62 then some 0x08
  else if e = 0x66 then some 0x0C
  else if e = 0x6E then some 0x0A
  else if e = 0x72 then some 0x0D
  else if e = 0x74 then some 0x09
  else none

def escapeByte (b : UInt8) : Bytes :=
  if b = 0x22 then [0x5C, 0x22]
  else if b = 0x5C then [0x5C, 0x5C]
  else if b = 0x08 then [0x5C, 0x62]
  else if b = 0x0C then [0x5C, 0x66]
  else if b = 0x0A then [0x5C, 0x6E]
  else if b = 0x0D then [0x5C, 0x72]
  else if b = 0x09 then [0x5C, 0x74]
  else if b < 0x20 then
    [0x5C, 0x75, 0x30, 0x30, hexDigit (b.toNat / 16), hexDigit (b.toNat % 16)]
  else [b]

def printString (s : Bytes) : Bytes := 0x22 :: (s.flatMap escapeByte ++ [0x22])

/-- Put `pre` in front of the string that was read. -/
def prepend (pre : Bytes) (r : Option (Bytes × Bytes)) : Option (Bytes × Bytes) :=
  r.map fun p => (pre ++ p.1, p.2)

/-- What follows a backslash: the bytes it stands for, and the text after it. -/
def parseEscape : Bytes → Option (Bytes × Bytes)
  | [] => none
  | e :: t =>
    if e = 0x75 then
      match t with
      | h₁ :: h₂ :: h₃ :: h₄ :: t =>
        match hex4 h₁ h₂ h₃ h₄ with
        | none => none
        | some u =>
          if 0xD800 ≤ u ∧ u < 0xDC00 then
            -- the first half of a surrogate pair needs its second half
            match t with
            | x :: y :: g₁ :: g₂ :: g₃ :: g₄ :: t =>
              match hex4 g₁ g₂ g₃ g₄ with
              | none => none
              | some v =>
                if x = 0x5C ∧ y = 0x75 ∧ 0xDC00 ≤ v ∧ v < 0xE000 then
                  some (utf8Encode (0x10000 + (u - 0xD800) * 1024 + (v - 0xDC00)), t)
                else none
            | _ => none
          else if 0xDC00 ≤ u ∧ u < 0xE000 then none
          else some (utf8Encode u, t)
      | _ => none
    else (unescape e).map fun b => ([b], t)

/-- The rest of a string after its opening quote: its bytes, and what follows the closing one. -/
def parseString : Nat → Bytes → Option (Bytes × Bytes)
  | 0, _ => none
  | _, [] => none
  | fuel + 1, c :: t =>
    if c = 0x22 then some ([], t)
    else if c = 0x5C then
      match parseEscape t with
      | none => none
      | some (b, t') => prepend b (parseString fuel t')
    else if c < 0x20 then none
    else prepend [c] (parseString fuel t)

theorem hex4_control : ∀ b : Fin 32,
    hex4 0x30 0x30 (hexDigit (b.val / 16)) (hexDigit (b.val % 16)) = some b.val := by
  decide

/-- The escape of a control byte reads back. -/
theorem parseEscape_control {b : UInt8} (h : b < 0x20) (t : Bytes) :
    parseEscape (0x75 :: 0x30 :: 0x30 :: hexDigit (b.toNat / 16) :: hexDigit (b.toNat % 16) :: t) =
      some ([b], t) := by
  have hlt : b.toNat < 32 := UInt8.lt_iff_toNat_lt.mp h
  have hhex := hex4_control ⟨b.toNat, hlt⟩
  have henc : utf8Encode b.toNat = [b] := by
    rw [utf8Encode, if_pos (by omega), UInt8.ofNat_toNat]
  simp only at hhex
  simp only [parseEscape, if_true, hhex]
  rw [if_neg (by omega), if_neg (by omega), henc]

theorem parseString_escapeByte (fuel : Nat) (b : UInt8) (t : Bytes) :
    parseString (fuel + 1) (escapeByte b ++ t) = prepend [b] (parseString fuel t) := by
  unfold escapeByte
  split
  · subst b; rfl
  split
  · subst b; rfl
  split
  · subst b; rfl
  split
  · subst b; rfl
  split
  · subst b; rfl
  split
  · subst b; rfl
  split
  · subst b; rfl
  split
  · rename_i h
    show (match parseEscape (0x75 :: 0x30 :: 0x30 :: hexDigit (b.toNat / 16) ::
        hexDigit (b.toNat % 16) :: t) with
      | none => none
      | some (b, t') => prepend b (parseString fuel t')) = _
    rw [parseEscape_control h]
  · rename_i hq hb _ _ _ _ _ hc
    show (if b = 0x22 then _ else if b = 0x5C then _ else if b < 0x20 then none
      else prepend [b] (parseString fuel t)) = _
    rw [if_neg hq, if_neg hb, if_neg hc]

/-- A printed string reads back, whatever follows its closing quote. -/
theorem parseString_print (s rest : Bytes) : ∀ fuel, s.length < fuel →
    parseString fuel (s.flatMap escapeByte ++ 0x22 :: rest) = some (s, rest) := by
  induction s with
  | nil =>
    intro fuel h
    obtain ⟨f, rfl⟩ := Nat.exists_eq_succ_of_ne_zero (Nat.pos_iff_ne_zero.mp h)
    rfl
  | cons b s ih =>
    intro fuel h
    have hpos : 0 < fuel := Nat.lt_of_le_of_lt (Nat.zero_le _) h
    obtain ⟨f, rfl⟩ := Nat.exists_eq_succ_of_ne_zero (Nat.ne_of_gt hpos)
    rw [List.flatMap_cons, List.append_assoc, parseString_escapeByte,
      ih f (by simpa using h)]
    rfl

/-- A printed string is longer than the string. -/
theorem length_le_escape (s : Bytes) : s.length ≤ (s.flatMap escapeByte).length := by
  induction s with
  | nil => exact Nat.le_refl 0
  | cons b s ih =>
    have hb : 1 ≤ (escapeByte b).length := by
      unfold escapeByte
      repeat' split
      all_goals simp
    rw [List.flatMap_cons, List.length_append, List.length_cons]
    omega

/-! ## Values -/

mutual

def print : Json → Bytes
  | .null => bytes "null"
  | .bool true => bytes "true"
  | .bool false => bytes "false"
  | .int n => printInt n
  | .float literal => literal
  | .str s => printString s
  | .arr xs => 0x5B :: printItems xs
  | .obj ms => 0x7B :: printMembers ms

/-- The items of an array and its closing bracket. -/
def printItems : List Json → Bytes
  | [] => [0x5D]
  | x :: xs => print x ++ printMoreItems xs

def printMoreItems : List Json → Bytes
  | [] => [0x5D]
  | x :: xs => 0x2C :: (print x ++ printMoreItems xs)

/-- The members of an object and its closing brace. -/
def printMembers : List (Bytes × Json) → Bytes
  | [] => [0x7D]
  | (k, v) :: ms => printString k ++ 0x3A :: (print v ++ printMoreMembers ms)

def printMoreMembers : List (Bytes × Json) → Bytes
  | [] => [0x7D]
  | (k, v) :: ms => 0x2C :: (printString k ++ 0x3A :: (print v ++ printMoreMembers ms))

end

def isWs (b : UInt8) : Bool := b == 0x20 || b == 0x09 || b == 0x0A || b == 0x0D

def skipWs (t : Bytes) : Bytes := t.dropWhile isWs

/-- A literal name, or nothing. -/
def parseName (name : Bytes) (j : Json) (t : Bytes) : Option (Json × Bytes) :=
  if name.isPrefixOf t then some (j, t.drop name.length) else none

def parseNumber (t : Bytes) : Option (Json × Bytes) :=
  (number (t.takeWhile isNumberByte)).map fun j => (j, t.dropWhile isNumberByte)

mutual

/-- A value after optional white space, and the text after it. -/
def parseValue : Nat → Bytes → Option (Json × Bytes)
  | 0, _ => none
  | fuel + 1, t =>
    match skipWs t with
    | [] => none
    | c :: t =>
      if c = 0x22 then (parseString (t.length + 1) t).map fun p => (.str p.1, p.2)
      else if c = 0x5B then
        match skipWs t with
        | 0x5D :: t => some (.arr [], t)
        | t => (parseItems fuel t).map fun p => (.arr p.1, p.2)
      else if c = 0x7B then
        match skipWs t with
        | 0x7D :: t => some (.obj [], t)
        | t => (parseMembers fuel t).map fun p => (.obj (Json.assignAll p.1), p.2)
      else if c = 0x6E then parseName (bytes "null") .null (c :: t)
      else if c = 0x74 then parseName (bytes "true") (.bool true) (c :: t)
      else if c = 0x66 then parseName (bytes "false") (.bool false) (c :: t)
      else parseNumber (c :: t)

/-- The items of a non-empty array, up to its closing bracket. -/
def parseItems : Nat → Bytes → Option (List Json × Bytes)
  | 0, _ => none
  | fuel + 1, t =>
    match parseValue fuel t with
    | none => none
    | some (x, t) =>
      match skipWs t with
      | 0x5D :: t => some ([x], t)
      | 0x2C :: t => (parseItems fuel t).map fun p => (x :: p.1, p.2)
      | _ => none

/-- The members of a non-empty object, up to its closing brace. -/
def parseMembers : Nat → Bytes → Option (List (Bytes × Json) × Bytes)
  | 0, _ => none
  | fuel + 1, t =>
    match skipWs t with
    | 0x22 :: t =>
      match parseString (t.length + 1) t with
      | none => none
      | some (k, t) =>
        match skipWs t with
        | 0x3A :: t =>
          match parseValue fuel t with
          | none => none
          | some (v, t) =>
            match skipWs t with
            | 0x7D :: t => some ([(k, v)], t)
            | 0x2C :: t => (parseMembers fuel t).map fun p => ((k, v) :: p.1, p.2)
            | _ => none
        | _ => none
    | _ => none

end

/-! ## The fuel a value needs -/

mutual

def cost : Json → Nat
  | .arr xs => 1 + costItems xs
  | .obj ms => 1 + costMembers ms
  | _ => 1

def costItems : List Json → Nat
  | [] => 0
  | x :: xs => 1 + cost x + costItems xs

def costMembers : List (Bytes × Json) → Nat
  | [] => 0
  | (_, v) :: ms => 1 + cost v + costMembers ms

end

/-- What may follow a value: nothing, a comma, or a closing bracket or brace. -/
def Delimited (t : Bytes) : Prop := ∀ b, t.head? = some b → b = 0x2C ∨ b = 0x5D ∨ b = 0x7D

theorem Delimited.not_number {t : Bytes} (h : Delimited t) :
    ∀ b, t.head? = some b → isNumberByte b = false := by
  intro b hb
  rcases h b hb with rfl | rfl | rfl <;> decide

theorem printMoreItems_delimited (xs : List Json) (t : Bytes) :
    Delimited (printMoreItems xs ++ t) := by
  intro b hb
  cases xs with
  | nil => exact Or.inr (Or.inl (Option.some.inj hb).symm)
  | cons x xs => exact Or.inl (Option.some.inj hb).symm

theorem printMoreMembers_delimited (ms : List (Bytes × Json)) (t : Bytes) :
    Delimited (printMoreMembers ms ++ t) := by
  intro b hb
  cases ms with
  | nil => exact Or.inr (Or.inr (Option.some.inj hb).symm)
  | cons p ms => exact Or.inl (Option.some.inj hb).symm

/-! ## The round trip -/

theorem skipWs_cons {b : UInt8} (h : isWs b = false) (t : Bytes) : skipWs (b :: t) = b :: t := by
  rw [skipWs, List.dropWhile_cons, h]; rfl

theorem takeWhile_append_stop {p : UInt8 → Bool} {s t : Bytes} (hs : ∀ b ∈ s, p b = true)
    (ht : ∀ b, t.head? = some b → p b = false) :
    (s ++ t).takeWhile p = s ∧ (s ++ t).dropWhile p = t := by
  rw [List.takeWhile_append_of_pos hs, List.dropWhile_append_of_pos hs]
  cases t with
  | nil => simp
  | cons b t => simp [ht b rfl]

theorem parseNumber_print {n : Int} (hn : -2 ^ 63 ≤ n ∧ n < 2 ^ 64) {t : Bytes}
    (ht : Delimited t) : parseNumber (printInt n ++ t) = some (.int n, t) := by
  obtain ⟨htake, hdrop⟩ := takeWhile_append_stop (printInt_isNumberByte n) ht.not_number
  rw [parseNumber, htake, hdrop, number_printInt hn]
  rfl

theorem parseName_append (name : Bytes) (j : Json) (t : Bytes) :
    parseName name j (name ++ t) = some (j, t) := by
  have hpre : name.isPrefixOf (name ++ t) = true := by
    rw [List.isPrefixOf_iff_prefix]; exact List.prefix_append name t
  rw [parseName, if_pos hpre, List.drop_left]

theorem parseString_printString (s t : Bytes) {u : Bytes}
    (hu : u = s.flatMap escapeByte ++ 0x22 :: t) :
    parseString (u.length + 1) u = some (s, t) := by
  subst hu
  refine parseString_print s t _ ?_
  have := length_le_escape s
  rw [List.length_append, List.length_cons]
  omega

/-- A printed value starts with a byte that is neither white space nor a closing bracket. -/
theorem print_head {j : Json} (hj : j.Normal) :
    ∃ c t, print j = c :: t ∧ isWs c = false ∧ c ≠ 0x5D := by
  cases j with
  | null => exact ⟨0x6E, _, rfl, by decide, by decide⟩
  | bool b =>
    cases b with
    | true => exact ⟨0x74, _, rfl, by decide, by decide⟩
    | false => exact ⟨0x66, _, rfl, by decide, by decide⟩
  | int n =>
    obtain ⟨c, t, heq⟩ := List.exists_cons_of_ne_nil (printInt_ne_nil n)
    have hc : isNumberByte c = true := printInt_isNumberByte n c (by rw [heq]; simp)
    refine ⟨c, t, heq, ?_, ?_⟩
    · by_contra hws
      simp only [isWs, Bool.not_eq_false, Bool.or_eq_true, beq_iff_eq] at hws
      rcases hws with ((rfl | rfl) | rfl) | rfl <;> exact absurd hc (by decide)
    · rintro rfl
      exact absurd hc (by decide)
  | float l => exact hj.elim
  | str s => exact ⟨0x22, _, rfl, by decide, by decide⟩
  | arr xs => exact ⟨0x5B, _, rfl, by decide, by decide⟩
  | obj ms => exact ⟨0x7B, _, rfl, by decide, by decide⟩

theorem parseValue_int {n : Int} (hn : -2 ^ 63 ≤ n ∧ n < 2 ^ 64) {rest : Bytes}
    (hrest : Delimited rest) (f : Nat) :
    parseValue (f + 1) (printInt n ++ rest) = some (.int n, rest) := by
  obtain ⟨c, t, heq, hws, -⟩ := print_head (j := .int n) hn
  have heq : printInt n = c :: t := heq
  have hc : isNumberByte c = true := printInt_isNumberByte n c (by rw [heq]; simp)
  -- no other kind of value starts with a byte of a number
  have hne : ∀ b, isNumberByte b = false → c ≠ b := by
    rintro b hb rfl
    rw [hc] at hb
    nomatch hb
  have hnum := parseNumber_print hn hrest
  rw [heq, List.cons_append] at hnum ⊢
  simp only [parseValue, skipWs_cons hws]
  rw [if_neg (hne _ (by decide)), if_neg (hne _ (by decide)), if_neg (hne _ (by decide)),
    if_neg (hne _ (by decide)), if_neg (hne _ (by decide)), if_neg (hne _ (by decide)), hnum]

theorem parseValue_str (s rest : Bytes) (f : Nat) :
    parseValue (f + 1) (printString s ++ rest) = some (.str s, rest) := by
  have htext : s.flatMap escapeByte ++ [0x22] ++ rest = s.flatMap escapeByte ++ 0x22 :: rest :=
    List.append_assoc _ _ _
  rw [printString, List.cons_append]
  simp only [parseValue, skipWs_cons (show isWs 0x22 = false by decide), if_true,
    parseString_printString s rest htext]
  rfl

/-- An array reads back when its items do. -/
theorem parseValue_arr {xs : List Json} (hxs : Json.NormalList xs) {rest : Bytes} {f : Nat}
    (hitems : xs ≠ [] → parseItems f (printItems xs ++ rest) = some (xs, rest)) :
    parseValue (f + 1) (print (.arr xs) ++ rest) = some (.arr xs, rest) := by
  rw [print, List.cons_append]
  cases xs with
  | nil => rfl
  | cons x xs =>
    obtain ⟨c, t, heq, hws, hne⟩ := print_head hxs.1
    have hitems := hitems (List.cons_ne_nil x xs)
    rw [printItems, heq, List.cons_append, List.cons_append] at hitems ⊢
    simp only [parseValue, skipWs_cons (show isWs 0x5B = false by decide), skipWs_cons hws]
    rw [if_neg (by decide), if_pos trivial]
    split
    · rename_i u hu
      exact absurd (List.cons.inj hu).1 hne
    · rw [hitems]; rfl

/-- An object reads back when its members do. -/
theorem parseValue_obj {ms : List (Bytes × Json)} (hms : Json.Sorted ms) {rest : Bytes} {f : Nat}
    (hmembers : ms ≠ [] → parseMembers f (printMembers ms ++ rest) = some (ms, rest)) :
    parseValue (f + 1) (print (.obj ms) ++ rest) = some (.obj ms, rest) := by
  rw [print, List.cons_append]
  cases ms with
  | nil => rfl
  | cons p ms =>
    obtain ⟨k, v⟩ := p
    have hmembers := hmembers (List.cons_ne_nil _ _)
    rw [printMembers, printString, List.cons_append, List.cons_append] at hmembers ⊢
    simp only [parseValue, skipWs_cons (show isWs 0x7B = false by decide),
      skipWs_cons (show isWs 0x22 = false by decide)]
    rw [if_neg (by decide), if_neg (by decide), if_pos trivial]
    split
    · rename_i u hu
      exact absurd (List.cons.inj hu).1 (by decide)
    · rw [hmembers, Option.map_some, Json.assignAll_of_sorted hms]

theorem parseItems_cons {x : Json} {xs : List Json} {rest : Bytes} {f : Nat}
    (hx : ∀ t, Delimited t → parseValue f (print x ++ t) = some (x, t))
    (hxs : xs ≠ [] → parseItems f (printItems xs ++ rest) = some (xs, rest)) :
    parseItems (f + 1) (printItems (x :: xs) ++ rest) = some (x :: xs, rest) := by
  rw [printItems, List.append_assoc]
  simp only [parseItems, hx _ (printMoreItems_delimited xs rest)]
  cases xs with
  | nil => rfl
  | cons y ys =>
    have hys := hxs (List.cons_ne_nil y ys)
    rw [printMoreItems, List.cons_append, skipWs_cons (by decide)]
    rw [printItems] at hys
    simp only [hys]
    rfl

theorem parseMembers_cons {k : Bytes} {v : Json} {ms : List (Bytes × Json)} {rest : Bytes}
    {f : Nat} (hv : ∀ t, Delimited t → parseValue f (print v ++ t) = some (v, t))
    (hms : ms ≠ [] → parseMembers f (printMembers ms ++ rest) = some (ms, rest)) :
    parseMembers (f + 1) (printMembers ((k, v) :: ms) ++ rest) = some ((k, v) :: ms, rest) := by
  have htext :
      (k.flatMap escapeByte ++ [0x22]) ++ (0x3A :: (print v ++ printMoreMembers ms)) ++ rest =
        k.flatMap escapeByte ++ 0x22 :: (0x3A :: (print v ++ (printMoreMembers ms ++ rest))) := by
    simp [List.append_assoc]
  rw [printMembers, printString, List.cons_append, List.cons_append]
  simp only [parseMembers, skipWs_cons (show isWs 0x22 = false by decide),
    parseString_printString k _ htext, skipWs_cons (show isWs 0x3A = false by decide),
    hv _ (printMoreMembers_delimited ms rest)]
  cases ms with
  | nil => rfl
  | cons p ms =>
    obtain ⟨k', v'⟩ := p
    have hrest := hms (List.cons_ne_nil _ _)
    rw [printMoreMembers, List.cons_append, skipWs_cons (by decide)]
    rw [printMembers] at hrest
    simp only [hrest]
    rfl

/-- **The round trip, with fuel.**  By induction on the fuel: a value spends one unit and hands
    the rest to its items or members, each of which spends one more. -/
theorem parse_core (f : Nat) :
    (∀ j, cost j ≤ f → j.Normal → ∀ rest, Delimited rest →
      parseValue f (print j ++ rest) = some (j, rest)) ∧
    (∀ xs, xs ≠ [] → costItems xs ≤ f → Json.NormalList xs → ∀ rest,
      parseItems f (printItems xs ++ rest) = some (xs, rest)) ∧
    (∀ ms, ms ≠ [] → costMembers ms ≤ f → Json.NormalMembers ms → ∀ rest,
      parseMembers f (printMembers ms ++ rest) = some (ms, rest)) := by
  induction f with
  | zero =>
    refine ⟨fun j hf _ _ _ => ?_, fun xs hne hf _ _ => ?_, fun ms hne hf _ _ => ?_⟩
    · cases j <;> simp [cost] at hf
    · cases xs with
      | nil => exact absurd rfl hne
      | cons x xs => rw [costItems] at hf; omega
    · cases ms with
      | nil => exact absurd rfl hne
      | cons p ms => obtain ⟨k, v⟩ := p; rw [costMembers] at hf; omega
  | succ f ih =>
    obtain ⟨ihValue, ihItems, ihMembers⟩ := ih
    refine ⟨fun j hf hj rest hrest => ?_, fun xs hne hf hxs rest => ?_,
      fun ms hne hf hms rest => ?_⟩
    · cases j with
      | null => exact parseName_append (bytes "null") .null rest
      | bool b =>
        cases b with
        | true => exact parseName_append (bytes "true") (.bool true) rest
        | false => exact parseName_append (bytes "false") (.bool false) rest
      | int n => exact parseValue_int hj hrest f
      | float l => exact hj.elim
      | str s => exact parseValue_str s rest f
      | arr xs =>
        rw [cost] at hf
        exact parseValue_arr hj fun hne => ihItems xs hne (by omega) hj rest
      | obj ms =>
        rw [cost] at hf
        exact parseValue_obj hj.1 fun hne => ihMembers ms hne (by omega) hj.2 rest
    · cases xs with
      | nil => exact absurd rfl hne
      | cons x xs =>
        rw [costItems] at hf
        exact parseItems_cons (ihValue x (by omega) hxs.1) fun hne =>
          ihItems xs hne (by omega) hxs.2 rest
    · cases ms with
      | nil => exact absurd rfl hne
      | cons p ms =>
        obtain ⟨k, v⟩ := p
        rw [costMembers] at hf
        exact parseMembers_cons (ihValue v (by omega) hms.1) fun hne =>
          ihMembers ms hne (by omega) hms.2 rest

mutual

/-- A printed value is long enough to pay for its own parsing. -/
theorem cost_le : ∀ j : Json, j.Normal → cost j ≤ 2 * (print j).length
  | .null, _ => show 1 ≤ _ by decide
  | .bool true, _ => show 1 ≤ _ by decide
  | .bool false, _ => show 1 ≤ _ by decide
  | .int n, _ => by
    have h : 0 < (printInt n).length := List.length_pos_iff.mpr (printInt_ne_nil n)
    rw [cost, print]
    omega
    all_goals exact nofun
  | .float l, h => h.elim
  | .str s, _ => by
    rw [cost, print, printString, List.length_cons]
    omega
    all_goals exact nofun
  | .arr xs, h => by
    have hxs := costItems_le xs h
    have hlen : (printMoreItems xs).length ≤ (printItems xs).length + 1 := by
      cases xs with
      | nil => exact Nat.le_succ 1
      | cons x xs => exact Nat.le_refl _
    rw [cost, print, List.length_cons]
    omega
  | .obj ms, h => by
    have hms := costMembers_le ms h.2
    have hlen : (printMoreMembers ms).length ≤ (printMembers ms).length + 1 := by
      cases ms with
      | nil => exact Nat.le_succ 1
      | cons p ms => obtain ⟨k, v⟩ := p; exact Nat.le_refl _
    rw [cost, print, List.length_cons]
    omega

theorem costItems_le : ∀ xs : List Json, Json.NormalList xs →
    costItems xs + 2 ≤ 2 * (printMoreItems xs).length
  | [], _ => Nat.le_refl 2
  | x :: xs, h => by
    have hx := cost_le x h.1
    have hxs := costItems_le xs h.2
    rw [costItems, printMoreItems, List.length_cons, List.length_append]
    omega

theorem costMembers_le : ∀ ms : List (Bytes × Json), Json.NormalMembers ms →
    costMembers ms + 2 ≤ 2 * (printMoreMembers ms).length
  | [], _ => Nat.le_refl 2
  | (k, v) :: ms, h => by
    have hv := cost_le v h.1
    have hms := costMembers_le ms h.2
    rw [costMembers, printMoreMembers, List.length_cons, List.length_append, List.length_cons,
      List.length_append]
    omega

end

/-! ## The library -/

/-- A whole text: one value, then white space only, and no string that is not UTF-8. -/
def parse (t : Bytes) : Option Json :=
  match parseValue (2 * t.length + 2) t with
  | none => none
  | some (j, rest) => if (skipWs rest).isEmpty && j.utf8 then some j else none

def dump (j : Json) : Option Bytes := if j.utf8 then some (print j) else none

theorem parse_print {j : Json} (hj : j.Normal) (hutf8 : j.utf8 = true) :
    parse (print j) = some j := by
  have hnil : Delimited [] := nofun
  have hvalue := (parse_core (2 * (print j).length + 2)).1 j
    (Nat.le_add_right_of_le (cost_le j hj)) hj [] hnil
  rw [List.append_nil] at hvalue
  simp only [parse, hvalue, hutf8]
  rfl

theorem parse_utf8 {t : Bytes} {j : Json} (h : parse t = some j) : j.utf8 = true := by
  unfold parse at h
  split at h
  · nomatch h
  · split at h
    · rename_i hcond
      rw [← Option.some.inj h]
      exact (Bool.and_eq_true_iff.mp hcond).2
    · nomatch h

theorem space_not_ws {c : UInt8} (hc : Bytes.isSpace c = true) (hws : isWs c = false) :
    c = 0x0B ∨ c = 0x0C := by
  have hval : ∀ b : UInt8, c.toNat = b.toNat → c = b := fun b => UInt8.toNat_inj.mp
  simp only [isWs, Bool.or_eq_false_iff, beq_eq_false_iff_ne] at hws
  simp only [Bytes.isSpace, Bool.or_eq_true, beq_iff_eq, Bool.and_eq_true, decide_eq_true_eq,
    UInt8.le_iff_toNat_le] at hc
  rcases hc with hc | ⟨hlo, hhi⟩
  · exact absurd hc hws.1.1.1
  have hlo : 9 ≤ c.toNat := hlo
  have hhi : c.toNat ≤ 13 := hhi
  have hcases : c.toNat = 9 ∨ c.toNat = 10 ∨ c.toNat = 11 ∨ c.toNat = 12 ∨ c.toNat = 13 := by
    omega
  rcases hcases with h | h | h | h | h
  · exact absurd (hval 9 h) hws.1.1.2
  · exact absurd (hval 10 h) hws.1.2
  · exact Or.inl (hval 11 h)
  · exact Or.inr (hval 12 h)
  · exact absurd (hval 13 h) hws.2

/-- Blank text is no value: the four white space bytes are skipped, and the other two that C
    calls white space start nothing. -/
theorem parse_blank {t : Bytes} (h : ∀ b ∈ t, Bytes.isSpace b = true) : parse t = none := by
  have hvalue : parseValue (2 * t.length + 2) t = none := by
    rw [parseValue]
    split
    · rfl
    · rename_i c u hskip
      have hmem : c ∈ t := by
        have : c ∈ skipWs t := by rw [hskip]; exact List.mem_cons_self
        exact (List.dropWhile_sublist _).subset this
      have hws : isWs c = false := by
        have heq : t.dropWhile isWs = c :: u := hskip
        have hhead := List.head_dropWhile_not isWs (by rw [heq]; exact nofun)
        simpa only [heq, List.head_cons] using hhead
      rcases space_not_ws (h c hmem) hws with rfl | rfl <;> rfl
  rw [parse, hvalue]

/-- The library the rest of the development runs its examples with. -/
def compact : JsonLib where
  parse := parse
  dump := dump
  dump_isSome j := by
    unfold dump
    split
    · rename_i h; exact h.symm
    · rename_i h; exact (Bool.not_eq_true _ ▸ h).symm
  parse_dump := by
    intro j t hj h
    unfold dump at h
    split at h
    · rename_i hutf8
      rw [← Option.some.inj h]
      exact parse_print hj hutf8
    · nomatch h
  parse_utf8 := parse_utf8
  parse_blank := parse_blank

end JsonText
