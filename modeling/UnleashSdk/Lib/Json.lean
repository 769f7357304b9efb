/-
  JSON VALUES AND WHAT A JSON LIBRARY PROMISES ABOUT THEM.

  `Json` is the value a parser returns: an object's members are kept as a sorted map from byte
  strings keeps them, so `assign` (the C++ `object[key] = value`) inserts in key order and
  overwrites.  `Normal` says that a value is in that form throughout, and holds no number that a
  printer could change.

  A library (`JsonLib`) is a parser and a printer with four documented promises:

  * the printer fails exactly on a value that holds a string which is not UTF-8;
  * parsing what was printed from a normal value gives that value back;
  * the parser yields UTF-8 strings only;
  * blank text is no JSON text.

  Everything proved below `JsonLib` holds of every library that keeps them.
-/
import Mathlib.Data.List.Induction
import UnleashSdk.Lib.Bytes

set_option linter.unusedVariables false

/-- A JSON value.  A number that is not an integer is kept as its literal. -/
inductive Json where
  | null
  | bool (b : Bool)
  | int (n : Int)
  | float (literal : Bytes)
  | str (s : Bytes)
  | arr (xs : List Json)
  | obj (members : List (Bytes × Json))

namespace Json

/-! ## Objects as sorted maps -/

/-- Write `v` under `k` in a member list in key order, replacing what is there. -/
def assign {β : Type} (k : Bytes) (v : β) : List (Bytes × β) → List (Bytes × β)
  | [] => [(k, v)]
  | (k', v') :: ms =>
    if k = k' then (k, v) :: ms
    else if k < k' then (k, v) :: (k', v') :: ms
    else (k', v') :: assign k v ms

/-- Members in strictly increasing key order. -/
def Sorted {β : Type} (ms : List (Bytes × β)) : Prop := ms.Pairwise fun p q => p.1 < q.1

/-- The member list that assigning the pairs of `l` in order builds. -/
def assignAll {β : Type} (l : List (Bytes × β)) : List (Bytes × β) :=
  l.foldl (fun ms p => assign p.1 p.2 ms) []

/-- The value of a member; a value that is no object has no members. -/
def find : Json → Bytes → Option Json
  | .obj ms, k => ms.lookup k
  | _, _ => none

/-- The C++ `j[k] = v`: a null value becomes an object first.  (On any other value the C++
    operator throws; no caller does that.) -/
def set : Json → Bytes → Json → Json
  | .null, k, v => .obj [(k, v)]
  | .obj ms, k, v => .obj (assign k v ms)
  | j, _, _ => j

/-- Assigning the pairs of `l` in order: the loop `for (k, v) in l: j[k] = v`. -/
def setAll (j : Json) (l : List (Bytes × Json)) : Json := l.foldl (fun j p => j.set p.1 p.2) j

section Members

variable {β : Type} {ms : List (Bytes × β)} {k : Bytes} {v : β}

theorem sorted_iff_keys : Sorted ms ↔ (ms.map Prod.fst).Pairwise (· < ·) :=
  List.pairwise_map.symm

/-- On a sorted list `assign` adds one member and removes only what it replaces. -/
theorem mem_assign (hs : Sorted ms) {p : Bytes × β} :
    p ∈ assign k v ms ↔ p = (k, v) ∨ (p ∈ ms ∧ p.1 ≠ k) := by
  induction ms with
  | nil => simp [assign]
  | cons q ms ih =>
    obtain ⟨k₁, v₁⟩ := q
    obtain ⟨hhead, htail⟩ := List.pairwise_cons.mp hs
    -- no later member has the first one's key
    have hlater : ∀ r ∈ ms, r.1 ≠ k₁ := fun r hr he =>
      List.lt_irrefl k₁ (he ▸ hhead r hr)
    unfold assign
    split
    · subst k₁
      constructor
      · intro h
        rcases List.mem_cons.mp h with h | h
        · exact Or.inl h
        · exact Or.inr ⟨List.mem_cons_of_mem _ h, hlater p h⟩
      · rintro (h | ⟨h, hne⟩)
        · exact List.mem_cons.mpr (Or.inl h)
        · rcases List.mem_cons.mp h with h | h
          · exact absurd (by rw [h]) hne
          · exact List.mem_cons_of_mem _ h
    · rename_i hne
      split
      · rename_i hlt
        have hnone : ∀ r ∈ (k₁, v₁) :: ms, r.1 ≠ k := by
          intro r hr he
          rcases List.mem_cons.mp hr with hr | hr
          · exact hne (he ▸ by rw [hr])
          · exact List.lt_irrefl k (List.lt_trans hlt (he ▸ hhead r hr))
        constructor
        · intro h
          rcases List.mem_cons.mp h with h | h
          · exact Or.inl h
          · exact Or.inr ⟨h, hnone p h⟩
        · rintro (h | ⟨h, -⟩)
          · exact List.mem_cons.mpr (Or.inl h)
          · exact List.mem_cons_of_mem _ h
      · rw [List.mem_cons, ih htail, List.mem_cons]
        constructor
        · rintro (h | h | ⟨h, hk⟩)
          · exact Or.inr ⟨Or.inl h, by rw [h]; exact fun he => hne he.symm⟩
          · exact Or.inl h
          · exact Or.inr ⟨Or.inr h, hk⟩
        · rintro (h | ⟨h | h, hk⟩)
          · exact Or.inr (Or.inl h)
          · exact Or.inl h
          · exact Or.inr (Or.inr ⟨h, hk⟩)

theorem sorted_assign (hs : Sorted ms) : Sorted (assign k v ms) := by
  induction ms with
  | nil => exact List.pairwise_singleton _ _
  | cons q ms ih =>
    obtain ⟨k₁, v₁⟩ := q
    obtain ⟨hhead, htail⟩ := List.pairwise_cons.mp hs
    unfold assign
    split
    · subst k₁
      exact List.pairwise_cons.mpr ⟨hhead, htail⟩
    · rename_i hne
      split
      · rename_i hlt
        refine List.pairwise_cons.mpr ⟨?_, hs⟩
        intro r hr
        rcases List.mem_cons.mp hr with hr | hr
        · rw [hr]; exact hlt
        · exact List.lt_trans hlt (hhead r hr)
      · rename_i hlt
        have hgt : k₁ < k := by grind
        refine List.pairwise_cons.mpr ⟨?_, ih htail⟩
        intro r hr
        rcases (mem_assign htail).mp hr with hr | ⟨hr, -⟩
        · rw [hr]; exact hgt
        · exact hhead r hr

/-- A key above every key of a sorted list goes to its end. -/
theorem assign_of_gt (h : ∀ p ∈ ms, p.1 < k) : assign k v ms = ms ++ [(k, v)] := by
  induction ms with
  | nil => rfl
  | cons q ms ih =>
    have hq : q.1 < k := h q List.mem_cons_self
    have hne : k ≠ q.1 := fun he => List.lt_irrefl k (he ▸ hq)
    have hnlt : ¬ k < q.1 := fun hlt => List.lt_irrefl k (List.lt_trans hlt hq)
    unfold assign
    rw [if_neg hne, if_neg hnlt, ih fun p hp => h p (List.mem_cons_of_mem q hp)]
    rfl

theorem assignAll_snoc (l : List (Bytes × β)) (p : Bytes × β) :
    assignAll (l ++ [p]) = assign p.1 p.2 (assignAll l) := by
  rw [assignAll, List.foldl_append]; rfl

theorem sorted_assignAll (l : List (Bytes × β)) : Sorted (assignAll l) := by
  induction l using List.reverseRecOn with
  | nil => exact List.Pairwise.nil
  | append_singleton l p ih => rw [assignAll_snoc]; exact sorted_assign ih

theorem nodup_assignAll (l : List (Bytes × β)) : ((assignAll l).map Prod.fst).Nodup := by
  refine List.Pairwise.imp (fun {p q} hlt => ?_) (sorted_iff_keys.mp (sorted_assignAll l))
  rintro rfl
  exact List.lt_irrefl _ hlt

/-- Assigning pairs with distinct keys loses none of them. -/
theorem mem_assignAll {l : List (Bytes × β)} (hl : (l.map Prod.fst).Nodup) {p : Bytes × β} :
    p ∈ assignAll l ↔ p ∈ l := by
  induction l using List.reverseRecOn with
  | nil => exact Iff.rfl
  | append_singleton l q ih =>
    rw [List.map_append, List.nodup_append] at hl
    obtain ⟨hnd, -, hdisj⟩ := hl
    rw [assignAll_snoc, mem_assign (sorted_assignAll l), ih hnd, List.mem_append,
      List.mem_singleton]
    constructor
    · rintro (h | ⟨h, -⟩)
      · exact Or.inr h
      · exact Or.inl h
    · rintro (h | h)
      · exact Or.inr ⟨h, hdisj _ (List.mem_map_of_mem h) _ (List.mem_singleton.mpr rfl)⟩
      · exact Or.inl h

/-- A sorted list is what assigning its own members builds. -/
theorem assignAll_of_sorted {l : List (Bytes × β)} (hl : Sorted l) : assignAll l = l := by
  induction l using List.reverseRecOn with
  | nil => rfl
  | append_singleton l p ih =>
    obtain ⟨hs, -, hlt⟩ := List.pairwise_append.mp hl
    rw [assignAll_snoc, ih hs]
    exact assign_of_gt fun q hq => hlt q hq p (List.mem_singleton.mpr rfl)

/-- A sorted list is determined by what is in it. -/
theorem Sorted.ext {l l' : List (Bytes × β)} (hl : Sorted l) (hl' : Sorted l')
    (h : ∀ p, p ∈ l ↔ p ∈ l') : l = l' := by
  have hnodup : ∀ {ms : List (Bytes × β)}, Sorted ms → ms.Nodup := by
    intro ms hs
    refine List.Pairwise.imp (fun {p q} hlt => ?_) hs
    rintro rfl
    exact List.lt_irrefl _ hlt
  have hperm : l.Perm l' := (List.perm_ext_iff_of_nodup (hnodup hl) (hnodup hl')).mpr h
  refine hperm.eq_of_pairwise (fun p q _ _ hpq hqp => ?_) hl hl'
  exact absurd (List.lt_trans hpq hqp) (List.lt_irrefl _)

/-- Assigning the same pairs in any order builds the same list. -/
theorem assignAll_ext {l l' : List (Bytes × β)} (hl : (l.map Prod.fst).Nodup)
    (hl' : (l'.map Prod.fst).Nodup) (h : ∀ p, p ∈ l ↔ p ∈ l') : assignAll l = assignAll l' :=
  (sorted_assignAll l).ext (sorted_assignAll l') fun p => by
    rw [mem_assignAll hl, mem_assignAll hl', h p]

end Members

theorem setAll_obj (ms l : List (Bytes × Json)) :
    (obj ms).setAll l = obj (l.foldl (fun ms p => assign p.1 p.2 ms) ms) := by
  induction l generalizing ms with
  | nil => rfl
  | cons p l ih => exact ih (assign p.1 p.2 ms)

/-- Filling an empty object. -/
theorem setAll_empty (l : List (Bytes × Json)) : (obj []).setAll l = obj (assignAll l) :=
  setAll_obj [] l

/-- Filling a null value, which the first assignment makes an object. -/
theorem setAll_null {l : List (Bytes × Json)} (hl : l ≠ []) :
    null.setAll l = obj (assignAll l) := by
  obtain ⟨p, l, rfl⟩ := List.exists_cons_of_ne_nil hl
  exact setAll_obj [p] l

/-! ## Which values a printer accepts, and which it prints faithfully -/

mutual

/-- Every string in the value, member names included, is UTF-8. -/
def utf8 : Json → Bool
  | .str s => Bytes.validUtf8 s
  | .arr xs => utf8List xs
  | .obj ms => utf8Members ms
  | _ => true

def utf8List : List Json → Bool
  | [] => true
  | x :: xs => x.utf8 && utf8List xs

def utf8Members : List (Bytes × Json) → Bool
  | [] => true
  | (k, v) :: ms => Bytes.validUtf8 k && v.utf8 && utf8Members ms

end

mutual

/-- Objects sorted by key, integers within 64 bits, no other numbers. -/
def Normal : Json → Prop
  | .int n => -2 ^ 63 ≤ n ∧ n < 2 ^ 64
  | .float _ => False
  | .arr xs => NormalList xs
  | .obj ms => Sorted ms ∧ NormalMembers ms
  | _ => True

def NormalList : List Json → Prop
  | [] => True
  | x :: xs => x.Normal ∧ NormalList xs

def NormalMembers : List (Bytes × Json) → Prop
  | [] => True
  | (k, v) :: ms => v.Normal ∧ NormalMembers ms

end

theorem utf8List_iff {xs : List Json} : utf8List xs = true ↔ ∀ x ∈ xs, x.utf8 = true := by
  induction xs with
  | nil => simp [utf8List]
  | cons x xs ih => simp [utf8List, ih]

theorem utf8Members_iff {ms : List (Bytes × Json)} :
    utf8Members ms = true ↔ ∀ p ∈ ms, Bytes.validUtf8 p.1 = true ∧ p.2.utf8 = true := by
  induction ms with
  | nil => simp [utf8Members]
  | cons p ms ih => simp [utf8Members, ih, and_assoc]

theorem normalList_iff {xs : List Json} : NormalList xs ↔ ∀ x ∈ xs, x.Normal := by
  induction xs with
  | nil => simp [NormalList]
  | cons x xs ih => simp [NormalList, ih]

theorem normalMembers_iff {ms : List (Bytes × Json)} :
    NormalMembers ms ↔ ∀ p ∈ ms, p.2.Normal := by
  induction ms with
  | nil => simp [NormalMembers]
  | cons p ms ih => simp [NormalMembers, ih]

/-- An object that is filled with normal values under distinct keys is normal. -/
theorem normal_assignAll {l : List (Bytes × Json)} (hl : (l.map Prod.fst).Nodup)
    (h : ∀ p ∈ l, p.2.Normal) : (obj (assignAll l)).Normal :=
  ⟨sorted_assignAll l, normalMembers_iff.mpr fun p hp => h p ((mem_assignAll hl).mp hp)⟩

/-- The members of a filled object are UTF-8 exactly when the pairs are. -/
theorem utf8Members_assignAll {l : List (Bytes × Json)} (hl : (l.map Prod.fst).Nodup) :
    utf8Members (assignAll l) = true ↔ ∀ p ∈ l, Bytes.validUtf8 p.1 = true ∧ p.2.utf8 = true := by
  rw [utf8Members_iff]
  exact forall_congr' fun p => by rw [mem_assignAll hl]

/-- A member of a UTF-8 value is a UTF-8 value. -/
theorem find_utf8 {j v : Json} {k : Bytes} (hj : j.utf8 = true) (h : j.find k = some v) :
    v.utf8 = true := by
  cases j with
  | obj ms =>
    obtain ⟨l₁, l₂, hms, -⟩ := List.lookup_eq_some_iff.mp h
    have hmem : (k, v) ∈ ms := by rw [hms]; simp
    exact (utf8Members_iff.mp hj (k, v) hmem).2
  | _ => nomatch h

end Json

/-- The bytes that the C library calls white space. -/
def Bytes.isSpace (b : UInt8) : Bool := b == 0x20 || (0x09 ≤ b && b ≤ 0x0D)

/-- A JSON library: `parse` fails on a text that is no JSON, `dump` on a value that holds a
    string which is not UTF-8 (the C++ library throws there). -/
structure JsonLib where
  parse : Bytes → Option Json
  dump : Json → Option Bytes
  dump_isSome : ∀ j, (dump j).isSome = j.utf8
  parse_dump : ∀ {j t}, j.Normal → dump j = some t → parse t = some j
  parse_utf8 : ∀ {t j}, parse t = some j → j.utf8 = true
  parse_blank : ∀ {t : Bytes}, (∀ b ∈ t, Bytes.isSpace b = true) → parse t = none

namespace JsonLib

variable (J : JsonLib)

theorem dump_of_utf8 {j : Json} (h : j.utf8 = true) : ∃ t, J.dump j = some t :=
  Option.isSome_iff_exists.mp ((J.dump_isSome j).trans h)

theorem dump_eq_none {j : Json} : J.dump j = none ↔ j.utf8 = false := by
  rw [← J.dump_isSome j, Option.isSome_eq_false_iff, Option.isNone_iff_eq_none]

end JsonLib
