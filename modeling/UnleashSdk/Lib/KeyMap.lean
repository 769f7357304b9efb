/-
  FINITE MAPS WITH DISTINCT KEYS.

  `KeyMap α β` is Mathlib's `AList` at a constant value type: a list of entries whose keys are
  pairwise distinct, so no lookup is ever ambiguous.  Its entry order stands for the iteration
  order of the container it models; two maps are THE SAME MAP when they answer every lookup alike
  (`SameMap`), whatever that order is.

  Two ways of writing are added to Mathlib's `insert` (which overwrites):

  * `insertNew` — the first value written under a key stays;
  * `upsert`    — the new value is computed from the one there, if any.
-/
import Mathlib.Data.List.AList

set_option linter.unusedVariables false

/-- A finite map from `α` to `β`. -/
abbrev KeyMap (α β : Type) := AList (fun _ : α => β)

namespace KeyMap

variable {α β : Type} [DecidableEq α]

/-- Two maps answer every lookup alike. -/
def SameMap (m n : KeyMap α β) : Prop := ∀ k, m.lookup k = n.lookup k

theorem SameMap.refl (m : KeyMap α β) : SameMap m m := fun _ => rfl

theorem SameMap.symm {m n : KeyMap α β} (h : SameMap m n) : SameMap n m := fun k => (h k).symm

theorem SameMap.trans {m n o : KeyMap α β} (h : SameMap m n) (h' : SameMap n o) : SameMap m o :=
  fun k => (h k).trans (h' k)

/-- The entries of a map are exactly what its lookups find. -/
theorem mem_entries {m : KeyMap α β} {k : α} {v : β} :
    ⟨k, v⟩ ∈ m.entries ↔ m.lookup k = some v :=
  AList.mem_lookup_iff.symm

theorem mem_iff_lookup {m : KeyMap α β} {k : α} : k ∈ m ↔ ∃ v, m.lookup k = some v := by
  rw [← AList.lookup_isSome, Option.isSome_iff_exists]

theorem lookup_insert {m : KeyMap α β} {k k' : α} {v : β} :
    (m.insert k v).lookup k' = if k' = k then some v else m.lookup k' := by
  by_cases h : k' = k
  · subst h
    rw [if_pos rfl, AList.lookup_insert]
  · rw [if_neg h, AList.lookup_insert_ne h]

/-- One value for every key that occurs: maps over the same keys have as many entries. -/
theorem SameMap.length_eq {m n : KeyMap α β} (h : SameMap m n) :
    m.entries.length = n.entries.length := by
  have hp : m.entries.Perm n.entries :=
    List.lookup_ext m.nodupKeys n.nodupKeys fun k v => by
      show v ∈ m.lookup k ↔ v ∈ n.lookup k
      rw [h k]
  exact hp.length_eq

/-- The entries as pairs, every value replaced by its image. -/
def pairs {γ : Type} (m : KeyMap α β) (f : β → γ) : List (α × γ) :=
  m.entries.map fun e => (e.1, f e.2)

theorem mem_pairs {γ : Type} {m : KeyMap α β} {f : β → γ} {p : α × γ} :
    p ∈ m.pairs f ↔ ∃ v, m.lookup p.1 = some v ∧ p.2 = f v := by
  obtain ⟨k, w⟩ := p
  simp only [pairs, List.mem_map, Prod.mk.injEq]
  constructor
  · rintro ⟨e, he, rfl, rfl⟩
    exact ⟨e.2, mem_entries.mp he, rfl⟩
  · rintro ⟨v, hv, rfl⟩
    exact ⟨⟨k, v⟩, mem_entries.mpr hv, rfl, rfl⟩

omit [DecidableEq α] in
theorem nodup_pairs {γ : Type} (m : KeyMap α β) (f : β → γ) :
    ((m.pairs f).map Prod.fst).Nodup := by
  rw [pairs, List.map_map]
  exact m.nodupKeys

/-! ## The first value stays -/

/-- Write `v` under `k` unless something is there. -/
def insertNew (m : KeyMap α β) (k : α) (v : β) : KeyMap α β :=
  if k ∈ m then m else m.insert k v

theorem lookup_insertNew {m : KeyMap α β} {k k' : α} {v : β} :
    (m.insertNew k v).lookup k' = (m.lookup k').or (if k' = k then some v else none) := by
  unfold insertNew
  by_cases hk : k ∈ m
  · rw [if_pos hk]
    by_cases h : k' = k
    · subst h
      obtain ⟨w, hw⟩ := mem_iff_lookup.mp hk
      rw [hw]; rfl
    · rw [if_neg h, Option.or_none]
  · rw [if_neg hk, lookup_insert]
    by_cases h : k' = k
    · subst h
      rw [if_pos rfl, if_pos rfl, AList.lookup_eq_none.mpr hk]; rfl
    · rw [if_neg h, if_neg h, Option.or_none]

/-- The map that a list of pairs fills, the first pair with a key winning. -/
def ofPairs (l : List (α × β)) : KeyMap α β := l.foldl (fun m p => m.insertNew p.1 p.2) ∅

theorem lookup_foldl_insertNew (l : List (α × β)) (m : KeyMap α β) (k : α) :
    (l.foldl (fun m p => m.insertNew p.1 p.2) m).lookup k =
      (m.lookup k).or ((l.find? (fun p => k = p.1)).map Prod.snd) := by
  induction l generalizing m with
  | nil => simp
  | cons p l ih =>
    rw [List.foldl_cons, ih, lookup_insertNew, Option.or_assoc]
    by_cases h : k = p.1
    · simp [h]
    · simp [h]

/-- **First wins.**  A lookup in the filled map finds the first pair with that key. -/
theorem lookup_ofPairs (l : List (α × β)) (k : α) :
    (ofPairs l).lookup k = (l.find? (fun p => k = p.1)).map Prod.snd := by
  rw [ofPairs, lookup_foldl_insertNew, AList.lookup_empty, Option.none_or]

/-! ## Updating in place -/

/-- Replace what is under `k` by `f` of it. -/
def upsert (m : KeyMap α β) (k : α) (f : Option β → β) : KeyMap α β :=
  m.insert k (f (m.lookup k))

theorem lookup_upsert {m : KeyMap α β} {k k' : α} {f : Option β → β} :
    (m.upsert k f).lookup k' = if k' = k then some (f (m.lookup k)) else m.lookup k' :=
  lookup_insert

end KeyMap
