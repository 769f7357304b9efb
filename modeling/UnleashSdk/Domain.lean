/-
  THE DOMAIN MODEL: variants, toggles and toggle sets.

  A `Variant` carries its constructor's guarantee as a field: only an enabled variant has a
  payload.  A `ToggleSet` wraps an unordered map from names to toggles; its four queries
  (`contains`, `isEnabled`, `getVariant`, `impressionData`) are all that an application sees of
  it, bundled as `ToggleSet.answers`.

  Two constructors of `ToggleSet` differ in a way that matters later: the vector one files every
  toggle under its OWN name, the first of a name winning; the map one takes whatever key the
  caller chose.
-/
import UnleashSdk.Lib.Bytes
import UnleashSdk.Lib.KeyMap

set_option linter.unusedVariables false

namespace Unleash

/-! ## Variants -/

/-- The payload of a variant. -/
structure Payload where
  type : Bytes
  value : Bytes
  deriving DecidableEq

/-- A payload without a type counts as empty. -/
def Payload.empty (p : Payload) : Bool := p.type.isEmpty

/-- A variant; a disabled one has no payload. -/
structure Variant where
  name : Bytes
  enabled : Bool
  payload : Option Payload
  payload_enabled : enabled = false → payload = none
  deriving DecidableEq

namespace Variant

/-- The constructor: the payload of a disabled variant is dropped. -/
def make (name : Bytes) (enabled : Bool) (payload : Option Payload) : Variant where
  name := name
  enabled := enabled
  payload := if enabled then payload else none
  payload_enabled := fun h => by rw [h]; rfl

/-- The variant of a toggle that has none. -/
def disabledFactory : Variant := make (bytes "disabled") false none

theorem ext_fields {v w : Variant} (hn : v.name = w.name) (he : v.enabled = w.enabled)
    (hp : v.payload = w.payload) : v = w := by
  cases v; cases w
  simp only at hn he hp
  subst hn he hp
  rfl

@[simp] theorem make_enabled_payload (name : Bytes) (p : Option Payload) :
    (make name true p).payload = p := rfl

end Variant

/-! ## Toggles -/

/-- One feature flag. -/
structure Toggle where
  name : Bytes
  enabled : Bool := false
  impressionData : Bool := false
  variant : Variant := Variant.disabledFactory
  deriving DecidableEq

/-! ## Toggle sets -/

/-- The current toggles, by key. -/
structure ToggleSet where
  toggles : KeyMap Bytes Toggle

namespace ToggleSet

/-- The empty set of the default constructor. -/
def empty : ToggleSet := ⟨∅⟩

/-- The map constructor: the caller's keys. -/
def ofMap (m : KeyMap Bytes Toggle) : ToggleSet := ⟨m⟩

/-- The vector constructor: every toggle under its own name, the first of a name wins. -/
def ofVector (ts : List Toggle) : ToggleSet := ⟨KeyMap.ofPairs (ts.map fun t => (t.name, t))⟩

def size (s : ToggleSet) : Nat := s.toggles.entries.length

def find (s : ToggleSet) (name : Bytes) : Option Toggle := s.toggles.lookup name

def contains (s : ToggleSet) (name : Bytes) : Bool := (s.find name).isSome

def isEnabled (s : ToggleSet) (name : Bytes) : Bool :=
  match s.find name with
  | none => false
  | some t => t.enabled

def getVariant (s : ToggleSet) (name : Bytes) : Variant :=
  match s.find name with
  | none => Variant.disabledFactory
  | some t => t.variant

def impressionData (s : ToggleSet) (name : Bytes) : Bool :=
  match s.find name with
  | none => false
  | some t => t.impressionData

/-- What an application can learn about the flag `name`. -/
def answers (s : ToggleSet) (name : Bytes) : Bool × Bool × Variant × Bool :=
  (s.contains name, s.isEnabled name, s.getVariant name, s.impressionData name)

/-- Equal as maps: every lookup is answered alike, in whatever order the entries are kept. -/
def SameMap (s t : ToggleSet) : Prop := KeyMap.SameMap s.toggles t.toggles

theorem SameMap.find_eq {s t : ToggleSet} (h : s.SameMap t) (name : Bytes) :
    s.find name = t.find name := h name

theorem SameMap.answers_eq {s t : ToggleSet} (h : s.SameMap t) (name : Bytes) :
    s.answers name = t.answers name := by
  simp only [answers, contains, isEnabled, getVariant, impressionData, h.find_eq]

/-- **First wins.**  A toggle of the vector is found under its own name. -/
theorem find_ofVector (ts : List Toggle) (name : Bytes) :
    (ofVector ts).find name = ts.find? fun t => name = t.name := by
  show (KeyMap.ofPairs (ts.map fun t => (t.name, t))).lookup name = _
  rw [KeyMap.lookup_ofPairs, List.find?_map, Option.map_map]
  simp [Function.comp_def]

theorem find_ofVector_name {ts : List Toggle} {name : Bytes} {t : Toggle}
    (h : (ofVector ts).find name = some t) : t ∈ ts ∧ t.name = name := by
  rw [find_ofVector] at h
  exact ⟨List.mem_of_find?_eq_some h, (by simpa using List.find?_some h : name = t.name).symm⟩

/-- A set is empty exactly when it contains no name. -/
theorem size_eq_zero_iff {s : ToggleSet} : s.size = 0 ↔ ∀ name, s.find name = none := by
  constructor
  · intro h name
    have he : s.toggles.entries = [] := List.length_eq_zero_iff.mp h
    show List.dlookup name s.toggles.entries = none
    rw [he]; rfl
  · intro h
    rw [size, List.length_eq_zero_iff]
    refine List.eq_nil_iff_forall_not_mem.mpr fun e he => ?_
    have hl : s.toggles.lookup e.1 = some e.2 := KeyMap.mem_entries.mp he
    rw [show s.toggles.lookup e.1 = none from h e.1] at hl
    nomatch hl

end ToggleSet

/-! ## Which strings are UTF-8 -/

def Payload.utf8 (p : Payload) : Bool := Bytes.validUtf8 p.type && Bytes.validUtf8 p.value

def Variant.utf8 (v : Variant) : Bool := Bytes.validUtf8 v.name && v.payload.all Payload.utf8

def Toggle.utf8 (t : Toggle) : Bool := Bytes.validUtf8 t.name && t.variant.utf8

/-- Every string of every toggle in the set is UTF-8. -/
def ToggleSet.utf8 (s : ToggleSet) : Bool := s.toggles.entries.all fun e => e.2.utf8

theorem ToggleSet.utf8_iff {s : ToggleSet} :
    s.utf8 = true ↔ ∀ k t, s.find k = some t → t.utf8 = true := by
  rw [utf8, List.all_eq_true]
  constructor
  · intro h k t ht
    exact h ⟨k, t⟩ (KeyMap.mem_entries.mpr ht)
  · intro h e he
    exact h e.1 e.2 (KeyMap.mem_entries.mp he)

end Unleash
