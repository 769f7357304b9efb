/-
  STORAGE PROVIDERS: where a client keeps toggles between two lives.

  A provider is a pair of functions over some store.  `save` may throw; what the store holds then
  is part of the model (`.error`), for the file provider truncates its file before it prints.
  The file provider's store is the content of its backup file, and every file operation succeeds.
-/
import UnleashSdk.ToggleCodec

set_option linter.unusedVariables false

namespace Unleash

/-- A storage provider whose store is of type `σ`; `save` returns `.error` if it throws. -/
structure StorageProvider (σ : Type) where
  get : σ → Option ToggleSet
  save : σ → ToggleSet → Except σ σ

/-- The provider that stores nothing. -/
def localStorageProvider : StorageProvider Unit where
  get _ := none
  save s _ := .ok s

def isWhitespaceOnly (s : Bytes) : Bool := s.all Bytes.isSpace

namespace FileStorageProvider

/-- Read the backup file, `none` if there is none. -/
def get (J : JsonLib) (file : Option Bytes) : Option ToggleSet :=
  match file with
  | none => none
  | some content =>
    if content.isEmpty || isWhitespaceOnly content then none
    else
      match decodeClientFeaturesResponse J content with
      | .error _ => none
      | .ok decoded => some decoded

/-- Write the backup file, which is truncated before the text is printed. -/
def save (J : JsonLib) (file : Option Bytes) (t : ToggleSet) :
    Except (Option Bytes) (Option Bytes) :=
  match encodeClientFeaturesResponse J t with
  | none => .error (some [])
  | some text => .ok (some text)

end FileStorageProvider

def fileStorageProvider (J : JsonLib) : StorageProvider (Option Bytes) where
  get := FileStorageProvider.get J
  save := FileStorageProvider.save J

namespace FileStorageProvider

variable {J : JsonLib}

/-- Blank content decodes to nothing anyway: the first test decides nothing. -/
theorem get_some_iff {content : Bytes} {s : ToggleSet} :
    get J (some content) = some s ↔ decodeClientFeaturesResponse J content = .ok s := by
  unfold get
  by_cases hblank : (content.isEmpty || isWhitespaceOnly content) = true
  · have hspace : ∀ b ∈ content, Bytes.isSpace b = true := by
      rcases Bool.or_eq_true_iff.mp hblank with h | h
      · rw [List.isEmpty_iff.mp h]
        intro b hb
        cases hb
      · exact List.all_eq_true.mp h
    have hparse := J.parse_blank hspace
    simp only [if_pos hblank, decodeClientFeaturesResponse, hparse]
    constructor
    · intro h; cases h
    · intro h; cases h
  · simp only [if_neg hblank]
    cases decodeClientFeaturesResponse J content with
    | error e =>
      constructor
      · intro h; cases h
      · intro h; cases h
    | ok t =>
      constructor
      · intro h; cases h; rfl
      · intro h; cases h; rfl

/-- What a file yields is canonical and made of UTF-8 strings. -/
theorem get_canonical {file : Option Bytes} {s : ToggleSet} (h : get J file = some s) :
    s.Canonical ∧ s.utf8 = true := by
  cases file with
  | none => nomatch h
  | some content => exact decode_ok J (get_some_iff.mp h)

/-- A set of UTF-8 strings is saved, and read back as its round trip. -/
theorem get_save (file : Option Bytes) {s : ToggleSet} (h : s.utf8 = true) :
    ∃ text, save J file s = .ok (some text) ∧ get J (some text) = some s.roundTrip := by
  obtain ⟨text, htext⟩ := encode_of_utf8 J h
  exact ⟨text, by rw [save, htext], get_some_iff.mpr (decode_encode J htext)⟩

end FileStorageProvider

end Unleash
