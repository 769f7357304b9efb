/-
  A SAVE THAT STOPS HALFWAY.

  `save` passes four points at which it may stop for good, and what is in the file then depends on
  the point alone:

      create the directory ──▶ open and truncate ──▶ print the text ──▶ write the text
            file kept              file kept            file empty        prefix of the text

  The first two failures are tested for, and the backup survives them.  After the truncation it is
  gone: an empty file and a text cut short load as nothing (`get_cut`), so a backup that could be
  loaded before is lost unless the whole text gets into the file.
-/
import UnleashSdk.Lib.JsonPrefix
import UnleashSdk.Storage

set_option linter.unusedVariables false

namespace Unleash.FileStorageProvider

variable {J : JsonLib}

/-! ## Where a save may stop -/

/-- How far a `save` comes. -/
inductive Stop where
  -- the directory cannot be created
  | directory
  -- the file cannot be opened
  | openFile
  -- no more than so many bytes of the text get into the file
  | write (written : Nat)
  -- nothing stops it from outside
  | finished

/-- `save` as far as it comes: what is in the file, and whether the printer has thrown. -/
def saveUntil (J : JsonLib) (file : Option Bytes) (t : ToggleSet) :
    Stop → Except (Option Bytes) (Option Bytes)
  | .directory => .ok file
  | .openFile => .ok file
  | .write written =>
    -- the file is truncated before the text is printed
    match encodeClientFeaturesResponse J t with
    | none => .error (some [])
    | some text => .ok (some (text.take written))
  | .finished => save J file t

/-- What is in the file afterwards, thrown or not. -/
def afterSave (J : JsonLib) (file : Option Bytes) (t : ToggleSet) (stop : Stop) : Option Bytes :=
  match saveUntil J file t stop with
  | .ok file => file
  | .error file => file

/-- The file yields what it yielded before, or the saved toggles as the complete text holds
    them. -/
def AllOrNothing (J : JsonLib) (file : Option Bytes) (t : ToggleSet) (stop : Stop) : Prop :=
  get J (afterSave J file t stop) = get J file ∨
  ∃ text s, encodeClientFeaturesResponse J t = some text ∧
    decodeClientFeaturesResponse J text = .ok s ∧ get J (afterSave J file t stop) = some s

/-- The save stops before the truncation, or the whole text is printed and written, or there was
    nothing to lose. -/
def Keeps (J : JsonLib) (file : Option Bytes) (t : ToggleSet) : Stop → Prop
  | .directory => True
  | .openFile => True
  | .write written => get J file = none ∨
    ∃ text, encodeClientFeaturesResponse J t = some text ∧ text.length ≤ written
  | .finished => get J file = none ∨ t.toJson.utf8 = true

/-! ## What the file yields -/

theorem get_empty : get J (some []) = none := rfl

/-- The whole text yields what it decodes to. -/
theorem get_text {t : ToggleSet} {text : Bytes}
    (htext : encodeClientFeaturesResponse J t = some text) :
    get J (some text) = some t.roundTrip :=
  get_some_iff.mpr (decode_encode J htext)

/-- A text cut short yields nothing. -/
theorem get_cut (hJ : J.Strict) {t : ToggleSet} {text : Bytes}
    (htext : encodeClientFeaturesResponse J t = some text) {written : Nat}
    (h : written < text.length) : get J (some (text.take written)) = none := by
  have hparse : J.parse (text.take written) = none := hJ t.toJson_normal htext h
  unfold get
  simp only [decodeClientFeaturesResponse, hparse]
  split <;> rfl

/-- Once nothing is left in the file, only a backup that yielded nothing was not lost. -/
theorem allOrNothing_of_lost {file : Option Bytes} {t : ToggleSet} {stop : Stop}
    (h : get J (afterSave J file t stop) = none) :
    AllOrNothing J file t stop ↔ get J file = none := by
  unfold AllOrNothing
  rw [h]
  constructor
  · rintro (hkept | ⟨text, s, -, -, hs⟩)
    · exact hkept.symm
    · cases hs
  · intro hfile
    exact Or.inl hfile.symm

theorem allOrNothing_of_text {file : Option Bytes} {t : ToggleSet} {stop : Stop} {text : Bytes}
    (htext : encodeClientFeaturesResponse J t = some text)
    (h : afterSave J file t stop = some text) : AllOrNothing J file t stop := by
  refine Or.inr ⟨text, t.roundTrip, htext, decode_encode J htext, ?_⟩
  rw [h]
  exact get_text htext

theorem allOrNothing_iff_keeps (hJ : J.Strict) (file : Option Bytes) (t : ToggleSet)
    (stop : Stop) : AllOrNothing J file t stop ↔ Keeps J file t stop := by
  cases stop with
  | directory => exact iff_of_true (Or.inl rfl) trivial
  | openFile => exact iff_of_true (Or.inl rfl) trivial
  | write written =>
    cases htext : encodeClientFeaturesResponse J t with
    | none =>
      have hafter : afterSave J file t (.write written) = some [] := by
        simp only [afterSave, saveUntil, htext]
      rw [allOrNothing_of_lost (by rw [hafter, get_empty])]
      simp [Keeps, htext]
    | some text =>
      have hafter : afterSave J file t (.write written) = some (text.take written) := by
        simp only [afterSave, saveUntil, htext]
      by_cases hlen : text.length ≤ written
      · rw [List.take_of_length_le hlen] at hafter
        exact iff_of_true (allOrNothing_of_text htext hafter) (Or.inr ⟨text, htext, hlen⟩)
      · rw [allOrNothing_of_lost (by rw [hafter, get_cut hJ htext (Nat.lt_of_not_le hlen)])]
        simp [Keeps, htext, hlen]
  | finished =>
    cases htext : encodeClientFeaturesResponse J t with
    | none =>
      have hafter : afterSave J file t .finished = some [] := by
        simp only [afterSave, saveUntil, save, htext]
      have hutf8 : t.toJson.utf8 = false := J.dump_eq_none.mp htext
      rw [allOrNothing_of_lost (by rw [hafter, get_empty])]
      simp [Keeps, hutf8]
    | some text =>
      have hafter : afterSave J file t .finished = some text := by
        simp only [afterSave, saveUntil, save, htext]
      have hutf8 : t.toJson.utf8 = true := by
        rw [← J.dump_isSome]
        exact Option.isSome_iff_exists.mpr ⟨text, htext⟩
      exact iff_of_true (allOrNothing_of_text htext hafter) (Or.inr hutf8)

/-- **When a save is all or nothing.**  Wherever a save stops, the file yields what it yielded
    before or all that was saved exactly if the save stops before the truncation, the whole text
    is printed and written, or the file yielded nothing before; then a backup that could be
    loaded still can. -/
theorem allOrNothing_iff (J : JsonLib) (hJ : J.Strict) (file : Option Bytes) (t : ToggleSet)
    (stop : Stop) :
    (AllOrNothing J file t stop ↔ Keeps J file t stop) ∧
    (Keeps J file t stop → get J file ≠ none → get J (afterSave J file t stop) ≠ none) := by
  refine ⟨allOrNothing_iff_keeps hJ file t stop, fun hkeeps hloads => ?_⟩
  rcases (allOrNothing_iff_keeps hJ file t stop).mpr hkeeps with hkept | ⟨text, s, -, -, hs⟩
  · rw [hkept]
    exact hloads
  · rw [hs]
    exact Option.some_ne_none s

/-- The text of three toggles, written to its end over a backup of one. -/
theorem allOrNothing_iff_written :
    get JsonText.compact (some oneToggleText) = some oneToggleSet ∧
    AllOrNothing JsonText.compact (some oneToggleText) severalSet .finished ∧
    get JsonText.compact
      (afterSave JsonText.compact (some oneToggleText) severalSet .finished) ≠ none := by
  obtain ⟨hiff, hloads⟩ := allOrNothing_iff JsonText.compact JsonText.compact_strict
    (some oneToggleText) severalSet .finished
  have hkeeps : Keeps JsonText.compact (some oneToggleText) severalSet .finished :=
    Or.inr (by decide)
  have hbefore : get JsonText.compact (some oneToggleText) = some oneToggleSet :=
    get_some_iff.mpr decode_oneToggleText
  exact ⟨hbefore, hiff.mpr hkeeps, hloads hkeeps (by rw [hbefore]; exact Option.some_ne_none _)⟩

/-- A toggle whose name is not UTF-8. -/
def unprintableSet : ToggleSet := ToggleSet.ofVector [{ name := [0xFF], enabled := true }]

/-- A backup is lost when other toggles cannot be printed, and when they cannot be written. -/
theorem backup_lost :
    ¬ AllOrNothing JsonText.compact (some oneToggleText) unprintableSet .finished ∧
    ¬ AllOrNothing JsonText.compact (some oneToggleText) oneToggleSet (.write 0) := by
  have hbefore : get JsonText.compact (some oneToggleText) = some oneToggleSet :=
    get_some_iff.mpr decode_oneToggleText
  have hnone : encodeClientFeaturesResponse JsonText.compact unprintableSet = none :=
    JsonText.compact.dump_eq_none.mpr (by decide)
  obtain ⟨text, htext⟩ := encode_of_utf8 JsonText.compact (s := oneToggleSet) (by decide)
  constructor
  · have hafter : afterSave JsonText.compact (some oneToggleText) unprintableSet .finished =
        some [] := by
      simp only [afterSave, saveUntil, save, hnone]
    rw [allOrNothing_of_lost (by rw [hafter, get_empty]), hbefore]
    exact Option.some_ne_none _
  · have hafter : afterSave JsonText.compact (some oneToggleText) oneToggleSet (.write 0) =
        some [] := by
      simp only [afterSave, saveUntil, htext, List.take_zero]
    rw [allOrNothing_of_lost (by rw [hafter, get_empty]), hbefore]
    exact Option.some_ne_none _

end Unleash.FileStorageProvider
