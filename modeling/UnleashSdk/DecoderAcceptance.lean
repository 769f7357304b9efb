/-
  WHAT THE DECODER ACCEPTS, and what it makes of it.

  `AcceptableEntry` says of one entry of the `toggles` array what must be there, without
  mentioning the decoder: what is checked depends on what was found before (the variant counts
  only under `enabled`, the payload only under a usable variant).  The decoder follows it exactly:

  * `decodeToggle_ok_iff`    — an entry decodes if and only if it is acceptable;
  * `decodeToggles_ok`       — the array decodes entry by entry;
  * `decodeToggles_error`    — or it fails at the FIRST entry that is not acceptable.

  A decoded set files the first entry of every name (`ToggleSet.find_ofVector`), so it has as many
  toggles as there are different names.
-/
import Mathlib.Data.List.Dedup
import UnleashSdk.ToggleCodec

set_option linter.unusedVariables false

namespace Unleash

/-! ## Acceptable entries -/

/-- A variant object that is used: a non-empty string name, and `enabled` is true. -/
def UsableVariant (vObj : Json) : Prop :=
  (∃ vName, vObj.find (bytes "name") = some (.str vName) ∧ vName ≠ []) ∧
    vObj.find (bytes "enabled") = some (.bool true)

/-- An absent variant, or an object; under a usable one the payload is absent or an object. -/
def AcceptableVariant (itVariant : Option Json) : Prop :=
  ∀ vObj, itVariant = some vObj → isObject vObj = true ∧
    (UsableVariant vObj → ∀ pObj, vObj.find (bytes "payload") = some pObj → isObject pObj = true)

/-- An entry of the array that the decoder takes. -/
structure AcceptableEntry (item : Json) : Prop where
  object : isObject item = true
  name : ∃ n, item.find (bytes "name") = some (.str n)
  enabled : ∃ b, item.find (bytes "enabled") = some (.bool b)
  impressionData : ∀ j, item.find (bytes "impressionData") = some j → ∃ b, j = .bool b
  variant : item.find (bytes "enabled") = some (.bool true) →
    AcceptableVariant (item.find (bytes "variant"))

/-- The name of an entry, if it has one. -/
def entryName (item : Json) : Option Bytes :=
  match item.find (bytes "name") with
  | some (.str n) => some n
  | _ => none

/-! ## One entry -/

theorem decodeImpression_ok_iff {it : Option Json} :
    (∃ b, decodeImpression it = .ok b) ↔ ∀ j, it = some j → ∃ b, j = .bool b := by
  unfold decodeImpression
  split
  · exact ⟨fun _ j hj => (by cases hj), fun _ => ⟨false, rfl⟩⟩
  · rename_i b
    refine ⟨fun _ j hj => ⟨b, ?_⟩, fun _ => ⟨b, rfl⟩⟩
    cases hj
    rfl
  · rename_i j hno
    constructor
    · rintro ⟨b, hb⟩
      cases hb
    · intro h
      obtain ⟨b, hb⟩ := h j rfl
      exact absurd hb (hno b)

theorem acceptableVariant_some {vObj : Json} :
    AcceptableVariant (some vObj) ↔ isObject vObj = true ∧ (UsableVariant vObj → ∀ pObj,
      vObj.find (bytes "payload") = some pObj → isObject pObj = true) := by
  unfold AcceptableVariant
  constructor
  · intro h
    exact h vObj rfl
  · rintro h w hw
    cases hw
    exact h

/-- The variant decodes exactly if it is acceptable. -/
theorem decodeVariant_ok_iff {it : Option Json} :
    (∃ v, decodeVariant it = .ok v) ↔ AcceptableVariant it := by
  unfold decodeVariant
  cases it with
  | none => exact ⟨fun _ vObj h => (by cases h), fun _ => ⟨_, rfl⟩⟩
  | some vObj =>
    rw [acceptableVariant_some]
    simp only
    split
    · rename_i hobj
      constructor
      · rintro ⟨v, hv⟩
        cases hv
      · rintro ⟨h, -⟩
        rw [hobj] at h
        cases h
    · rename_i hobj
      have hobj : isObject vObj = true := Bool.not_eq_false _ ▸ hobj
      split
      · rename_i vName hname henabled
        split
        · -- an empty name: the variant is not used
          rename_i hempty
          refine ⟨fun _ => ⟨hobj, ?_⟩, fun _ => ⟨_, rfl⟩⟩
          rintro ⟨⟨n, hn, hne⟩, -⟩
          rw [hname] at hn
          cases hn
          exact absurd (List.isEmpty_iff.mp hempty) hne
        · rename_i hnonempty
          have husable : UsableVariant vObj :=
            ⟨⟨vName, hname, fun h => hnonempty (List.isEmpty_iff.mpr h)⟩, henabled⟩
          split
          · rename_i hpayload
            refine ⟨fun _ => ⟨hobj, fun _ pObj hp => ?_⟩, fun _ => ⟨_, rfl⟩⟩
            rw [hpayload] at hp
            cases hp
          · rename_i pObj hpayload
            split
            · rename_i hpobj
              constructor
              · rintro ⟨v, hv⟩
                cases hv
              · rintro ⟨-, h⟩
                rw [h husable pObj hpayload] at hpobj
                cases hpobj
            · rename_i hpobj
              refine ⟨fun _ => ⟨hobj, fun _ q hq => ?_⟩, fun _ => ⟨_, rfl⟩⟩
              rw [hpayload] at hq
              cases hq
              exact Bool.not_eq_false _ ▸ hpobj
      · rename_i hno
        refine ⟨fun _ => ⟨hobj, ?_⟩, fun _ => ⟨_, rfl⟩⟩
        rintro ⟨⟨n, hn, -⟩, henabled⟩
        exact (hno n hn henabled).elim

/-- **One entry.**  It decodes exactly if it is acceptable. -/
theorem decodeToggle_ok_iff {item : Json} :
    (∃ t, decodeToggle item = .ok t) ↔ AcceptableEntry item := by
  constructor
  · rintro ⟨t, ht⟩
    unfold decodeToggle at ht
    split at ht
    · cases ht
    · rename_i hobj
      split at ht
      · rename_i n hname
        split at ht
        · rename_i b henabled
          split at ht
          · cases ht
          · rename_i impression himpr
            refine ⟨Bool.not_eq_false _ ▸ hobj, ⟨n, hname⟩, ⟨b, henabled⟩,
              decodeImpression_ok_iff.mp ⟨impression, himpr⟩, fun htrue => ?_⟩
            rw [henabled] at htrue
            cases htrue
            split at ht
            · rename_i hfalse
              cases hfalse
            · split at ht
              · cases ht
              · rename_i v hv
                exact decodeVariant_ok_iff.mp ⟨v, hv⟩
        · cases ht
      · cases ht
  · intro h
    obtain ⟨n, hname⟩ := h.name
    obtain ⟨b, henabled⟩ := h.enabled
    obtain ⟨impression, himpr⟩ := decodeImpression_ok_iff.mpr h.impressionData
    unfold decodeToggle
    rw [if_neg (by rw [h.object]; decide)]
    simp only [hname, henabled, himpr]
    cases b with
    | false => exact ⟨_, rfl⟩
    | true =>
      obtain ⟨v, hv⟩ := decodeVariant_ok_iff.mpr (h.variant henabled)
      rw [if_neg (by decide)]
      simp only [hv]
      exact ⟨_, rfl⟩

/-- A decoded toggle has the name of its entry. -/
theorem decodeToggle_name {item : Json} {t : Toggle} (h : decodeToggle item = .ok t) :
    entryName item = some t.name := by
  unfold decodeToggle at h
  split at h
  · cases h
  · split at h
    · rename_i n hname
      have hentry : entryName item = some n := by
        unfold entryName
        rw [hname]
      rw [hentry]
      split at h
      · split at h
        · cases h
        · split at h
          · cases h; rfl
          · split at h
            · cases h
            · cases h; rfl
      · cases h
    · cases h

/-! ## The array -/

/-- The text of the error for entry number `index`. -/
def invalidToggle (index : Nat) (reason : Bytes) : Bytes :=
  bytes "invalid toggle at index " ++ bytes (toString index) ++ bytes ": " ++ reason

/-- The array decodes entry by entry. -/
theorem decodeToggles_ok {index : Nat} {items : List Json} {ts : List Toggle} :
    decodeToggles index items = .ok ts ↔
      List.Forall₂ (fun item t => decodeToggle item = .ok t) items ts := by
  induction items generalizing index ts with
  | nil =>
    rw [List.forall₂_nil_left_iff]
    constructor
    · intro h
      cases h
      rfl
    · intro h
      rw [h]
      rfl
  | cons item items ih =>
    rw [List.forall₂_cons_left_iff]
    unfold decodeToggles
    constructor
    · intro h
      split at h
      · cases h
      · rename_i t ht
        split at h
        · cases h
        · rename_i us hus
          cases h
          exact ⟨t, us, ht, ih.mp hus, rfl⟩
    · rintro ⟨t, us, ht, hus, rfl⟩
      simp only [ht, ih.mpr hus]

/-- **The first unacceptable entry.**  If there is one, the array fails there, with its index. -/
theorem decodeToggles_error (index : Nat) {items : List Json}
    (h : ¬ ∀ item ∈ items, AcceptableEntry item) :
    ∃ before item after reason, items = before ++ item :: after ∧
      (∀ b ∈ before, AcceptableEntry b) ∧ decodeToggle item = .error reason ∧
      decodeToggles index items = .error (invalidToggle (index + before.length) reason) := by
  induction items generalizing index with
  | nil => exact absurd (fun item hitem => by cases hitem) h
  | cons item items ih =>
    cases hitem : decodeToggle item with
    | error reason =>
      refine ⟨[], item, items, reason, rfl, fun b hb => (by cases hb), hitem, ?_⟩
      simp only [decodeToggles, hitem]
      rfl
    | ok t =>
      have hok : AcceptableEntry item := decodeToggle_ok_iff.mp ⟨t, hitem⟩
      have hrest : ¬ ∀ i ∈ items, AcceptableEntry i := fun hall => h fun i hi => by
        rcases List.mem_cons.mp hi with rfl | hi
        · exact hok
        · exact hall i hi
      obtain ⟨before, bad, after, reason, rfl, hbefore, hbad, herr⟩ := ih (index + 1) hrest
      refine ⟨item :: before, bad, after, reason, rfl, fun b hb => ?_, hbad, ?_⟩
      · rcases List.mem_cons.mp hb with rfl | hb
        · exact hok
        · exact hbefore b hb
      · simp only [decodeToggles, hitem, herr, List.length_cons]
        rw [Nat.add_right_comm index 1, Nat.add_assoc]

/-! ## The text -/

/-- The text is valid JSON whose root is an object with the array `items` under `toggles`. -/
def TogglesArray (J : JsonLib) (text : Bytes) (items : List Json) : Prop :=
  ∃ members, J.parse text = some (.obj members) ∧
    (Json.obj members).find (bytes "toggles") = some (.arr items)

theorem TogglesArray.decode {J : JsonLib} {text : Bytes} {items : List Json}
    (h : TogglesArray J text items) :
    decodeClientFeaturesResponse J text = (decodeToggles 0 items).map ToggleSet.ofVector := by
  obtain ⟨members, hparse, hfind⟩ := h
  simp only [decodeClientFeaturesResponse, hparse, hfind]
  cases decodeToggles 0 items <;> rfl

/-- Whatever is accepted has the array. -/
theorem togglesArray_of_ok {J : JsonLib} {text : Bytes} {ts : ToggleSet}
    (h : decodeClientFeaturesResponse J text = .ok ts) : ∃ items, TogglesArray J text items := by
  unfold decodeClientFeaturesResponse at h
  split at h
  · cases h
  · rename_i root hparse
    cases root with
    | obj members =>
      split at h
      · cases h
      · rename_i items hfind
        exact ⟨items, members, hparse, hfind⟩
      · cases h
    | _ => cases h

/-- There is a decoded array exactly if every entry is acceptable. -/
theorem decoded_exists_iff {items : List Json} :
    (∃ ts, List.Forall₂ (fun item t => decodeToggle item = .ok t) items ts) ↔
      ∀ item ∈ items, AcceptableEntry item := by
  induction items with
  | nil => exact ⟨fun _ item hitem => (by cases hitem), fun _ => ⟨[], .nil⟩⟩
  | cons item items ih =>
    rw [List.forall_mem_cons, ← ih, ← decodeToggle_ok_iff]
    constructor
    · rintro ⟨ts, h⟩
      cases h with
      | cons ht hts => exact ⟨⟨_, ht⟩, _, hts⟩
    · rintro ⟨⟨t, ht⟩, ts, hts⟩
      exact ⟨t :: ts, .cons ht hts⟩

/-- The first toggle of a name comes from the first entry of that name. -/
theorem find_decoded {items : List Json} {ts : List Toggle}
    (h : List.Forall₂ (fun item t => decodeToggle item = .ok t) items ts) {n : Bytes}
    {t : Toggle} : ts.find? (fun t => n = t.name) = some t ↔
      ∃ before item after, items = before ++ item :: after ∧
        (∀ b ∈ before, entryName b ≠ some n) ∧ entryName item = some n ∧
        decodeToggle item = .ok t := by
  induction h with
  | nil => simp
  | @cons item u items ts hu _ ih =>
    have hname := decodeToggle_name hu
    by_cases hn : n = u.name
    · rw [List.find?_cons_of_pos (by simpa using hn)]
      constructor
      · intro h
        cases h
        exact ⟨[], item, items, rfl, fun b hb => (by cases hb), hn ▸ hname, hu⟩
      · rintro ⟨before, i, after, heq, hbefore, hi, ht⟩
        cases before with
        | nil =>
          cases heq
          exact congrArg some (Except.ok.inj (hu.symm.trans ht))
        | cons b before =>
          cases heq
          exact absurd (hn ▸ hname) (hbefore item List.mem_cons_self)
    · rw [List.find?_cons_of_neg (by simpa using hn), ih]
      have hne : entryName item ≠ some n := fun h => hn (Option.some.inj (h.symm.trans hname))
      constructor
      · rintro ⟨before, i, after, rfl, hbefore, hi, ht⟩
        refine ⟨item :: before, i, after, rfl, fun b hb => ?_, hi, ht⟩
        rcases List.mem_cons.mp hb with rfl | hb
        · exact hne
        · exact hbefore b hb
      · rintro ⟨before, i, after, heq, hbefore, hi, ht⟩
        cases before with
        | nil =>
          cases heq
          exact absurd hi hne
        | cons b before =>
          cases heq
          exact ⟨before, i, after, rfl, fun b hb => hbefore b (List.mem_cons_of_mem _ hb), hi, ht⟩

/-- What a decoded set holds: the names that occur, and under each of them what the first entry
    of that name decodes to. -/
structure Decoded (items : List Json) (ts : ToggleSet) : Prop where
  contains : ∀ n, ts.contains n = true ↔ ∃ item ∈ items, entryName item = some n
  firstWins : ∀ n t, ts.find n = some t ↔
    ∃ before item after, items = before ++ item :: after ∧
      (∀ b ∈ before, entryName b ≠ some n) ∧ entryName item = some n ∧ decodeToggle item = .ok t
  size : ts.size = (items.filterMap entryName).dedup.length

theorem decoded_ofVector {items : List Json} {ts : List Toggle}
    (h : List.Forall₂ (fun item t => decodeToggle item = .ok t) items ts) :
    Decoded items (ToggleSet.ofVector ts) := by
  have hnames : ts.map Toggle.name = items.filterMap entryName := by
    induction h with
    | nil => rfl
    | cons ht _ ih => rw [List.map_cons, List.filterMap_cons_some (decodeToggle_name ht), ih]
  have hcontains : ∀ n, (ToggleSet.ofVector ts).contains n = true ↔
      n ∈ items.filterMap entryName := by
    intro n
    rw [ToggleSet.contains, ToggleSet.find_ofVector, List.find?_isSome, ← hnames, List.mem_map]
    refine exists_congr fun t => and_congr_right fun _ => ?_
    rw [decide_eq_true_iff]
    exact eq_comm
  refine ⟨fun n => (hcontains n).trans List.mem_filterMap, fun n t => ?_, ?_⟩
  · rw [ToggleSet.find_ofVector]
    exact find_decoded h
  · -- the keys of the set are the names, each once
    have hperm : (ToggleSet.ofVector ts).toggles.keys.Perm (items.filterMap entryName).dedup := by
      refine (List.perm_ext_iff_of_nodup (AList.keys_nodup _) (List.nodup_dedup _)).mpr fun n => ?_
      rw [List.mem_dedup, ← hcontains n]
      exact AList.lookup_isSome.symm
    rw [← hperm.length_eq]
    simp [ToggleSet.size, AList.keys, List.keys]

/-- **What the decoder accepts.**  A text is accepted exactly if it is a JSON object with an array
    under `toggles` whose entries are all acceptable; then the first entry of every name is in the
    set and nothing else.  Otherwise the result is an error, and with an array in place it names
    the first unacceptable entry. -/
theorem decoder_acceptance (J : JsonLib) (text : Bytes) :
    ((∃ ts, decodeClientFeaturesResponse J text = .ok ts) ↔
      ∃ items, TogglesArray J text items ∧ ∀ item ∈ items, AcceptableEntry item) ∧
    (∀ ts, decodeClientFeaturesResponse J text = .ok ts →
      ∃ items, TogglesArray J text items ∧ Decoded items ts) ∧
    ∀ items, TogglesArray J text items → (¬ ∀ item ∈ items, AcceptableEntry item) →
      ∃ before item after reason, items = before ++ item :: after ∧
        (∀ b ∈ before, AcceptableEntry b) ∧ ¬ AcceptableEntry item ∧
        decodeToggle item = .error reason ∧
        decodeClientFeaturesResponse J text = .error (invalidToggle before.length reason) := by
  -- an accepted array, with the toggles it decodes to
  have hok : ∀ ts items, decodeClientFeaturesResponse J text = .ok ts → TogglesArray J text items →
      ∃ us, ts = ToggleSet.ofVector us ∧
        List.Forall₂ (fun item t => decodeToggle item = .ok t) items us := by
    intro ts items hts hitems
    rw [hitems.decode] at hts
    cases hus : decodeToggles 0 items with
    | error e =>
      rw [hus] at hts
      cases hts
    | ok us =>
      rw [hus] at hts
      cases hts
      exact ⟨us, rfl, decodeToggles_ok.mp hus⟩
  refine ⟨⟨?_, ?_⟩, ?_, ?_⟩
  · rintro ⟨ts, hts⟩
    obtain ⟨items, hitems⟩ := togglesArray_of_ok hts
    obtain ⟨us, -, hus⟩ := hok ts items hts hitems
    exact ⟨items, hitems, decoded_exists_iff.mp ⟨us, hus⟩⟩
  · rintro ⟨items, hitems, hall⟩
    obtain ⟨us, hus⟩ := decoded_exists_iff.mpr hall
    refine ⟨ToggleSet.ofVector us, ?_⟩
    rw [hitems.decode, decodeToggles_ok.mpr hus]
    rfl
  · intro ts hts
    obtain ⟨items, hitems⟩ := togglesArray_of_ok hts
    obtain ⟨us, rfl, hus⟩ := hok ts items hts hitems
    exact ⟨items, hitems, decoded_ofVector hus⟩
  · intro items hitems hnot
    obtain ⟨before, item, after, reason, rfl, hbefore, hbad, herr⟩ := decodeToggles_error 0 hnot
    refine ⟨before, item, after, reason, rfl, hbefore, fun hacc => ?_, hbad, ?_⟩
    · obtain ⟨t, ht⟩ := decodeToggle_ok_iff.mpr hacc
      rw [hbad] at ht
      cases ht
    · rw [hitems.decode, herr, Nat.zero_add]
      rfl

end Unleash
