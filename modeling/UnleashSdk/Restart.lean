/-
  RESTART: does a new client start where the old one was?

  A snapshot comes from the bootstrap map, from the backup file or from a reply, and the backup
  file holds it in the codec's form.  A decoded snapshot survives that (`roundTrip_canonical`);
  a bootstrap map need not: the codec files every toggle under its own name and drops what it
  calls unusable in a variant, while the map keeps the keys and the variants as they are.

  `Stable` says when a map survives: under every key there is what the codec makes of a toggle
  with that name.  By counting, such a map has no other names and no name twice, so this is
  exactly when the round trip answers every question alike (`roundTrip_answers_iff`).
-/
import Mathlib.Data.List.Perm.Subperm
import UnleashSdk.FlagUpdates

set_option linter.unusedVariables false

namespace Unleash

/-! ## Which maps survive the codec -/

/-- Two toggles that an application cannot tell apart, their names aside. -/
def Toggle.sameData (t u : Toggle) : Prop :=
  t.enabled = u.enabled ∧ t.impressionData = u.impressionData ∧ t.variant = u.variant

namespace ToggleSet

/-- Under every key there is what the codec makes of a toggle with that name. -/
def Stable (s : ToggleSet) : Prop :=
  ∀ k t, s.find k = some t → ∃ k' t', s.find k' = some t' ∧ t'.name = k ∧ t'.normalize.sameData t

theorem answers_some {s : ToggleSet} {name : Bytes} {t : Toggle} (h : s.find name = some t) :
    s.answers name = (true, t.enabled, t.variant, t.impressionData) := by
  simp only [answers, contains, isEnabled, getVariant, impressionData, h, Option.isSome_some]

theorem answers_none {s : ToggleSet} {name : Bytes} (h : s.find name = none) :
    s.answers name = (false, false, Variant.disabledFactory, false) := by
  simp only [answers, contains, isEnabled, getVariant, impressionData, h, Option.isSome_none]

theorem answers_eq_iff {s t : ToggleSet} {name : Bytes} :
    s.answers name = t.answers name ↔
      (s.find name = none ∧ t.find name = none) ∨
      ∃ u v, s.find name = some u ∧ t.find name = some v ∧ u.sameData v := by
  cases hs : s.find name with
  | none =>
    cases ht : t.find name with
    | none => simp [answers_none hs, answers_none ht]
    | some v => simp [answers_none hs, answers_some ht]
  | some u =>
    cases ht : t.find name with
    | none => simp [answers_some hs, answers_none ht]
    | some v =>
      rw [answers_some hs, answers_some ht]
      constructor
      · intro h
        injection h with _ h
        injection h with he h
        injection h with hv hi
        exact Or.inr ⟨u, v, rfl, rfl, he, hi, hv⟩
      · rintro (⟨h, -⟩ | ⟨u', v', hu, hv, he, hi, hvar⟩)
        · nomatch h
        · cases hu
          cases hv
          rw [he, hi, hvar]

/-- The names of the toggles in the set, in the order of its entries. -/
def names (s : ToggleSet) : List Bytes := s.toggles.entries.map fun e => e.2.name

/-- In a stable set the names are the keys: every key is a name, and there are no more names. -/
theorem Stable.names_perm {s : ToggleSet} (h : s.Stable) : s.toggles.keys.Perm s.names := by
  have hsub : s.toggles.keys ⊆ s.names := by
    intro k hk
    obtain ⟨t, ht⟩ := KeyMap.mem_iff_lookup.mp (show k ∈ s.toggles from hk)
    obtain ⟨k', t', ht', hname, -⟩ := h k t ht
    exact List.mem_map.mpr ⟨⟨k', t'⟩, KeyMap.mem_entries.mpr ht', hname⟩
  have hlen : s.names.length ≤ s.toggles.keys.length := by
    simp [names, AList.keys, List.keys]
  exact (List.subperm_of_subset s.toggles.keys_nodup hsub).perm_of_length_le hlen

/-- **The maps that survive the codec.**  A set answers every question as its round trip does
    exactly if it is stable. -/
theorem roundTrip_answers_iff {s : ToggleSet} :
    (∀ name, s.roundTrip.answers name = s.answers name) ↔ s.Stable := by
  constructor
  · intro h k t ht
    rcases answers_eq_iff.mp (h k) with ⟨-, hnone⟩ | ⟨u, v, hu, hv, hsame⟩
    · rw [ht] at hnone
      nomatch hnone
    · rw [ht] at hv
      cases hv
      rw [find_roundTrip] at hu
      obtain ⟨e, he, rfl⟩ := Option.map_eq_some_iff.mp hu
      have hname : k = e.2.name := by simpa using List.find?_some he
      exact ⟨e.1, e.2, KeyMap.mem_entries.mp (List.mem_of_find?_eq_some he), hname.symm, hsame⟩
  · intro h name
    rw [answers_eq_iff, find_roundTrip]
    have hperm := h.names_perm
    cases ht : s.find name with
    | none =>
      -- a name that is no key is the name of no toggle
      refine Or.inl ⟨?_, rfl⟩
      rw [Option.map_eq_none_iff, List.find?_eq_none]
      intro e he hname
      have hkey : name ∈ s.toggles.keys := hperm.symm.subset
        (List.mem_map.mpr ⟨e, he, (of_decide_eq_true hname).symm⟩)
      obtain ⟨t, hfound⟩ := KeyMap.mem_iff_lookup.mp (show name ∈ s.toggles from hkey)
      rw [show s.toggles.lookup name = none from ht] at hfound
      nomatch hfound
    | some t =>
      -- the first toggle of that name is the only one
      obtain ⟨k', t', ht', hname, hsame⟩ := h name t ht
      have hmem : ⟨k', t'⟩ ∈ s.toggles.entries := KeyMap.mem_entries.mpr ht'
      have hnodup : s.names.Nodup := hperm.nodup_iff.mp s.toggles.keys_nodup
      cases hfind : s.toggles.entries.find? (fun e => name = e.2.name) with
      | none =>
        exact absurd (decide_eq_true hname.symm) (List.find?_eq_none.mp hfind ⟨k', t'⟩ hmem)
      | some e =>
        have he : e = ⟨k', t'⟩ := List.inj_on_of_nodup_map hnodup
          (List.mem_of_find?_eq_some hfind) hmem
          (by
            have hen : name = e.2.name := by simpa using List.find?_some hfind
            exact hen.symm.trans hname.symm)
        refine Or.inr ⟨t'.normalize, t, ?_, rfl, hsame⟩
        rw [he]
        rfl

/-- A set with a toggle in it has one after the round trip. -/
theorem roundTrip_size {s : ToggleSet} (h : s.size ≠ 0) : s.roundTrip.size ≠ 0 := by
  obtain ⟨e, es, hes⟩ := List.exists_cons_of_ne_nil (fun h0 => h (List.length_eq_zero_iff.mpr h0))
  intro hzero
  have hnone := size_eq_zero_iff.mp hzero e.2.name
  rw [find_roundTrip, hes, List.find?_cons_of_pos (by simp)] at hnone
  nomatch hnone

end ToggleSet

/-! ## The two lives of a client -/

namespace UnleashClient

variable {J : JsonLib} {config : ClientConfig}

theorem overridingBootstrap_some {b : ToggleSet} (h : config.overridingBootstrap = some b) :
    ∃ bootstrap, config.bootstrap = some bootstrap ∧ b = ToggleSet.ofMap bootstrap.map ∧
      b.size ≠ 0 := by
  unfold ClientConfig.overridingBootstrap at h
  split at h
  · nomatch h
  · rename_i bootstrap hboot
    split at h
    · rename_i hcond
      cases h
      refine ⟨bootstrap, hboot, rfl, fun hzero => ?_⟩
      have hempty : bootstrap.map.entries = [] := List.length_eq_zero_iff.mp hzero
      rw [hempty] at hcond
      simp at hcond
    · nomatch h

/-- A store that holds flags decides the next construction. -/
theorem make_cached {σ : Type} {P : StorageProvider σ} {storage : σ} {s : ToggleSet}
    (hget : P.get storage = some s) (hsize : s.size ≠ 0) :
    cachedToggles P storage = some s ∧
    make P config storage = some { toggleFetcher := ToggleFetcher.make config
                                   flagStore := { snapshot := s, ready := true }
                                   storage := storage } := by
  have hcached : cachedToggles P storage = some s := by
    rw [cachedToggles, hget, Option.filter_some, if_pos (by simpa using hsize)]
  exact ⟨hcached, by rw [make_eq, hcached]⟩

/-- The flags and the backup file after the replies so far. -/
structure Life (J : JsonLib) (c₀ c : UnleashClient (Option Bytes))
    (as : List (Context × HttpReply)) : Prop where
  unchanged : lastStored J as = none → c.flagStore = c₀.flagStore ∧ c.storage = c₀.storage
  updated : ∀ r s, lastStored J as = some (r, s) → c.flagStore.snapshot = s ∧ s.size ≠ 0 ∧
    s.Canonical ∧ FileStorageProvider.get J c.storage = some s.roundTrip

theorem life_step {c₀ c c' : UnleashClient (Option Bytes)} {as : List (Context × HttpReply)}
    {a : Context × HttpReply} (h : Life J c₀ c as)
    (hstep : fetchStep J (fileStorageProvider J) c a = some c') : Life J c₀ c' (as ++ [a]) := by
  obtain ⟨f, events, -, hfetched⟩ := fetchStep_fetched hstep
  generalize hresp : a.2 = resp at hfetched
  cases hfetched with
  | rejected sdkState events hacc _ =>
    have hlast : lastStored J (as ++ [a]) = lastStored J as := by
      rw [lastStored_snoc, hresp, stored_rejected hacc, Option.none_or]
    exact ⟨by rw [hlast]; exact h.unchanged, by rw [hlast]; exact h.updated⟩
  | empty r s hacc hsize =>
    have hlast : lastStored J (as ++ [a]) = lastStored J as := by
      rw [lastStored_snoc, hresp, stored_empty hacc hsize, Option.none_or]
    exact ⟨by rw [hlast]; exact h.unchanged, by rw [hlast]; exact h.updated⟩
  | updated r s storage hacc hsize hsave =>
    have hlast : lastStored J (as ++ [a]) = some (r, s) := by
      rw [lastStored_snoc, hresp, stored_updated hacc hsize, Option.some_or]
    obtain ⟨-, -, hdecode⟩ := accepted_some hacc
    obtain ⟨hcanon, hutf8⟩ := decode_ok J hdecode
    obtain ⟨text, htext, hget⟩ := FileStorageProvider.get_save c.storage hutf8
    have hstorage : storage = some text := Except.ok.inj (hsave.symm.trans htext)
    refine ⟨fun hnone => (nomatch hlast.symm.trans hnone), fun r' s' hlast' => ?_⟩
    rw [hlast] at hlast'
    cases hlast'
    exact ⟨rfl, hsize, hcanon, by rw [hstorage]; exact hget⟩

/-- **Restart, exactly.**  A new client over the same backup file and configuration can always be
    constructed.  It answers every question as the one before it did if and only if either the
    flags do not come from the bootstrap, or the bootstrap is stable. -/
theorem restart_equivalent_iff (J : JsonLib) (config : ClientConfig) (file : Option Bytes)
    (c₀ c : UnleashClient (Option Bytes)) (as : List (Context × HttpReply))
    (hutf8 : ∀ bootstrap, config.bootstrap = some bootstrap →
      (ToggleSet.ofMap bootstrap.map).utf8 = true)
    (hmake : make (fileStorageProvider J) config file = some c₀)
    (hrun : Machine.run (fetchStep J (fileStorageProvider J)) c₀ as = some c)
    (hready : c.flagStore.ready = true) :
    ∃ c', make (fileStorageProvider J) config c.storage = some c' ∧
      ((∀ name, c'.flagStore.snapshot.answers name = c.flagStore.snapshot.answers name) ↔
        ∀ b, config.overridingBootstrap = some b →
          cachedToggles (fileStorageProvider J) file = none → lastStored J as = none →
          b.Stable) := by
  have hlife : Life J c₀ c as :=
    Machine.run_history (I := fun d bs => Life J c₀ d bs) ⟨fun _ => ⟨rfl, rfl⟩, nofun⟩
      (fun bs d a e _ hd he => life_step hd he) hrun
  cases hlast : lastStored J as with
  | some p =>
    -- the flags came with a reply, in the codec's form
    obtain ⟨r, s⟩ := p
    obtain ⟨hsnapshot, hsize, hcanon, hget⟩ := hlife.updated r s hlast
    refine ⟨_, (make_cached hget (ToggleSet.roundTrip_size hsize)).2, ?_⟩
    refine iff_of_true (fun name => ?_) (fun b _ _ hnone => nomatch hnone)
    rw [hsnapshot]
    exact (ToggleSet.roundTrip_sameMap_iff.mpr hcanon).answers_eq name
  | none =>
    obtain ⟨hflags, hstorage⟩ := hlife.unchanged hlast
    rw [hflags] at hready ⊢
    rw [hstorage]
    rw [make_eq] at hmake
    split at hmake
    · -- the flags came from the backup file, which is still there
      rename_i s hcached
      cases hmake
      refine ⟨_, by rw [make_eq, hcached], iff_of_true (fun name => rfl) ?_⟩
      intro b _ hnone
      rw [hcached] at hnone
      nomatch hnone
    · -- there are no flags
      cases hmake
      nomatch hready
    · -- the flags are those of the bootstrap, and the backup file holds their round trip
      rename_i b hcached hboot
      obtain ⟨bootstrap, hconfig, rfl, hsize⟩ := overridingBootstrap_some hboot
      obtain ⟨text, htext, hget⟩ := FileStorageProvider.get_save file
        (hutf8 bootstrap hconfig)
      have hsave : (fileStorageProvider J).save file (ToggleSet.ofMap bootstrap.map) =
        .ok (some text) := htext
      rw [hsave] at hmake
      cases hmake
      refine ⟨_, (make_cached hget (ToggleSet.roundTrip_size hsize)).2, ?_⟩
      have hiff := ToggleSet.roundTrip_answers_iff (s := ToggleSet.ofMap bootstrap.map)
      refine hiff.trans ⟨fun h b hb _ _ => ?_, fun h => h _ hboot hcached rfl⟩
      rw [hboot] at hb
      cases hb
      exact h

/-! ## A flag that is off, with a variant that is on -/

/-- A configuration whose bootstrap has one toggle, under the key `a`. -/
def bootstrapConfig (t : Toggle) : ClientConfig :=
  { ClientConfig.make (bytes "u") (bytes "k") (bytes "app") [] with
    bootstrap := some ⟨(∅ : KeyMap Bytes Toggle).insert (bytes "a") t⟩ }

/-- It is the only one. -/
theorem find_bootstrapConfig {t u : Toggle} {b : ToggleSet} {k : Bytes}
    (hb : (bootstrapConfig t).overridingBootstrap = some b) (hu : b.find k = some u) :
    k = bytes "a" ∧ u = t := by
  cases hb
  have hu : ((∅ : KeyMap Bytes Toggle).insert (bytes "a") t).lookup k = some u := hu
  rw [KeyMap.lookup_insert] at hu
  split at hu <;> cases hu
  rename_i hk
  exact ⟨hk, rfl⟩

def plainToggle : Toggle := { name := bytes "a", enabled := true }

/-- Disabled, but with an enabled variant. -/
def offToggle : Toggle := { name := bytes "a", variant := Variant.make (bytes "v") true none }

set_option maxRecDepth 8000 in
theorem restart_equivalent_iff_plain :
    ∃ c, make (fileStorageProvider JsonText.compact) (bootstrapConfig plainToggle) none = some c ∧
      ∃ c', make (fileStorageProvider JsonText.compact) (bootstrapConfig plainToggle) c.storage =
          some c' ∧
        ∀ name, c'.flagStore.snapshot.answers name = c.flagStore.snapshot.answers name := by
  obtain ⟨c', hmake, hiff⟩ := restart_equivalent_iff JsonText.compact (bootstrapConfig plainToggle)
    none _ _ [] (by rintro bootstrap ⟨rfl⟩; decide) rfl rfl rfl
  refine ⟨_, rfl, c', hmake, hiff.mpr fun b hb _ _ k t ht => ?_⟩
  obtain ⟨rfl, rfl⟩ := find_bootstrapConfig hb ht
  exact ⟨bytes "a", plainToggle, ht, rfl, by decide, by decide, by decide⟩

set_option maxRecDepth 8000 in
/-- The first client offers the variant of the flag `a`, the second one does not. -/
theorem restart_drops_variant :
    ∃ c c', make (fileStorageProvider JsonText.compact) (bootstrapConfig offToggle) none = some c ∧
      c.flagStore.ready = true ∧
      make (fileStorageProvider JsonText.compact) (bootstrapConfig offToggle) c.storage = some c' ∧
      c'.flagStore.snapshot.answers (bytes "a") ≠ c.flagStore.snapshot.answers (bytes "a") :=
  ⟨_, _, rfl, rfl, rfl, by decide⟩

end UnleashClient

end Unleash
