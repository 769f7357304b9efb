/-
  VARIANTS OF DISABLED FLAGS.

  `getVariant` does not look at the enabled bit: that a disabled flag yields the disabled variant
  is left to whoever makes a toggle set.  The decoder sees to it (`decode_ok`), so it holds of
  every set that a reply or a backup file brings; the constructors of `Toggle` and `ToggleSet` do
  not, and through them a bootstrap map, or a storage provider of the application, brings in
  whatever the application has put together.

  So a snapshot keeps the law exactly if it came with a reply, or if the flags that the client
  was constructed with keep it (`variant_coherent_iff`).
-/
import UnleashSdk.Restart

set_option linter.unusedVariables false

namespace Unleash

namespace ToggleSet

/-- A flag with an enabled variant is enabled, and a disabled one has the disabled variant. -/
def VariantCoherent (s : ToggleSet) : Prop :=
  ∀ f, ((s.getVariant f).enabled = true → s.isEnabled f = true) ∧
    (s.isEnabled f = false → s.getVariant f = Variant.disabledFactory)

/-- No toggle that is disabled carries another variant than the disabled one. -/
def DisabledBare (s : ToggleSet) : Prop :=
  ∀ k t, s.find k = some t → t.enabled = false → t.variant = Variant.disabledFactory

theorem variantCoherent_iff {s : ToggleSet} : s.VariantCoherent ↔ s.DisabledBare := by
  constructor
  · intro h k t ht hoff
    have hkey := (h k).2
    unfold isEnabled getVariant at hkey
    simp only [ht] at hkey
    exact hkey hoff
  · intro h f
    unfold isEnabled getVariant
    cases hf : s.find f with
    | none =>
      refine ⟨fun hon => ?_, fun _ => rfl⟩
      exact absurd hon (by decide)
    | some t =>
      refine ⟨fun hon => ?_, fun hoff => h f t hf hoff⟩
      have hon : t.variant.enabled = true := hon
      show t.enabled = true
      by_contra hoff
      rw [h f t hf (Bool.eq_false_iff.mpr hoff)] at hon
      exact absurd hon (by decide)

/-- What the decoder yields is bare. -/
theorem Canonical.disabledBare {s : ToggleSet} (h : s.Canonical) : s.DisabledBare :=
  fun k t ht => (h k t ht).2.1

end ToggleSet

namespace UnleashClient

variable {σ : Type}

/-- The flags that a client is constructed with: those in storage, or else the bootstrap. -/
def initialToggles (P : StorageProvider σ) (config : ClientConfig) (storage : σ) :
    Option ToggleSet :=
  (cachedToggles P storage).or config.overridingBootstrap

theorem make_snapshot {P : StorageProvider σ} {config : ClientConfig} {storage : σ}
    {c : UnleashClient σ} (h : make P config storage = some c) :
    c.flagStore.snapshot = (initialToggles P config storage).getD ToggleSet.empty := by
  rw [make_eq] at h
  unfold initialToggles
  split at h
  · rename_i hcached
    cases h
    rw [hcached]
    rfl
  · rename_i hcached hboot
    cases h
    rw [hcached, hboot]
    rfl
  · rename_i b hcached hboot
    split at h <;> cases h
    rw [hcached, hboot]
    rfl

/-- The backup file brings in only what the decoder yields: with it the bootstrap decides. -/
theorem initialToggles_file {J : JsonLib} {config : ClientConfig} {file : Option Bytes} :
    (∀ s, initialToggles (fileStorageProvider J) config file = some s → s.DisabledBare) ↔
      (cachedToggles (fileStorageProvider J) file = none →
        ∀ b, config.overridingBootstrap = some b → b.DisabledBare) := by
  unfold initialToggles
  cases hcached : cachedToggles (fileStorageProvider J) file with
  | none =>
    rw [Option.none_or]
    exact ⟨fun h _ => h, fun h => h rfl⟩
  | some s =>
    have hget : FileStorageProvider.get J file = some s := (Option.filter_eq_some_iff.mp hcached).1
    refine iff_of_true (fun s' hs' => ?_) fun hnone => by cases hnone
    cases hs'
    exact (FileStorageProvider.get_canonical hget).1.disabledBare

/-- **Coherence of variants, exactly.**  For every configuration, storage provider and sequence
    of replies: the snapshot is coherent if and only if a reply has brought it, or the flags that
    the client was constructed with have no disabled toggle with a variant of its own. -/
theorem variant_coherent_iff (J : JsonLib) (P : StorageProvider σ) (config : ClientConfig)
    (storage : σ) (c₀ c : UnleashClient σ) (as : List (Context × HttpReply))
    (hmake : make P config storage = some c₀)
    (hrun : Machine.run (fetchStep J P) c₀ as = some c) :
    c.flagStore.snapshot.VariantCoherent ↔
      (lastStored J as).isSome = true ∨
        ∀ s, initialToggles P config storage = some s → s.DisabledBare := by
  rw [ToggleSet.variantCoherent_iff, snapshot_run hrun, make_snapshot hmake]
  cases hlast : lastStored J as with
  | some p =>
    obtain ⟨a, -, hacc⟩ := lastStored_mem (r := p.1) (s := p.2) hlast
    obtain ⟨-, -, hdecode⟩ := accepted_some hacc
    exact iff_of_true (decode_ok J hdecode).1.disabledBare (Or.inl rfl)
  | none =>
    cases hinit : initialToggles P config storage with
    | none =>
      refine iff_of_true (fun k t ht => ?_) (Or.inr fun s hs => by cases hs)
      cases ht
    | some s =>
      constructor
      · intro h
        refine Or.inr fun s' hs' => ?_
        cases hs'
        exact h
      · rintro (hsome | h)
        · cases hsome
        · exact h s rfl

/-- A bootstrap whose toggle is disabled and bare. -/
def bareToggle : Toggle := { name := bytes "a" }

set_option maxRecDepth 8000 in
theorem variant_coherent_iff_bare :
    ∃ c, make localStorageProvider (bootstrapConfig bareToggle) () = some c ∧
      c.flagStore.snapshot.isEnabled (bytes "a") = false ∧
      c.flagStore.snapshot.VariantCoherent := by
  have hiff := variant_coherent_iff JsonText.compact localStorageProvider
    (bootstrapConfig bareToggle) () _ _ [] rfl rfl
  refine ⟨_, rfl, by decide, hiff.mpr (Or.inr fun s hs k t ht _ => ?_)⟩
  obtain ⟨rfl, rfl⟩ := find_bootstrapConfig hs ht
  rfl

set_option maxRecDepth 8000 in
/-- A bootstrapped flag is off, and its variant is on. -/
theorem variant_of_disabled_flag :
    ∃ c, make localStorageProvider (bootstrapConfig offToggle) () = some c ∧
      (c.flagStore.snapshot.getVariant (bytes "a")).enabled = true ∧
      c.flagStore.snapshot.isEnabled (bytes "a") = false ∧
      ¬ c.flagStore.snapshot.VariantCoherent := by
  refine ⟨_, rfl, by decide, by decide, fun h => ?_⟩
  exact absurd ((h (bytes "a")).1 (by decide)) (by decide)

end UnleashClient

end Unleash
