/-
  THE TOGGLE CODEC, and what a round trip through it keeps.

  The decoder (`decodeToggle`) reads one entry of the `toggles` array with eight ways out; the
  encoder was written independently of it.  Both are compared with ONE function on toggles:

      normalize : Toggle → Toggle

  which says what the wire format keeps — a disabled toggle loses its variant, an enabled one
  keeps it only if the variant is enabled and named, and its payload only if that has a type.

  * `decodeToggle_toJson`   — decoding an encoded toggle yields its normal form;
  * `decodeToggle_canonical` — whatever the decoder yields IS in normal form (`Canonical`);
  * `decode_encode`         — on whole sets: every toggle's normal form, under its own name.

  The round-trip law is assembled from these: a set survives exactly if it is canonical, and the
  canonical sets are exactly those the decoder can yield.
-/
import UnleashSdk.Lib.JsonText
import UnleashSdk.Domain

set_option linter.unusedVariables false

namespace Unleash

open Json (assign)

/-! ## The decoder -/

def isObject : Json → Bool
  | .obj _ => true
  | _ => false

/-- The payload object of a usable variant: a non-empty string type and a string value. -/
def decodePayload (pObj : Json) : Option Payload :=
  match pObj.find (bytes "type"), pObj.find (bytes "value") with
  | some (.str type), some (.str value) => if type.isEmpty then none else some ⟨type, value⟩
  | _, _ => none

/-- The `variant` member of an enabled toggle. -/
def decodeVariant (itVariant : Option Json) : Except Bytes Variant :=
  match itVariant with
  | none => .ok Variant.disabledFactory
  | some vObj =>
    if isObject vObj = false then .error (bytes "toggle.variant is not an object")
    else
      match vObj.find (bytes "name"), vObj.find (bytes "enabled") with
      | some (.str vName), some (.bool true) =>
        if vName.isEmpty then .ok Variant.disabledFactory
        else
          match vObj.find (bytes "payload") with
          | none => .ok (Variant.make vName true none)
          | some pObj =>
            if isObject pObj = false then
              .error (bytes "toggle.variant.payload is not an object")
            else .ok (Variant.make vName true (decodePayload pObj))
      | _, _ => .ok Variant.disabledFactory

/-- The `impressionData` member: absent means false. -/
def decodeImpression (itImpr : Option Json) : Except Bytes Bool :=
  match itImpr with
  | none => .ok false
  | some (.bool b) => .ok b
  | some _ => .error (bytes "toggle.impressionData is not a boolean")

/-- One entry of the `toggles` array. -/
def decodeToggle (item : Json) : Except Bytes Toggle :=
  if isObject item = false then .error (bytes "toggle entry is not an object")
  else
    match item.find (bytes "name") with
    | some (.str toggleName) =>
      match item.find (bytes "enabled") with
      | some (.bool toggleEnabled) =>
        match decodeImpression (item.find (bytes "impressionData")) with
        | .error e => .error e
        | .ok toggleImpression =>
          if toggleEnabled = false then
            .ok { name := toggleName, enabled := false, impressionData := toggleImpression }
          else
            match decodeVariant (item.find (bytes "variant")) with
            | .error e => .error e
            | .ok variant =>
              .ok { name := toggleName, enabled := true, impressionData := toggleImpression,
                    variant := variant }
      | _ => .error (bytes "toggle.enabled is missing or not a boolean")
    | _ => .error (bytes "toggle.name is missing or not a string")

/-- The loop over the array; `index` counts the entries already decoded. -/
def decodeToggles (index : Nat) : List Json → Except Bytes (List Toggle)
  | [] => .ok []
  | item :: items =>
    match decodeToggle item with
    | .error e =>
      .error (bytes "invalid toggle at index " ++ bytes (toString index) ++ bytes ": " ++ e)
    | .ok t =>
      match decodeToggles (index + 1) items with
      | .error e => .error e
      | .ok ts => .ok (t :: ts)

def decodeClientFeaturesResponse (J : JsonLib) (jsonText : Bytes) : Except Bytes ToggleSet :=
  match J.parse jsonText with
  | none => .error (bytes "input is not valid JSON")
  | some root =>
    match root.find (bytes "toggles") with
    | none => .error (bytes "missing toggles field")
    | some (.arr toggles) =>
      match decodeToggles 0 toggles with
      | .error e => .error e
      | .ok vToggles => .ok (ToggleSet.ofVector vToggles)
    | some _ => .error (bytes "toggles field is not an array")

/-! ## The encoder -/

def Payload.toJson (p : Payload) : Json :=
  (Json.null.set (bytes "type") (.str p.type)).set (bytes "value") (.str p.value)

def Variant.toJson (v : Variant) : Json :=
  let vj := (Json.null.set (bytes "name") (.str v.name)).set (bytes "enabled") (.bool v.enabled)
  match v.payload with
  | some payload => if payload.empty then vj else vj.set (bytes "payload") payload.toJson
  | none => vj

def Toggle.toJson (t : Toggle) : Json :=
  (((Json.null.set (bytes "name") (.str t.name)).set (bytes "enabled") (.bool t.enabled)).set
    (bytes "impressionData") (.bool t.impressionData)).set (bytes "variant") t.variant.toJson

/-- The value that is printed for a toggle set, entry by entry. -/
def ToggleSet.toJson (toggleSet : ToggleSet) : Json :=
  Json.null.set (bytes "toggles") (.arr (toggleSet.toggles.entries.map fun e => e.2.toJson))

/-- The encoder; `none` when the printer throws. -/
def encodeClientFeaturesResponse (J : JsonLib) (toggleSet : ToggleSet) : Option Bytes :=
  J.dump toggleSet.toJson

/-! ## What the wire format keeps -/

/-- The payload that survives: one with a type. -/
def keptPayload (p : Option Payload) : Option Payload := p.filter fun p => !p.empty

/-- The variant that survives under an enabled toggle. -/
def Variant.normalize (v : Variant) : Variant :=
  if v.enabled && !v.name.isEmpty then Variant.make v.name true (keptPayload v.payload)
  else Variant.disabledFactory

/-- The toggle that survives. -/
def Toggle.normalize (t : Toggle) : Toggle :=
  { t with variant := if t.enabled then t.variant.normalize else Variant.disabledFactory }

/-- A disabled toggle carries the disabled variant; an enabled one that or an enabled, named
    variant whose payload, if any, has a type. -/
def Toggle.Canonical (t : Toggle) : Prop :=
  (t.enabled = false → t.variant = Variant.disabledFactory) ∧
  (t.enabled = true → t.variant = Variant.disabledFactory ∨
    (t.variant.enabled = true ∧ t.variant.name ≠ [] ∧
      ∀ p, t.variant.payload = some p → p.type ≠ []))

/-- Every toggle is canonical and filed under its own name. -/
def ToggleSet.Canonical (s : ToggleSet) : Prop :=
  ∀ k t, s.find k = some t → t.name = k ∧ t.Canonical

theorem keptPayload_eq_self_iff {p : Option Payload} :
    keptPayload p = p ↔ ∀ q, p = some q → q.type ≠ [] := by
  cases p with
  | none => simp [keptPayload]
  | some q => simp [keptPayload, Option.filter, Payload.empty]

theorem Variant.normalize_disabledFactory :
    Variant.disabledFactory.normalize = Variant.disabledFactory := rfl

/-- Exactly the canonical toggles survive unchanged. -/
theorem Toggle.normalize_eq_iff {t : Toggle} : t.normalize = t ↔ t.Canonical := by
  have hfield : t.normalize = t ↔
      (if t.enabled then t.variant.normalize else Variant.disabledFactory) = t.variant := by
    obtain ⟨name, enabled, impressionData, variant⟩ := t
    simp [Toggle.normalize]
  rw [hfield]
  cases he : t.enabled with
  | false =>
    simp only [Toggle.Canonical, he, Bool.false_eq_true, if_false, false_imp_iff, and_true,
      true_imp_iff]
    exact eq_comm
  | true =>
    simp only [Toggle.Canonical, he, if_true, Bool.true_eq_false, false_imp_iff, true_and,
      true_imp_iff]
    constructor
    · intro h
      unfold Variant.normalize at h
      split at h
      · rename_i hu
        obtain ⟨hen, hname⟩ := Bool.and_eq_true_iff.mp hu
        refine Or.inr ⟨hen, by simpa using hname, keptPayload_eq_self_iff.mp ?_⟩
        exact congrArg Variant.payload h
      · exact Or.inl h.symm
    · rintro (h | ⟨hen, hname, hp⟩)
      · rw [h, Variant.normalize_disabledFactory]
      · have hu : (t.variant.enabled && !t.variant.name.isEmpty) = true := by
          simpa [hen] using hname
        unfold Variant.normalize
        rw [if_pos hu]
        exact Variant.ext_fields rfl hen.symm (keptPayload_eq_self_iff.mpr hp)

/-! ## Decoding what was encoded -/

theorem Payload.toJson_eq (p : Payload) :
    p.toJson = .obj [(bytes "type", .str p.type), (bytes "value", .str p.value)] := rfl

/-- The encoded variant, in member order: the payload is written only if it has a type. -/
theorem Variant.toJson_eq (v : Variant) :
    v.toJson = .obj ([(bytes "enabled", .bool v.enabled), (bytes "name", .str v.name)] ++
      match keptPayload v.payload with
      | some p => [(bytes "payload", p.toJson)]
      | none => []) := by
  unfold Variant.toJson keptPayload
  cases v.payload with
  | none => rfl
  | some p => cases he : p.empty <;> simp [Option.filter, he] <;> rfl

theorem Toggle.toJson_eq (t : Toggle) :
    t.toJson = .obj [(bytes "enabled", .bool t.enabled),
      (bytes "impressionData", .bool t.impressionData), (bytes "name", .str t.name),
      (bytes "variant", t.variant.toJson)] := rfl

theorem decodePayload_toJson {p : Payload} (h : p.type ≠ []) :
    decodePayload p.toJson = some p := by
  show (if p.type.isEmpty then none else some (Payload.mk p.type p.value)) = some p
  rw [if_neg (by simpa using h)]

theorem decodeVariant_toJson (v : Variant) : decodeVariant (some v.toJson) = .ok v.normalize := by
  rw [Variant.toJson_eq]
  cases hk : keptPayload v.payload with
  | none =>
    show (match some (Json.str v.name), some (Json.bool v.enabled) with
      | some (.str vName), some (.bool true) =>
        if vName.isEmpty then .ok Variant.disabledFactory
        else Except.ok (Variant.make vName true none)
      | _, _ => .ok Variant.disabledFactory) = Except.ok (ε := Bytes) v.normalize
    unfold Variant.normalize
    cases he : v.enabled <;> cases hn : v.name.isEmpty <;> simp [hn, hk]
  | some p =>
    have hp : p.type ≠ [] := by
      have hmem : v.payload.filter (fun p => !p.empty) = some p := hk
      obtain ⟨-, hne⟩ := Option.filter_eq_some_iff.mp hmem
      simpa [Payload.empty] using hne
    show (match some (Json.str v.name), some (Json.bool v.enabled) with
      | some (.str vName), some (.bool true) =>
        if vName.isEmpty then .ok Variant.disabledFactory
        else Except.ok (Variant.make vName true (decodePayload p.toJson))
      | _, _ => .ok Variant.disabledFactory) = Except.ok (ε := Bytes) v.normalize
    unfold Variant.normalize
    cases he : v.enabled <;> cases hn : v.name.isEmpty <;>
      simp [hn, hk, decodePayload_toJson hp]

/-- Decoding an encoded toggle yields its normal form. -/
theorem decodeToggle_toJson (t : Toggle) : decodeToggle t.toJson = .ok t.normalize := by
  show (if t.enabled = false then
      .ok { name := t.name, enabled := false, impressionData := t.impressionData }
    else
      match decodeVariant (some t.variant.toJson) with
      | .error e => .error e
      | .ok variant =>
        .ok { name := t.name, enabled := true, impressionData := t.impressionData,
              variant := variant }) = Except.ok (ε := Bytes) t.normalize
  rw [decodeVariant_toJson]
  cases he : t.enabled <;> simp [Toggle.normalize, he]

theorem decodeToggles_toJson (index : Nat) (ts : List Toggle) :
    decodeToggles index (ts.map Toggle.toJson) = .ok (ts.map Toggle.normalize) := by
  induction ts generalizing index with
  | nil => rfl
  | cons t ts ih => simp only [List.map_cons, decodeToggles, decodeToggle_toJson, ih]

/-! ## What the decoder yields -/

theorem decodeVariant_cases {it : Option Json} {v : Variant} (h : decodeVariant it = .ok v) :
    v = Variant.disabledFactory ∨
      (v.enabled = true ∧ v.name ≠ [] ∧ ∀ p, v.payload = some p → p.type ≠ []) := by
  unfold decodeVariant at h
  split at h
  · exact Or.inl (Except.ok.inj h).symm
  · split at h
    · nomatch h
    · split at h
      · split at h
        · exact Or.inl (Except.ok.inj h).symm
        · rename_i hname
          have hname' : ∀ n : Bytes, ¬ n.isEmpty = true → n ≠ [] := fun n hn => by simpa using hn
          split at h
          · cases h
            exact Or.inr ⟨rfl, hname' _ hname, fun p hp => nomatch hp⟩
          · split at h
            · nomatch h
            · cases h
              refine Or.inr ⟨rfl, hname' _ hname, fun p hp => ?_⟩
              rw [Variant.make_enabled_payload] at hp
              unfold decodePayload at hp
              split at hp
              · split at hp
                · nomatch hp
                · rename_i htype
                  cases hp
                  simpa using htype
              · nomatch hp
      · exact Or.inl (Except.ok.inj h).symm

/-- Whatever the decoder yields is canonical. -/
theorem decodeToggle_canonical {item : Json} {t : Toggle} (h : decodeToggle item = .ok t) :
    t.Canonical := by
  unfold decodeToggle at h
  split at h
  · nomatch h
  · split at h
    · split at h
      · split at h
        · nomatch h
        · split at h
          · cases h
            exact ⟨fun _ => rfl, fun he => nomatch he⟩
          · split at h
            · nomatch h
            · rename_i hv
              cases h
              exact ⟨fun he => (nomatch he), fun _ => decodeVariant_cases hv⟩
      · nomatch h
    · nomatch h

theorem decodeToggles_mem {index : Nat} {items : List Json} {ts : List Toggle}
    (h : decodeToggles index items = .ok ts) {t : Toggle} (ht : t ∈ ts) :
    ∃ item ∈ items, decodeToggle item = .ok t := by
  induction items generalizing index ts with
  | nil => cases h; nomatch ht
  | cons item items ih =>
    unfold decodeToggles at h
    split at h
    · nomatch h
    · rename_i t₁ h₁
      split at h
      · nomatch h
      · rename_i ts' h'
        cases h
        rcases List.mem_cons.mp ht with rfl | ht
        · exact ⟨item, List.mem_cons_self, h₁⟩
        · obtain ⟨item', hmem, hok⟩ := ih h' ht
          exact ⟨item', List.mem_cons_of_mem _ hmem, hok⟩

/-! ## The strings of a JSON value and of the toggles in it -/

theorem Toggle.utf8_iff {t : Toggle} : t.utf8 = true ↔ Bytes.validUtf8 t.name = true ∧
    Bytes.validUtf8 t.variant.name = true ∧
      ∀ p, t.variant.payload = some p → Bytes.validUtf8 p.type = true ∧
        Bytes.validUtf8 p.value = true := by
  simp only [Toggle.utf8, Variant.utf8, Payload.utf8, Bool.and_eq_true, Option.all_eq_true]

theorem Variant.toJson_normal (v : Variant) : v.toJson.Normal := by
  rw [Variant.toJson_eq]
  cases keptPayload v.payload with
  | none =>
    refine ⟨Json.sorted_iff_keys.mpr ?_, trivial, trivial, trivial⟩
    show [bytes "enabled", bytes "name"].Pairwise (· < ·)
    decide
  | some p =>
    refine ⟨Json.sorted_iff_keys.mpr ?_, trivial, trivial,
      ⟨Json.sorted_iff_keys.mpr ?_, trivial, trivial, trivial⟩, trivial⟩
    · show [bytes "enabled", bytes "name", bytes "payload"].Pairwise (· < ·)
      decide
    · show [bytes "type", bytes "value"].Pairwise (· < ·)
      decide

theorem Toggle.toJson_normal (t : Toggle) : t.toJson.Normal := by
  rw [Toggle.toJson_eq]
  refine ⟨Json.sorted_iff_keys.mpr ?_, trivial, trivial, trivial, t.variant.toJson_normal, trivial⟩
  show [bytes "enabled", bytes "impressionData", bytes "name", bytes "variant"].Pairwise (· < ·)
  decide

theorem ToggleSet.toJson_normal (s : ToggleSet) : s.toJson.Normal := by
  refine ⟨List.pairwise_singleton _ _, Json.normalList_iff.mpr ?_, trivial⟩
  intro j hj
  obtain ⟨e, -, rfl⟩ := List.mem_map.mp hj
  exact e.2.toJson_normal

theorem Toggle.toJson_utf8 {t : Toggle} (h : t.utf8 = true) : t.toJson.utf8 = true := by
  obtain ⟨hname, hvname, hpayload⟩ := Toggle.utf8_iff.mp h
  have hkeys : ∀ k ∈ [bytes "enabled", bytes "impressionData", bytes "name", bytes "variant",
      bytes "payload", bytes "type", bytes "value"], Bytes.validUtf8 k = true := by decide
  rw [Toggle.toJson_eq, Variant.toJson_eq]
  cases hk : keptPayload t.variant.payload with
  | none => simp_all [Json.utf8, Json.utf8Members]
  | some p =>
    have hp : t.variant.payload = some p := (Option.filter_eq_some_iff.mp hk).1
    obtain ⟨htype, hvalue⟩ := hpayload p hp
    simp_all [Json.utf8, Json.utf8Members, Payload.toJson_eq]

theorem ToggleSet.toJson_utf8 {s : ToggleSet} (h : s.utf8 = true) : s.toJson.utf8 = true := by
  refine Json.utf8Members_iff.mpr fun p hp => ?_
  obtain rfl := List.mem_singleton.mp hp
  have hkey : Bytes.validUtf8 (bytes "toggles") = true := by decide
  refine ⟨hkey, Json.utf8List_iff.mpr fun j hj => ?_⟩
  obtain ⟨e, he, rfl⟩ := List.mem_map.mp hj
  exact Toggle.toJson_utf8 (ToggleSet.utf8_iff.mp h e.1 e.2 (KeyMap.mem_entries.mp he))

theorem decodePayload_utf8 {pObj : Json} {p : Payload} (hobj : pObj.utf8 = true)
    (h : decodePayload pObj = some p) :
    Bytes.validUtf8 p.type = true ∧ Bytes.validUtf8 p.value = true := by
  unfold decodePayload at h
  split at h
  · rename_i htype hvalue
    split at h
    · nomatch h
    · cases h
      exact ⟨Json.find_utf8 hobj htype, Json.find_utf8 hobj hvalue⟩
  · nomatch h

theorem decodeVariant_utf8 {vObj : Json} {v : Variant} (hobj : vObj.utf8 = true)
    (h : decodeVariant (some vObj) = .ok v) : v.utf8 = true := by
  have hdisabled : Variant.disabledFactory.utf8 = true := by decide
  unfold decodeVariant at h
  simp only at h
  split at h
  · nomatch h
  · split at h
    · rename_i vName hname _
      have hvName : Bytes.validUtf8 vName = true := Json.find_utf8 hobj hname
      split at h
      · cases h; exact hdisabled
      · split at h
        · cases h
          simp [Variant.utf8, Variant.make, hvName]
        · rename_i pObj hpayload
          split at h
          · nomatch h
          · cases h
            have hpObj : pObj.utf8 = true := Json.find_utf8 hobj hpayload
            simp only [Variant.utf8, Variant.make_enabled_payload, Bool.and_eq_true,
              Option.all_eq_true, Payload.utf8]
            exact ⟨hvName, fun p hp => decodePayload_utf8 hpObj hp⟩
    · cases h; exact hdisabled

/-- The strings of a decoded toggle are strings of the value it was decoded from. -/
theorem decodeToggle_utf8 {item : Json} {t : Toggle} (hitem : item.utf8 = true)
    (h : decodeToggle item = .ok t) : t.utf8 = true := by
  have hdisabled : Variant.disabledFactory.utf8 = true := by decide
  unfold decodeToggle at h
  split at h
  · nomatch h
  · split at h
    · rename_i name hname
      have hn : Bytes.validUtf8 name = true := Json.find_utf8 hitem hname
      split at h
      · split at h
        · nomatch h
        · split at h
          · cases h
            simp [Toggle.utf8, hn, hdisabled]
          · split at h
            · nomatch h
            · rename_i v hv
              cases h
              have hvutf8 : v.utf8 = true := by
                cases hf : item.find (bytes "variant") with
                | none =>
                  rw [hf] at hv
                  cases hv; exact hdisabled
                | some vObj =>
                  rw [hf] at hv
                  exact decodeVariant_utf8 (Json.find_utf8 hitem hf) hv
              simp [Toggle.utf8, hn, hvutf8]
      · nomatch h
    · nomatch h

/-! ## Whole sets -/

/-- What a set becomes on the wire and back: every toggle's normal form under its own name. -/
def ToggleSet.roundTrip (s : ToggleSet) : ToggleSet :=
  ToggleSet.ofVector (s.toggles.entries.map fun e => e.2.normalize)

/-- **Decoding what was encoded.**  The printed text of any set is accepted, and yields the
    round trip of that set. -/
theorem decode_encode (J : JsonLib) {s : ToggleSet} {text : Bytes}
    (h : encodeClientFeaturesResponse J s = some text) :
    decodeClientFeaturesResponse J text = .ok s.roundTrip := by
  have hparse : J.parse text = some s.toJson := J.parse_dump s.toJson_normal h
  have hfind : s.toJson.find (bytes "toggles") =
      some (.arr ((s.toggles.entries.map Sigma.snd).map Toggle.toJson)) := by
    rw [List.map_map]; rfl
  simp only [decodeClientFeaturesResponse, hparse, hfind, decodeToggles_toJson]
  rw [List.map_map]
  rfl

theorem encode_of_utf8 (J : JsonLib) {s : ToggleSet} (h : s.utf8 = true) :
    ∃ text, encodeClientFeaturesResponse J s = some text :=
  J.dump_of_utf8 (ToggleSet.toJson_utf8 h)

theorem ToggleSet.find_roundTrip (s : ToggleSet) (name : Bytes) :
    s.roundTrip.find name =
      (s.toggles.entries.find? fun e => name = e.2.name).map fun e => e.2.normalize := by
  rw [ToggleSet.roundTrip, ToggleSet.find_ofVector, List.find?_map]
  rfl

/-- A vector of canonical toggles fills a canonical set. -/
theorem ToggleSet.ofVector_canonical {ts : List Toggle} (h : ∀ t ∈ ts, t.Canonical) :
    (ToggleSet.ofVector ts).Canonical := by
  intro k t ht
  obtain ⟨hmem, hname⟩ := ToggleSet.find_ofVector_name ht
  exact ⟨hname, h t hmem⟩

theorem Toggle.normalize_canonical (t : Toggle) : t.normalize.Canonical :=
  decodeToggle_canonical (decodeToggle_toJson t)

theorem ToggleSet.roundTrip_canonical (s : ToggleSet) : s.roundTrip.Canonical := by
  refine ToggleSet.ofVector_canonical fun t ht => ?_
  obtain ⟨e, -, rfl⟩ := List.mem_map.mp ht
  exact e.2.normalize_canonical

theorem ToggleSet.Canonical.sameMap {s t : ToggleSet} (hs : s.Canonical) (h : s.SameMap t) :
    t.Canonical := fun k u hu => hs k u ((h.find_eq k).trans hu)

/-- A set is its own round trip exactly if it is canonical. -/
theorem ToggleSet.roundTrip_sameMap_iff {s : ToggleSet} :
    s.roundTrip.SameMap s ↔ s.Canonical := by
  refine ⟨fun h => s.roundTrip_canonical.sameMap h, fun hs => ?_⟩
  intro k
  show s.roundTrip.find k = s.find k
  rw [ToggleSet.find_roundTrip]
  cases hk : s.find k with
  | none =>
    -- a toggle named `k` would be filed under `k`
    rw [Option.map_eq_none_iff, List.find?_eq_none]
    intro e he hname
    have hfind : s.find e.1 = some e.2 := KeyMap.mem_entries.mp he
    have hkey : e.2.name = e.1 := (hs e.1 e.2 hfind).1
    have hke : k = e.1 := (of_decide_eq_true hname).trans hkey
    rw [hke, hfind] at hk
    nomatch hk
  | some t =>
    obtain ⟨hname, hcanon⟩ := hs k t hk
    have hmem : ⟨k, t⟩ ∈ s.toggles.entries := KeyMap.mem_entries.mpr hk
    cases hf : s.toggles.entries.find? (fun e => k = e.2.name) with
    | none =>
      have hnone := List.find?_eq_none.mp hf ⟨k, t⟩ hmem
      exact absurd (decide_eq_true hname.symm) hnone
    | some e =>
      have he := List.mem_of_find?_eq_some hf
      have hke : k = e.2.name := by simpa using List.find?_some hf
      have hfind : s.find e.1 = some e.2 := KeyMap.mem_entries.mp he
      have hkey : e.2.name = e.1 := (hs e.1 e.2 hfind).1
      rw [← hkey, ← hke, hk] at hfind
      cases hfind
      exact congrArg some (Toggle.normalize_eq_iff.mpr hcanon)

/-- Whatever set the decoder yields is canonical, and its strings are UTF-8. -/
theorem decode_ok (J : JsonLib) {text : Bytes} {s : ToggleSet}
    (h : decodeClientFeaturesResponse J text = .ok s) : s.Canonical ∧ s.utf8 = true := by
  unfold decodeClientFeaturesResponse at h
  split at h
  · nomatch h
  · rename_i root hparse
    split at h
    · nomatch h
    · rename_i items hfind
      split at h
      · nomatch h
      · rename_i ts hts
        cases h
        have hitems : ∀ j ∈ items, j.utf8 = true :=
          Json.utf8List_iff.mp (Json.find_utf8 (J.parse_utf8 hparse) hfind)
        refine ⟨ToggleSet.ofVector_canonical fun t ht => ?_, ToggleSet.utf8_iff.mpr ?_⟩
        · obtain ⟨item, -, hok⟩ := decodeToggles_mem hts ht
          exact decodeToggle_canonical hok
        · intro k t ht
          obtain ⟨item, hmem, hok⟩ := decodeToggles_mem hts (ToggleSet.find_ofVector_name ht).1
          exact decodeToggle_utf8 (hitems item hmem) hok
    · nomatch h

/-- **The round trip, exactly on its image.**  A set of UTF-8 strings is printed and read back;
    it comes back equal, as a map, exactly if it is canonical.  The canonical sets are all that
    the decoder yields, so a decoded set survives any further round trip. -/
theorem toggle_codec_round_trip (J : JsonLib) :
    (∀ ts : ToggleSet, ts.utf8 = true → ∃ text ts',
      encodeClientFeaturesResponse J ts = some text ∧
      decodeClientFeaturesResponse J text = .ok ts' ∧ (ts'.SameMap ts ↔ ts.Canonical)) ∧
    (∀ x ts, decodeClientFeaturesResponse J x = .ok ts → ts.Canonical) ∧
    (∀ x ts, decodeClientFeaturesResponse J x = .ok ts → ∃ text ts',
      encodeClientFeaturesResponse J ts = some text ∧
      decodeClientFeaturesResponse J text = .ok ts' ∧ ts'.SameMap ts) := by
  refine ⟨fun ts hts => ?_, fun x ts h => (decode_ok J h).1, fun x ts h => ?_⟩
  · obtain ⟨text, htext⟩ := encode_of_utf8 J hts
    exact ⟨text, ts.roundTrip, htext, decode_encode J htext, ToggleSet.roundTrip_sameMap_iff⟩
  · obtain ⟨hcanon, hutf8⟩ := decode_ok J h
    obtain ⟨text, htext⟩ := encode_of_utf8 J hutf8
    exact ⟨text, ts.roundTrip, htext, decode_encode J htext,
      ToggleSet.roundTrip_sameMap_iff.mpr hcanon⟩

/-- A body with one enabled toggle, and the set it decodes to. -/
def oneToggleText : Bytes := bytes "\x7b\"toggles\":[\x7b\"name\":\"a\",\"enabled\":true\x7d]\x7d"

def oneToggleSet : ToggleSet := ToggleSet.ofVector [{ name := bytes "a", enabled := true }]

set_option maxRecDepth 4000 in
theorem decode_oneToggleText :
    decodeClientFeaturesResponse JsonText.compact oneToggleText = .ok oneToggleSet := rfl

/-- Three toggles: one with a variant that has a payload, one disabled, one without a variant. -/
def severalText : Bytes := bytes ("\x7b\"toggles\":[\x7b\"name\":\"a\",\"enabled\":true," ++
  "\"impressionData\":true,\"variant\":\x7b\"name\":\"v\",\"enabled\":true," ++
  "\"payload\":\x7b\"type\":\"string\",\"value\":\"x\"\x7d\x7d\x7d," ++
  "\x7b\"name\":\"b\",\"enabled\":false\x7d,\x7b\"name\":\"c\",\"enabled\":true\x7d]\x7d")

def severalSet : ToggleSet := ToggleSet.ofVector
  [{ name := bytes "a", enabled := true, impressionData := true
     variant := Variant.make (bytes "v") true (some ⟨bytes "string", bytes "x"⟩) },
   { name := bytes "b" }, { name := bytes "c", enabled := true }]

set_option maxRecDepth 8000 in
theorem decode_severalText :
    decodeClientFeaturesResponse JsonText.compact severalText = .ok severalSet := rfl

/-- The round trip of that set, through a library that exists. -/
theorem toggle_codec_round_trip_several :
    (∃ text ts', encodeClientFeaturesResponse JsonText.compact severalSet = some text ∧
      decodeClientFeaturesResponse JsonText.compact text = .ok ts' ∧
      (ts'.SameMap severalSet ↔ severalSet.Canonical)) ∧
    severalSet.Canonical ∧
    (∃ text ts', encodeClientFeaturesResponse JsonText.compact severalSet = some text ∧
      decodeClientFeaturesResponse JsonText.compact text = .ok ts' ∧ ts'.SameMap severalSet) :=
  ⟨(toggle_codec_round_trip JsonText.compact).1 severalSet (by decide),
    (toggle_codec_round_trip JsonText.compact).2.1 severalText severalSet decode_severalText,
    (toggle_codec_round_trip JsonText.compact).2.2 severalText severalSet decode_severalText⟩

end Unleash
