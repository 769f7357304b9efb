/-
  WHAT A REPORT SAYS.

  The store is fed one evaluation after another, in two ways each: the toggle has an entry that is
  updated, or a new entry is constructed that has counted its first evaluation.  `Recorded w name
  m` says what the entry `m` of a toggle must hold after the evaluations `w`, by plain counting:

      yes, no         the number of yes and of no evaluations, modulo 2^32
      variants at v   their number modulo 2^32 if there was one, no entry otherwise

  One evaluation more keeps it (`Recorded.update`), so it holds of every list of evaluations
  (`recorded_ofEvaluations`).  The encoder writes the entries into an object by name and loses
  none (`Conveys`).  Counting does not see the order of what is counted: neither does the report.
-/
import UnleashSdk.Lib.JsonText
import UnleashSdk.Metrics

set_option linter.unusedVariables false

namespace Unleash

/-! ## The entry of a toggle -/

/-- The entry `m` of the toggle `name` holds the evaluations `w`. -/
structure Recorded (w : List Evaluation) (name : Bytes) (m : MetricToggle) : Prop where
  yes : m.yesCount.toNat = w.countP (·.hits (name, .yes)) % 2 ^ 32
  no : m.noCount.toNat = w.countP (·.hits (name, .no)) % 2 ^ 32
  -- a variant is there because it occurred, even when its count has come back to zero
  occurs : ∀ v, v ∈ m.variantsStats ↔ ∃ e ∈ w, e.hits (name, .variant v) = true
  variants : ∀ v, ((m.variantsStats.lookup v).getD 0).toNat =
    w.countP (·.hits (name, .variant v)) % 2 ^ 32

theorem Recorded.empty {w : List Evaluation} {name : Bytes}
    (h : ∀ e ∈ w, e.toggleName ≠ name) : Recorded w name { toggleName := name } := by
  have hno : ∀ k, w.countP (·.hits (name, k)) = 0 := by
    intro k
    rw [List.countP_eq_zero]
    intro e he
    simp [Evaluation.hits, h e he]
  refine ⟨by simp [hno], by simp [hno], fun v => ?_, fun v => by simp [hno]⟩
  constructor
  · intro hv
    exact absurd hv (AList.notMem_empty v)
  · rintro ⟨e, he, hhits⟩
    rw [Evaluation.hits, Bool.and_eq_true, decide_eq_true_eq] at hhits
    exact absurd hhits.1 (h e he)

theorem Evaluation.hits_of_ne {e : Evaluation} {name : Bytes} (h : e.toggleName ≠ name)
    (k : Counter) : e.hits (name, k) = false := by
  simp [Evaluation.hits, h]

/-- An evaluation adds the variant that it moves, and no other. -/
theorem MetricToggle.mem_variants_update (m : MetricToggle) (e : Evaluation) (v : Bytes) :
    v ∈ (m.update e).variantsStats ↔ v ∈ m.variantsStats ∨ e.moves (.variant v) = true := by
  cases e with
  | enable t y =>
    have hsame : (m.update (.enable t y)).variantsStats = m.variantsStats := by
      cases y <;> rfl
    rw [hsame]
    simp [Evaluation.moves]
  | variant t y u =>
    have heq : (m.update (.variant t y u)).variantsStats =
        if u.isEmpty then m.variantsStats
        else m.variantsStats.upsert u fun c => c.getD 0 + 1 := by
      cases y <;> cases u <;> rfl
    rw [heq]
    by_cases hu : u = []
    · simp [Evaluation.moves, hu]
    · rw [if_neg (by simpa using hu), KeyMap.upsert, AList.mem_insert]
      have hmoves : (Evaluation.variant t y u).moves (.variant v) = true ↔ v = u := by
        simp [Evaluation.moves, hu, @eq_comm _ v u]
      rw [hmoves, or_comm]

/-- One counter, one evaluation later. -/
theorem countP_snoc_mod (w : List Evaluation) (e : Evaluation) (c : Bytes × Counter)
    {n : UInt32} (hn : n.toNat = w.countP (·.hits c) % 2 ^ 32) :
    (n + (if e.hits c then 1 else 0)).toNat = (w ++ [e]).countP (·.hits c) % 2 ^ 32 := by
  have hone : (1 : UInt32).toNat = 1 := rfl
  have hzero : (0 : UInt32).toNat = 0 := rfl
  rw [UInt32.toNat_add, hn, List.countP_append, List.countP_singleton]
  split
  · rw [hone]
    omega
  · rw [hzero]
    omega

/-- An evaluation of the toggle is counted. -/
theorem Recorded.update {w : List Evaluation} {name : Bytes} {m : MetricToggle}
    (h : Recorded w name m) {e : Evaluation} (he : e.toggleName = name) :
    Recorded (w ++ [e]) name (m.update e) := by
  have hhits : ∀ k, e.hits (name, k) = e.moves k := fun k => by simp [Evaluation.hits, he]
  have hcount : ∀ k, (m.update e).count k = m.count k + (if e.hits (name, k) then 1 else 0) :=
    fun k => (hhits k) ▸ m.count_update e k
  constructor
  · show ((m.update e).count .yes).toNat = _
    rw [hcount]
    exact countP_snoc_mod w e _ h.yes
  · show ((m.update e).count .no).toNat = _
    rw [hcount]
    exact countP_snoc_mod w e _ h.no
  · intro v
    rw [m.mem_variants_update, h.occurs, ← hhits]
    simp [or_and_right, exists_or]
  · intro v
    show ((m.update e).count (.variant v)).toNat = _
    rw [hcount]
    exact countP_snoc_mod w e _ (h.variants v)

/-- An evaluation of another toggle is not. -/
theorem Recorded.other {w : List Evaluation} {name : Bytes} {m : MetricToggle}
    (h : Recorded w name m) {e : Evaluation} (he : e.toggleName ≠ name) :
    Recorded (w ++ [e]) name m := by
  have hcount : ∀ k, (w ++ [e]).countP (·.hits (name, k)) = w.countP (·.hits (name, k)) := by
    intro k
    rw [List.countP_append, List.countP_singleton, e.hits_of_ne he k]
    rfl
  constructor
  · rw [hcount]
    exact h.yes
  · rw [hcount]
    exact h.no
  · intro v
    rw [h.occurs v]
    simp [or_and_right, exists_or, e.hits_of_ne he]
  · intro v
    rw [hcount]
    exact h.variants v

/-- After the evaluations `w`, a toggle has an entry if it was evaluated, and the entry holds
    all evaluations of it. -/
theorem recorded_ofEvaluations (w : List Evaluation) (name : Bytes) :
    ((∃ e ∈ w, e.toggleName = name) ∧
      ∃ m, (MetricList.ofEvaluations w).metricList.lookup name = some m ∧ Recorded w name m) ∨
    ((∀ e ∈ w, e.toggleName ≠ name) ∧
      (MetricList.ofEvaluations w).metricList.lookup name = none) := by
  induction w using List.reverseRecOn with
  | nil => exact Or.inr ⟨by simp, rfl⟩
  | append_singleton w e ih =>
    rw [MetricList.ofEvaluations_snoc, MetricList.lookup_add]
    by_cases he : e.toggleName = name
    · rw [if_pos he.symm]
      refine Or.inl ⟨⟨e, by simp, he⟩, _, rfl, ?_⟩
      rcases ih with ⟨-, m, hm, hrec⟩ | ⟨hnone, hm⟩
      · rw [hm]
        exact hrec.update he
      · -- the constructors count the first evaluation on a fresh entry
        rw [hm]
        exact (Recorded.empty hnone).update he
    · rw [if_neg fun h => he h.symm]
      rcases ih with ⟨⟨e', he', hname⟩, m, hm, hrec⟩ | ⟨hnone, hm⟩
      · exact Or.inl ⟨⟨e', by simp [he'], hname⟩, m, hm, hrec.other he⟩
      · refine Or.inr ⟨fun e' he' => ?_, hm⟩
        rcases List.mem_append.mp he' with he' | he'
        · exact hnone e' he'
        · rw [List.mem_singleton.mp he']
          exact he

/-! ## The report, read -/

/-- What the report says of one toggle. -/
structure Conveys.Toggle (w : List Evaluation) (name : Bytes) (toggle : Json) : Prop where
  yes : toggle.find (bytes "yes") = some (.int (w.countP (·.hits (name, .yes)) % 2 ^ 32 : Nat))
  no : toggle.find (bytes "no") = some (.int (w.countP (·.hits (name, .no)) % 2 ^ 32 : Nat))
  variants : ∃ variants, toggle.find (bytes "variants") = some (.obj variants) ∧
    (variants.map Prod.fst).Nodup ∧ ∀ v n, (v, n) ∈ variants ↔
      (∃ e ∈ w, e.hits (name, .variant v) = true) ∧
      n = .int (w.countP (·.hits (name, .variant v)) % 2 ^ 32 : Nat)

/-- The report `j` says everything about the evaluations `w`, and nothing else. -/
structure Conveys (w : List Evaluation) (start stop appName instanceId : Bytes) (j : Json) :
    Prop where
  appName : j.find (bytes "appName") = some (.str appName)
  instanceId : j.find (bytes "instanceId") = some (.str instanceId)
  bucket : ∃ bucket, j.find (bytes "bucket") = some bucket ∧
    bucket.find (bytes "start") = some (.str start) ∧
    bucket.find (bytes "stop") = some (.str stop) ∧
    ∃ toggles, bucket.find (bytes "toggles") = some (.obj toggles) ∧
      (toggles.map Prod.fst).Nodup ∧
      (∀ name, name ∈ toggles.map Prod.fst ↔ ∃ e ∈ w, e.toggleName = name) ∧
      ∀ name toggle, (name, toggle) ∈ toggles → Conveys.Toggle w name toggle

theorem Recorded.conveys {w : List Evaluation} {name : Bytes} {m : MetricToggle}
    (h : Recorded w name m) : Conveys.Toggle w name m.toJson := by
  have hyes : m.toJson.find (bytes "yes") = some (.int m.yesCount.toNat) := rfl
  have hno : m.toJson.find (bytes "no") = some (.int m.noCount.toNat) := rfl
  refine ⟨by rw [hyes, h.yes], by rw [hno, h.no], _,
    congrArg some (Json.setAll_empty _), Json.nodup_assignAll _, fun v n => ?_⟩
  rw [Json.mem_assignAll (m.variantsStats.nodup_pairs _), KeyMap.mem_pairs, ← h.occurs v,
    ← h.variants v, KeyMap.mem_iff_lookup]
  constructor
  · rintro ⟨c, hc, hn⟩
    exact ⟨⟨c, hc⟩, by rw [hc]; exact hn⟩
  · rintro ⟨⟨c, hc⟩, hn⟩
    exact ⟨c, hc, by rw [hn, hc]; rfl⟩

theorem conveys_metricsRequestJson (w : List Evaluation) (start stop appName instanceId : Bytes) :
    Conveys w start stop appName instanceId
      (metricsRequestJson (.ofEvaluations w) start stop appName instanceId) := by
  have hmem : ∀ p, p ∈ Json.assignAll ((MetricList.ofEvaluations w).metricList.pairs
      MetricToggle.toJson) ↔
      ∃ m, (MetricList.ofEvaluations w).metricList.lookup p.1 = some m ∧ p.2 = m.toJson :=
    fun p => (Json.mem_assignAll (KeyMap.nodup_pairs _ _)).trans KeyMap.mem_pairs
  refine ⟨rfl, rfl, _, rfl, rfl, rfl, _, congrArg some (Json.setAll_empty _),
    Json.nodup_assignAll _, fun name => ?_, fun name toggle ht => ?_⟩
  · rw [List.mem_map]
    rcases recorded_ofEvaluations w name with ⟨hocc, m, hm, -⟩ | ⟨hnone, hm⟩
    · exact ⟨fun _ => hocc, fun _ => ⟨(name, m.toJson), (hmem _).mpr ⟨m, hm, rfl⟩, rfl⟩⟩
    · constructor
      · rintro ⟨p, hp, rfl⟩
        obtain ⟨m, hm', -⟩ := (hmem p).mp hp
        rw [hm] at hm'
        cases hm'
      · rintro ⟨e, he, hname⟩
        exact absurd hname (hnone e he)
  · obtain ⟨m, hm, rfl⟩ := (hmem _).mp ht
    rcases recorded_ofEvaluations w name with ⟨-, m', hm', hrec⟩ | ⟨-, hm'⟩
    · rw [hm] at hm'
      exact Option.some.inj hm' ▸ hrec.conveys
    · rw [hm] at hm'
      cases hm'

/-! ## The report, printed -/

/-- The counters fit a JSON integer, and the objects are filled from maps. -/
theorem metricsRequestJson_normal (list : MetricList) (start stop appName instanceId : Bytes) :
    (metricsRequestJson list start stop appName instanceId).Normal := by
  have hcount : ∀ n : UInt32, (Json.int n.toNat).Normal := by
    intro n
    have hn := n.toNat_lt
    show -2 ^ 63 ≤ (n.toNat : Int) ∧ (n.toNat : Int) < 2 ^ 64
    omega
  have hfilled : ∀ {β : Type} (m : KeyMap Bytes β) (f : β → Json), (∀ v, (f v).Normal) →
      ((Json.obj []).setAll (m.pairs f)).Normal := by
    intro β m f hf
    rw [Json.setAll_empty]
    refine Json.normal_assignAll (m.nodup_pairs f) fun p hp => ?_
    obtain ⟨v, -, hv⟩ := KeyMap.mem_pairs.mp hp
    rw [hv]
    exact hf v
  have htoggle : ∀ m : MetricToggle, m.toJson.Normal := by
    intro m
    rw [MetricToggle.toJson_eq]
    have hkeys : Json.Sorted [(bytes "no", Json.int m.noCount.toNat),
        (bytes "variants", (Json.obj []).setAll (m.variantsStats.pairs fun c => .int c.toNat)),
        (bytes "yes", .int m.yesCount.toNat)] := by
      rw [Json.sorted_iff_keys]
      show [bytes "no", bytes "variants", bytes "yes"].Pairwise (· < ·)
      decide
    exact ⟨hkeys, hcount _, hfilled _ _ hcount, hcount _, trivial⟩
  rw [metricsRequestJson_eq]
  refine ⟨?_, trivial, ⟨?_, trivial, trivial, hfilled _ _ htoggle, trivial⟩, trivial, trivial⟩
  · rw [Json.sorted_iff_keys]
    show [bytes "appName", bytes "bucket", bytes "instanceId"].Pairwise (· < ·)
    decide
  · rw [Json.sorted_iff_keys]
    show [bytes "start", bytes "stop", bytes "toggles"].Pairwise (· < ·)
    decide

/-- The names of an evaluation are UTF-8. -/
def Evaluation.utf8 : Evaluation → Bool
  | .enable toggleName _ => Bytes.validUtf8 toggleName
  | .variant toggleName _ variantName =>
    Bytes.validUtf8 toggleName && Bytes.validUtf8 variantName

theorem Evaluation.utf8_toggleName {e : Evaluation} (h : e.utf8 = true) :
    Bytes.validUtf8 e.toggleName = true := by
  cases e with
  | enable t y => exact h
  | variant t y v => exact (Bool.and_eq_true _ _ ▸ h).1

/-- The variant that an evaluation moves is its own. -/
theorem Evaluation.hits_variant {e : Evaluation} {name v : Bytes} :
    e.hits (name, .variant v) = true ↔ ∃ isYes, e = .variant name isYes v ∧ v ≠ [] := by
  cases e with
  | enable t y => simp [hits, moves]
  | variant t y u =>
    have heq : (Evaluation.variant t y u).hits (name, .variant v) = true ↔
        t = name ∧ u ≠ [] ∧ u = v := by
      rw [hits, Bool.and_eq_true, decide_eq_true_eq]
      simp [moves, toggleName]
    rw [heq]
    simp only [Evaluation.variant.injEq]
    constructor
    · rintro ⟨rfl, hu, rfl⟩
      exact ⟨y, ⟨rfl, rfl, rfl⟩, hu⟩
    · rintro ⟨isYes, ⟨rfl, -, rfl⟩, hv⟩
      exact ⟨rfl, hv, rfl⟩

theorem MetricList.utf8_iff (l : MetricList) : l.utf8 = true ↔
    ∀ name m, l.metricList.lookup name = some m →
      Bytes.validUtf8 name = true ∧ ∀ v ∈ m.variantsStats, Bytes.validUtf8 v = true := by
  have hvariants : ∀ m : MetricToggle,
      (m.variantsStats.entries.all fun v => Bytes.validUtf8 v.1) = true ↔
        ∀ v ∈ m.variantsStats, Bytes.validUtf8 v = true := by
    intro m
    rw [List.all_eq_true]
    constructor
    · intro h v hv
      obtain ⟨c, hc⟩ := KeyMap.mem_iff_lookup.mp hv
      exact h ⟨v, c⟩ (KeyMap.mem_entries.mpr hc)
    · intro h e he
      exact h e.1 (KeyMap.mem_iff_lookup.mpr ⟨e.2, KeyMap.mem_entries.mp he⟩)
  rw [MetricList.utf8, List.all_eq_true]
  constructor
  · intro h name m hm
    have he := h ⟨name, m⟩ (KeyMap.mem_entries.mpr hm)
    rw [Bool.and_eq_true, hvariants] at he
    exact he
  · intro h e he
    rw [Bool.and_eq_true, hvariants]
    exact h e.1 e.2 (KeyMap.mem_entries.mp he)

/-- A list is UTF-8 exactly if the evaluations that it counted are. -/
theorem ofEvaluations_utf8 (w : List Evaluation) :
    (MetricList.ofEvaluations w).utf8 = true ↔ ∀ e ∈ w, e.utf8 = true := by
  rw [MetricList.utf8_iff]
  constructor
  · intro h e he
    rcases recorded_ofEvaluations w e.toggleName with ⟨-, m, hm, hrec⟩ | ⟨hnone, -⟩
    · obtain ⟨hname, hvariants⟩ := h e.toggleName m hm
      cases e with
      | enable t y => exact hname
      | variant t y v =>
        rw [Evaluation.utf8, Bool.and_eq_true]
        refine ⟨hname, ?_⟩
        -- an empty variant name is not counted, and is UTF-8
        by_cases hv : v = []
        · rw [hv]
          decide
        · refine hvariants v ((hrec.occurs v).mpr ⟨_, he, ?_⟩)
          exact Evaluation.hits_variant.mpr ⟨y, rfl, hv⟩
    · exact absurd rfl (hnone e he)
  · intro h name m hm
    rcases recorded_ofEvaluations w name with ⟨⟨e, he, rfl⟩, m', hm', hrec⟩ | ⟨-, hm'⟩
    · obtain rfl : m = m' := Option.some.inj (hm.symm.trans hm')
      refine ⟨Evaluation.utf8_toggleName (h e he), fun v hv => ?_⟩
      obtain ⟨e', he', hhits⟩ := (hrec.occurs v).mp hv
      obtain ⟨isYes, rfl, -⟩ := Evaluation.hits_variant.mp hhits
      have hutf8 := h _ he'
      rw [Evaluation.utf8, Bool.and_eq_true] at hutf8
      exact hutf8.2
    · rw [hm] at hm'
      cases hm'

/-! ## The order of the evaluations -/

/-- Maps that answer every lookup alike, up to the reported value, are reported alike. -/
theorem setAll_pairs_congr {β : Type} {m n : KeyMap Bytes β} {f : β → Json}
    (h : ∀ k, (m.lookup k).map f = (n.lookup k).map f) :
    (Json.obj []).setAll (m.pairs f) = (Json.obj []).setAll (n.pairs f) := by
  have hmem : ∀ (l : KeyMap Bytes β) (p : Bytes × Json),
      p ∈ l.pairs f ↔ (l.lookup p.1).map f = some p.2 := by
    intro l p
    rw [KeyMap.mem_pairs, Option.map_eq_some_iff]
    exact exists_congr fun v => and_congr_right fun _ => eq_comm
  rw [Json.setAll_empty, Json.setAll_empty]
  congr 1
  refine Json.assignAll_ext (m.nodup_pairs f) (n.nodup_pairs f) fun p => ?_
  rw [hmem, hmem, h p.1]

/-- The entries of a toggle that hold the same evaluations are reported alike. -/
theorem Recorded.toJson_eq {v w : List Evaluation} (hvw : v.Perm w) {name : Bytes}
    {m n : MetricToggle} (hm : Recorded v name m) (hn : Recorded w name n) :
    m.toJson = n.toJson := by
  have hyes : m.yesCount.toNat = n.yesCount.toNat := by rw [hm.yes, hn.yes, hvw.countP_eq]
  have hno : m.noCount.toNat = n.noCount.toNat := by rw [hm.no, hn.no, hvw.countP_eq]
  rw [m.toJson_eq, n.toJson_eq, hyes, hno, setAll_pairs_congr fun u => ?_]
  have hoccurs : u ∈ m.variantsStats ↔ u ∈ n.variantsStats := by
    rw [hm.occurs, hn.occurs]
    exact exists_congr fun e => and_congr_left fun _ => hvw.mem_iff
  have hcount := (hm.variants u).trans ((congrArg (· % 2 ^ 32) (hvw.countP_eq _)).trans
    (hn.variants u).symm)
  rw [KeyMap.mem_iff_lookup, KeyMap.mem_iff_lookup] at hoccurs
  cases hmu : m.variantsStats.lookup u with
  | none =>
    cases hnu : n.variantsStats.lookup u with
    | none => rfl
    | some d =>
      obtain ⟨c, hc⟩ := hoccurs.mpr ⟨d, hnu⟩
      rw [hmu] at hc
      cases hc
  | some c =>
    obtain ⟨d, hnu⟩ := hoccurs.mp ⟨c, hmu⟩
    rw [hmu, hnu] at hcount
    rw [hnu]
    exact congrArg (fun k : Nat => some (Json.int k)) hcount

theorem metricsRequestJson_perm {v w : List Evaluation} (hvw : v.Perm w)
    (start stop appName instanceId : Bytes) :
    metricsRequestJson (.ofEvaluations v) start stop appName instanceId =
      metricsRequestJson (.ofEvaluations w) start stop appName instanceId := by
  rw [metricsRequestJson_eq, metricsRequestJson_eq, setAll_pairs_congr fun name => ?_]
  rcases recorded_ofEvaluations v name with ⟨⟨e, he, hname⟩, m, hm, hrec⟩ | ⟨hnone, hm⟩
  · rcases recorded_ofEvaluations w name with ⟨-, n, hn, hrec'⟩ | ⟨hnone', -⟩
    · rw [hm, hn]
      exact congrArg some (hrec.toJson_eq hvw hrec')
    · exact absurd hname (hnone' e (hvw.mem_iff.mp he))
  · rcases recorded_ofEvaluations w name with ⟨⟨e, he, hname⟩, -⟩ | ⟨-, hn⟩
    · exact absurd hname (hnone e (hvw.mem_iff.mpr he))
    · rw [hm, hn]

/-- **What a report says.**  Whatever evaluations were counted, the report can be printed exactly
    if all its strings are UTF-8; a server that parses it finds every toggle that was evaluated,
    its exact numbers modulo 2^32 and no others, and the four strings.  The text of the report
    does not depend on the order of the evaluations. -/
theorem report_exact (J : JsonLib) (w : List Evaluation) (start stop appName instanceId : Bytes) :
    ((encodeMetricsRequestBody J (.ofEvaluations w) start stop appName instanceId).isSome = true ↔
      Bytes.validUtf8 start = true ∧ Bytes.validUtf8 stop = true ∧
      Bytes.validUtf8 appName = true ∧ Bytes.validUtf8 instanceId = true ∧
      ∀ e ∈ w, e.utf8 = true) ∧
    (∀ body, encodeMetricsRequestBody J (.ofEvaluations w) start stop appName instanceId =
        some body →
      ∃ j, J.parse body = some j ∧ Conveys w start stop appName instanceId j) ∧
    ∀ v : List Evaluation, v.Perm w →
      encodeMetricsRequestBody J (.ofEvaluations v) start stop appName instanceId =
        encodeMetricsRequestBody J (.ofEvaluations w) start stop appName instanceId := by
  refine ⟨?_, fun body hbody => ?_, fun v hvw => ?_⟩
  · rw [encodeMetricsRequestBody, J.dump_isSome, metricsRequestJson_utf8, ofEvaluations_utf8]
    constructor
    · rintro ⟨happ, ⟨hstart, hstop, hw⟩, hinstance⟩
      exact ⟨hstart, hstop, happ, hinstance, hw⟩
    · rintro ⟨hstart, hstop, happ, hinstance, hw⟩
      exact ⟨happ, ⟨hstart, hstop, hw⟩, hinstance⟩
  · exact ⟨_, J.parse_dump (metricsRequestJson_normal _ _ _ _ _) hbody,
      conveys_metricsRequestJson w start stop appName instanceId⟩
  · rw [encodeMetricsRequestBody, encodeMetricsRequestBody, metricsRequestJson_perm hvw]

/-- A toggle and one of its variants, evaluated. -/
def blueWindow : List Evaluation :=
  [.enable (bytes "f") true, .variant (bytes "f") false (bytes "blue")]

/-- In both orders they make one report, and it says what they were. -/
theorem report_exact_blue :
    ∃ body j, encodeMetricsRequestBody JsonText.compact (.ofEvaluations blueWindow)
        (bytes "s") (bytes "t") (bytes "app") (bytes "1") = some body ∧
      encodeMetricsRequestBody JsonText.compact (.ofEvaluations blueWindow.reverse)
        (bytes "s") (bytes "t") (bytes "app") (bytes "1") = some body ∧
      JsonText.compact.parse body = some j ∧
      Conveys blueWindow (bytes "s") (bytes "t") (bytes "app") (bytes "1") j := by
  obtain ⟨hprinted, hparsed, hperm⟩ := report_exact JsonText.compact blueWindow
    (bytes "s") (bytes "t") (bytes "app") (bytes "1")
  obtain ⟨body, hbody⟩ := Option.isSome_iff_exists.mp (hprinted.mpr (by decide))
  obtain ⟨j, hj, hconveys⟩ := hparsed body hbody
  exact ⟨body, j, hbody, (hperm _ (List.reverse_perm _)).trans hbody, hj, hconveys⟩

end Unleash
