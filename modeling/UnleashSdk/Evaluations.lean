/-
  EVALUATIONS, each on one snapshot.

  Between the steps of an evaluation the polling thread may replace the snapshot any number of
  times.  The evaluation loads it once and holds what it has loaded: from then on every lookup is
  answered by the same toggle set (`Progress`), and when it returns, its answer, the metric it has
  recorded and the impression it has emitted are those of `sequential`, which asks one toggle set
  for everything.

  A variant is looked up by `getVariant` only; the metric and the impression of `isEnabled` carry
  none, whatever the toggle set holds (`isEnabled_impression_variant`).
-/
import UnleashSdk.ClientMachine

set_option linter.unusedVariables false

namespace Unleash

namespace ClientMachine

variable {σ : Type}

/-! ## What an evaluation does, on one toggle set -/

/-- The answer of a call, the metrics it records and the impressions it emits, if `toggleSet`
    answers all its lookups and `ctx` is the context that it copies. -/
def sequential (config : ClientConfig) (q : Query) (toggleSet : ToggleSet) (ctx : Context) :
    Answer × List Evaluation × List ClientImpression :=
  let name := q.flagName
  if toggleSet.contains name then
    let enabled := toggleSet.isEnabled name
    let variant := toggleSet.getVariant name
    let impression := toggleSet.impressionData name
    let emits := config.impressionDataAll || impression
    match q.kind with
    | .isEnabled =>
      (.enabled enabled, [.enable name enabled],
        if emits then
          [{ ctx := ctx, flagName := name, enabled := enabled, eventType := bytes "isEnabled",
             impressionData := impression }]
        else [])
    | .getVariant =>
      (.variant variant, [.variant name enabled variant.name],
        if emits then
          [{ ctx := ctx, flagName := name, enabled := enabled, eventType := bytes "getVariant",
             impressionData := impression, variant := variant.name }]
        else [])
  else (q.kind.refusal, [], [])

/-- The variant that a call has in its local variables. -/
def variantOf (q : Query) (toggleSet : ToggleSet) : Option Variant :=
  match q.kind with
  | .isEnabled => none
  | .getVariant => some (toggleSet.getVariant q.flagName)

theorem sequential_unknown (config : ClientConfig) {q : Query} {toggleSet : ToggleSet}
    (h : toggleSet.contains q.flagName = false) (ctx : Context) :
    sequential config q toggleSet ctx = (q.kind.refusal, [], []) := by
  simp only [sequential, h, Bool.false_eq_true, if_false]

theorem sequential_known (config : ClientConfig) {q : Query} {toggleSet : ToggleSet}
    (h : toggleSet.contains q.flagName = true) (ctx : Context) :
    sequential config q toggleSet ctx =
      (answerOf (toggleSet.isEnabled q.flagName) (variantOf q toggleSet),
        [metricOf q (toggleSet.isEnabled q.flagName) (variantOf q toggleSet)],
        if config.impressionDataAll || toggleSet.impressionData q.flagName then
          [impressionOf q (toggleSet.isEnabled q.flagName) (variantOf q toggleSet)
            (toggleSet.impressionData q.flagName) ctx]
        else []) := by
  simp only [sequential, h, if_true, variantOf]
  cases q.kind <;> rfl

/-! ## The records of one evaluation -/

/-- The metrics that evaluation `t` has recorded, and the impressions that it has emitted. -/
def metricsOf (s : State σ) (t : Nat) : List Evaluation :=
  (s.metrics.filter (·.1 = t)).map Prod.snd

def impressionsOf (s : State σ) (t : Nat) : List ClientImpression :=
  (s.impressions.filter (·.1 = t)).map Prod.snd

/-- Other steps leave an evaluation and its records alone. -/
theorem change_other {J : JsonLib} {P : StorageProvider σ} {config : ClientConfig}
    {query : Nat → Query} {s s' : State σ} {a : Act} (hc : Change J P config query s a s') {t : Nat}
    (ha : a ≠ .call t) :
    s'.calls t = s.calls t ∧ metricsOf s' t = metricsOf s t ∧
      impressionsOf s' t = impressionsOf s t := by
  unfold metricsOf impressionsOf
  by_cases hcall : ∃ t', a = .call t'
  · obtain ⟨t', rfl⟩ := hcall
    have hne : t ≠ t' := by
      rintro rfl
      exact ha rfl
    cases hc with
    | call _ s' h =>
      have hframe := callChange_frame h
      exact ⟨hframe.calls t hne, by rw [hframe.metrics t hne], by rw [hframe.impressions t hne]⟩
  · obtain ⟨hcalls, hmetrics, himpressions⟩ := change_calls hc fun t' ht' => hcall ⟨t', ht'⟩
    rw [hcalls, hmetrics, himpressions]
    exact ⟨rfl, rfl, rfl⟩

/-! ## One toggle set for the whole call -/

/-- An evaluation that has loaded `toggleSet` has it in its variables, with what was looked up in
    it so far, and has recorded `metrics` and emitted `impressions`. -/
def Progress (config : ClientConfig) (q : Query) (toggleSet : ToggleSet) (p : CallPc)
    (metrics : List Evaluation) (impressions : List ClientImpression) : Prop :=
  let enabled := toggleSet.isEnabled q.flagName
  let variant := variantOf q toggleSet
  let impression := toggleSet.impressionData q.flagName
  let known := toggleSet.contains q.flagName = true
  match p with
  | .new | .load => False
  | .contains held => held = toggleSet ∧ metrics = [] ∧ impressions = []
  | .enabled held => held = toggleSet ∧ known ∧ metrics = [] ∧ impressions = []
  | .variant held e =>
    held = toggleSet ∧ known ∧ q.kind = .getVariant ∧ e = enabled ∧ metrics = [] ∧ impressions = []
  | .record held e v =>
    held = toggleSet ∧ known ∧ e = enabled ∧ v = variant ∧ metrics = [] ∧ impressions = []
  | .impression held e v =>
    held = toggleSet ∧ known ∧ e = enabled ∧ v = variant ∧
      metrics = [metricOf q enabled variant] ∧ impressions = []
  | .copyContext held e v i =>
    held = toggleSet ∧ known ∧ e = enabled ∧ v = variant ∧ i = impression ∧
      (config.impressionDataAll || impression) = true ∧
      metrics = [metricOf q enabled variant] ∧ impressions = []
  | .emit held e v i ctx =>
    held = toggleSet ∧ known ∧ e = enabled ∧ v = variant ∧ i = impression ∧
      (config.impressionDataAll || impression) = true ∧
      metrics = [metricOf q enabled variant] ∧ impressions = []
  | .returned answer => ∃ ctx, (answer, metrics, impressions) = sequential config q toggleSet ctx

/-- **Step lemma**, for the evaluation itself: no lookup leaves the toggle set. -/
theorem progress_change {config : ClientConfig} {q : Query} {toggleSet : ToggleSet}
    {s s' : State σ} {t : Nat} (anyCtx : Context)
    (h : Progress config q toggleSet (s.calls t) (metricsOf s t) (impressionsOf s t))
    (hc : CallChange config q s t (s.calls t) s') :
    Progress config q toggleSet (s'.calls t) (metricsOf s' t) (impressionsOf s' t) := by
  generalize hp : s.calls t = p at h hc
  cases hc with
  | ready hready => exact h.elim
  | notReady hready => exact h.elim
  | load => exact h.elim
  | known held hknown =>
    obtain ⟨rfl, hm, hi⟩ := h
    rw [State.goto_calls_self]
    exact ⟨rfl, hknown, hm, hi⟩
  | unknown held hunknown =>
    obtain ⟨rfl, hm, hi⟩ := h
    rw [State.goto_calls_self]
    refine ⟨anyCtx, ?_⟩
    rw [sequential_unknown config hunknown]
    show (_, metricsOf s t, impressionsOf s t) = _
    rw [hm, hi]
  | isEnabled held hkind =>
    obtain ⟨rfl, hknown, hm, hi⟩ := h
    rw [State.goto_calls_self]
    refine ⟨rfl, hknown, rfl, ?_, hm, hi⟩
    rw [variantOf, hkind]
  | getVariant held hkind =>
    obtain ⟨rfl, hknown, hm, hi⟩ := h
    rw [State.goto_calls_self]
    exact ⟨rfl, hknown, hkind, rfl, hm, hi⟩
  | variant held e =>
    obtain ⟨rfl, hknown, hkind, rfl, hm, hi⟩ := h
    rw [State.goto_calls_self]
    refine ⟨rfl, hknown, rfl, ?_, hm, hi⟩
    rw [variantOf, hkind]
  | record held e v =>
    -- the one metric of the call
    obtain ⟨rfl, hknown, rfl, rfl, hm, hi⟩ := h
    rw [State.goto_calls_self]
    refine ⟨rfl, hknown, rfl, rfl, ?_, hi⟩
    rw [metricsOf] at hm
    simp [metricsOf, State.goto, List.filter_append, hm]
  | impression held e v hemits =>
    obtain ⟨rfl, hknown, rfl, rfl, hm, hi⟩ := h
    rw [State.goto_calls_self]
    exact ⟨rfl, hknown, rfl, rfl, rfl, hemits, hm, hi⟩
  | noImpression held e v hemits =>
    obtain ⟨rfl, hknown, rfl, rfl, hm, hi⟩ := h
    rw [State.goto_calls_self]
    refine ⟨anyCtx, ?_⟩
    rw [sequential_known config hknown, hemits]
    show (_, metricsOf s t, impressionsOf s t) = _
    rw [hm, hi]
    rfl
  | copyContext held e v i =>
    obtain ⟨rfl, hknown, rfl, rfl, rfl, hemits, hm, hi⟩ := h
    rw [State.goto_calls_self]
    exact ⟨rfl, hknown, rfl, rfl, rfl, hemits, hm, hi⟩
  | emit held e v i ctx =>
    -- the one impression of the call
    obtain ⟨rfl, hknown, rfl, rfl, rfl, hemits, hm, hi⟩ := h
    rw [State.goto_calls_self]
    refine ⟨ctx, ?_⟩
    rw [sequential_known config hknown, if_pos hemits]
    rw [impressionsOf] at hi
    rw [metricsOf] at hm
    simp [metricsOf, impressionsOf, State.goto, List.filter_append, hm, hi]

/-! ## Runs -/

/-- Evaluation `t` began when the client was ready. -/
def BeganReady (J : JsonLib) (P : StorageProvider σ) (config : ClientConfig)
    (query : Nat → Query) (s₀ : State σ) (as : List Act) (t : Nat) : Prop :=
  Machine.Took (step J P config query) s₀ as (.call t) fun u =>
    u.calls t = .new ∧ u.client.ready = true

/-- At a moment of evaluation `t`, after it began and before it returned, `toggleSet` was the
    snapshot of the store. -/
def SnapshotDuring (J : JsonLib) (P : StorageProvider σ) (config : ClientConfig)
    (query : Nat → Query) (s₀ : State σ) (as : List Act) (t : Nat) (toggleSet : ToggleSet) : Prop :=
  Machine.Took (step J P config query) s₀ as (.call t) fun u =>
    u.calls t = .load ∧ u.client.flagStore.snapshot = toggleSet

/-- Every evaluation is where it has not recorded anything, or works on one toggle set. -/
structure Evaluated (J : JsonLib) (P : StorageProvider σ) (config : ClientConfig)
    (query : Nat → Query) (s₀ : State σ) (as : List Act) (s : State σ) : Prop where
  new : ∀ t, s.calls t = .new → metricsOf s t = [] ∧ impressionsOf s t = []
  began : ∀ t, BeganReady J P config query s₀ as t →
    (s.calls t = .load ∧ metricsOf s t = [] ∧ impressionsOf s t = []) ∨
    ∃ toggleSet, SnapshotDuring J P config query s₀ as t toggleSet ∧
      Progress config (query t) toggleSet (s.calls t) (metricsOf s t) (impressionsOf s t)

theorem evaluated_initial (J : JsonLib) (P : StorageProvider σ) (config : ClientConfig)
    (query : Nat → Query) (client : UnleashClient σ) (ctx : Context) :
    Evaluated J P config query (initial client ctx) [] (initial client ctx) where
  new t _ := ⟨rfl, rfl⟩
  began t h := by
    obtain ⟨bs, cs, u, heq, -⟩ := h
    exact absurd heq (by simp)

theorem callChange_ne_new {config : ClientConfig} {q : Query} {s s' : State σ} {t : Nat}
    {p : CallPc} (h : CallChange config q s t p s') : s'.calls t ≠ .new := by
  cases h <;> simp

theorem evaluated_step {J : JsonLib} {P : StorageProvider σ} {config : ClientConfig}
    {query : Nat → Query} {s₀ s s' : State σ} {as : List Act} {a : Act}
    (hs : Machine.run (step J P config query) s₀ as = some s)
    (h : Evaluated J P config query s₀ as s) (hc : Change J P config query s a s') :
    Evaluated J P config query s₀ (as ++ [a]) s' := by
  constructor
  · intro t hnew
    by_cases ha : a = .call t
    · subst ha
      cases hc with
      | call _ s' hstep => exact absurd hnew (callChange_ne_new hstep)
    · obtain ⟨hcalls, hmetrics, himpressions⟩ := change_other hc ha
      rw [hmetrics, himpressions]
      exact h.new t (hcalls.symm.trans hnew)
  · intro t hbegan
    by_cases ha : a = .call t
    · subst ha
      cases hc with
      | call _ s' hstep =>
        rcases Machine.Took.of_snoc hs hbegan with hbefore | ⟨-, hnew, hready⟩
        · rcases h.began t hbefore with ⟨hload, hm, hi⟩ | ⟨toggleSet, hduring, hprogress⟩
          · -- the moment of the load
            refine Or.inr ⟨s.client.flagStore.snapshot, Machine.took_last hs ⟨hload, rfl⟩, ?_⟩
            rw [hload] at hstep
            cases hstep
            rw [State.goto_calls_self]
            exact ⟨rfl, hm, hi⟩
          · exact Or.inr ⟨toggleSet, hduring.snoc _, progress_change s.context hprogress hstep⟩
        · -- the client is ready, so the call goes on to the load
          obtain ⟨hm, hi⟩ := h.new t hnew
          rw [hnew] at hstep
          cases hstep with
          | ready _ => exact Or.inl ⟨s.goto_calls_self t .load, hm, hi⟩
          | notReady hnot => exact absurd (hready.symm.trans hnot) (by decide)
    · have hbefore : BeganReady J P config query s₀ as t := by
        rcases Machine.Took.of_snoc hs hbegan with hbefore | ⟨heq, -⟩
        · exact hbefore
        · exact absurd heq.symm ha
      obtain ⟨hcalls, hmetrics, himpressions⟩ := change_other hc ha
      rw [hcalls, hmetrics, himpressions]
      rcases h.began t hbefore with hload | ⟨toggleSet, hduring, hprogress⟩
      · exact Or.inl hload
      · exact Or.inr ⟨toggleSet, hduring.snoc _, hprogress⟩

/-- **Evaluations are consistent.**  Whatever the polling thread replaces in between: a call that
    began on a ready client and has returned gave the answer, recorded the metrics and emitted the
    impressions of one toggle set, which was the store's snapshot at a moment of the call. -/
theorem evaluation_consistent (J : JsonLib) (P : StorageProvider σ) (config : ClientConfig)
    (query : Nat → Query) (client : UnleashClient σ) (ctx : Context) (as : List Act) (s : State σ)
    (hrun : Machine.run (step J P config query) (initial client ctx) as = some s) (t : Nat)
    (hbegan : BeganReady J P config query (initial client ctx) as t) (answer : Answer)
    (hreturned : s.calls t = .returned answer) :
    ∃ toggleSet copied, SnapshotDuring J P config query (initial client ctx) as t toggleSet ∧
      (answer, metricsOf s t, impressionsOf s t) =
        sequential config (query t) toggleSet copied := by
  have h : Evaluated J P config query (initial client ctx) as s := by
    refine Machine.run_history (I := fun s as => Evaluated J P config query _ as s)
      (evaluated_initial J P config query client ctx) ?_ hrun
    intro bs u a v hu ih hv
    exact evaluated_step hu ih (step_change hv)
  rcases h.began t hbegan with ⟨hload, -⟩ | ⟨toggleSet, hduring, hprogress⟩
  · exact absurd (hload.symm.trans hreturned) (by simp)
  · rw [hreturned] at hprogress
    obtain ⟨copied, heq⟩ := hprogress
    exact ⟨toggleSet, copied, hduring, heq⟩

/-! ## The impression of `isEnabled` -/

/-- One flag with a variant. -/
def variantSet : ToggleSet :=
  .ofVector [{ name := bytes "a", enabled := true, variant := Variant.make (bytes "v") true none }]

/-- A ready client that holds it. -/
def variantClient : UnleashClient Unit :=
  { UnleashClient.freshClient with flagStore := FlagStore.replace {} variantSet, ready := true }

def allImpressions : ClientConfig :=
  { ClientConfig.make (bytes "u") (bytes "k") (bytes "app") [] with impressionDataAll := true }

/-- A machine on which every call is `isEnabled("a")`. -/
def isEnabledStep : State Unit → Act → Option (State Unit) :=
  step JsonText.compact localStorageProvider allImpressions fun _ => ⟨.isEnabled, bytes "a"⟩

/-- A reply in which the flag is off. -/
def offText : Bytes := bytes "\x7b\"toggles\":[\x7b\"name\":\"a\",\"enabled\":false\x7d]\x7d"

/-- The flags of a reply are published between the load of call 0 and the rest of it; call 1
    follows. -/
def replacedRun : List Act :=
  .start :: List.replicate 4 .control ++
    [.poll, .poll, .reply (UnleashClient.okReply offText (bytes "e1")), .poll, .poll] ++
    List.replicate 2 (.call 0) ++ List.replicate 3 .poll ++ List.replicate 6 (.call 0) ++
    List.replicate 8 (.call 1)

/-- The answer of a call that is over. -/
def answered (s : State σ) (t : Nat) : Option Answer :=
  match s.calls t with
  | .returned answer => some answer
  | _ => none

theorem answered_eq {s : State σ} {t : Nat} {answer : Answer} (h : answered s t = some answer) :
    s.calls t = .returned answer := by
  unfold answered at h
  split at h <;> cases h
  assumption

/-- The first call answers from the old flags, the second one from the new ones. -/
theorem replaced_answers :
    ∃ s, Machine.run isEnabledStep (initial variantClient UnleashClient.plainContext)
        replacedRun = some s ∧
      s.calls 0 = .returned (.enabled true) ∧ s.calls 1 = .returned (.enabled false) ∧
      s.client.flagStore.snapshot.isEnabled (bytes "a") = false := by
  have hanswers : (Machine.run isEnabledStep (initial variantClient UnleashClient.plainContext)
      replacedRun).map (fun s => (answered s 0, answered s 1,
        s.client.flagStore.snapshot.isEnabled (bytes "a"))) =
      some (some (.enabled true), some (.enabled false), false) := by
    decide +kernel
  obtain ⟨s, hs, hsummary⟩ := Option.map_eq_some_iff.mp hanswers
  simp only [Prod.mk.injEq] at hsummary
  exact ⟨s, hs, answered_eq hsummary.1, answered_eq hsummary.2.1, hsummary.2.2⟩

theorem evaluation_consistent_replaced :
    ∃ s, Machine.run isEnabledStep (initial variantClient UnleashClient.plainContext)
        replacedRun = some s ∧ s.client.flagStore.snapshot.isEnabled (bytes "a") = false ∧
      ∃ toggleSet copied, SnapshotDuring JsonText.compact localStorageProvider allImpressions
          (fun _ => ⟨.isEnabled, bytes "a"⟩) (initial variantClient UnleashClient.plainContext)
          replacedRun 0 toggleSet ∧
        (Answer.enabled true, metricsOf s 0, impressionsOf s 0) =
          sequential allImpressions ⟨.isEnabled, bytes "a"⟩ toggleSet copied := by
  obtain ⟨s, hs, hreturned, -, hoff⟩ := replaced_answers
  refine ⟨s, hs, hoff, evaluation_consistent JsonText.compact localStorageProvider allImpressions
    (fun _ => ⟨.isEnabled, bytes "a"⟩) variantClient UnleashClient.plainContext replacedRun s hs 0
    ?_ (.enabled true) hreturned⟩
  exact ⟨replacedRun.take 10, replacedRun.drop 11, _, rfl, rfl, rfl, rfl⟩

/-- One whole call. -/
def wholeCall : List Act := List.replicate 8 (.call 0)

/-- Evaluations do not change the client. -/
theorem client_of_calls {J : JsonLib} {P : StorageProvider σ} {config : ClientConfig}
    {query : Nat → Query} {s₀ s : State σ} {as : List Act} (hcalls : ∀ a ∈ as, ∃ t, a = .call t)
    (hrun : Machine.run (step J P config query) s₀ as = some s) : s.client = s₀.client := by
  refine Machine.run_history (I := fun s as => (∀ a ∈ as, ∃ t, a = .call t) →
    s.client = s₀.client) (fun _ => rfl) ?_ hrun hcalls
  intro bs u a v _ ih hv hbs
  obtain ⟨t, rfl⟩ := hbs a (by simp)
  have hu : u.client = s₀.client := ih fun b hb => hbs b (List.mem_append_left _ hb)
  cases step_change hv with
  | call _ v hstep => rw [(callChange_frame hstep).client, hu]

/-- The impression of `isEnabled` has no variant, though the only toggle set that there was during
    the call has one for the flag. -/
theorem isEnabled_impression_variant :
    ∃ s, Machine.run isEnabledStep (initial variantClient UnleashClient.plainContext) wholeCall =
        some s ∧
      ∀ toggleSet, Machine.Took isEnabledStep (initial variantClient UnleashClient.plainContext)
          wholeCall (.call 0) (fun u => u.client.flagStore.snapshot = toggleSet) →
        ∃ event ∈ impressionsOf s 0, event.enabled = true ∧ event.variant = [] ∧
          (toggleSet.getVariant (bytes "a")).name = bytes "v" := by
  refine ⟨_, rfl, fun toggleSet htook => ⟨_, List.mem_singleton.mpr rfl, rfl, rfl, ?_⟩⟩
  obtain ⟨bs, cs, u, heq, hu, rfl⟩ := htook
  have hbs : ∀ a ∈ bs, ∃ t, a = .call t := by
    intro a ha
    have hmem : a ∈ wholeCall := heq ▸ List.mem_append_left _ ha
    exact ⟨0, List.eq_of_mem_replicate hmem⟩
  rw [client_of_calls hbs hu]
  decide

end ClientMachine

end Unleash
