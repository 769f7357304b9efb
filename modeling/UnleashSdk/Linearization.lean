/-
  LINEARIZABILITY of the evaluations.

  An evaluation takes up to nine steps, a publication of new flags three, and they interleave in
  any way.  The client that an application believes it has is `AtomicClient`: it has flags or none
  yet, and its calls see them at one moment.  `linearize` says at which step that moment is:

      a call           at the load of the snapshot, or at the test of `_ready` that turns it away
      new flags        at the store of the snapshot, or, for the first ones, at the exchange of
                       `_ready`: before that no call looks at them
      the copy of the  at the step itself, some time later: a call sees its flags at one moment,
      context          and its context at another one

  `Linear` relates the two clients and every step keeps it (`simulates`), so a run of the machine
  is a run of the atomic client, and what a call has returned, recorded and emitted is what the
  atomic one does with what it saw.  The moments are steps of the calls (`moment`), so they lie
  inside them, in the one order of the run (`linearizable`): what one call saw is never older than
  what a call saw that was over before it began.
-/
import UnleashSdk.Evaluations
import UnleashSdk.Lib.Simulation

set_option linter.unusedVariables false

namespace Unleash

/-! ## The atomic client -/

namespace AtomicClient

/-- Flags or none yet, a context, and what every call has seen of the two. -/
structure State where
  flags : Option ToggleSet
  context : Context
  seen : Nat → Option (Option ToggleSet) := fun _ => none
  copied : Nat → Option Context := fun _ => none

inductive Act where
  | publish (flags : ToggleSet)
  | updateContext (mutableContext : MutableContext)
  | evaluate (t : Nat)
  | copyContext (t : Nat)

/-- A call sees the flags once, and after that the context at most once. -/
def step (s : State) : Act → Option State
  | .publish flags => some { s with flags := some flags }
  | .updateContext mutableContext =>
    some { s with context := s.context.updateMutableContext mutableContext }
  | .evaluate t =>
    if (s.seen t).isNone then
      some { s with seen := Function.update s.seen t (some s.flags) }
    else none
  | .copyContext t =>
    if (s.seen t).isSome && (s.copied t).isNone then
      some { s with copied := Function.update s.copied t (some s.context) }
    else none

/-- What a call has seen was offered when it was evaluated. -/
theorem seen_took {a₀ a : State} {bs : List Act} (hrun : Machine.run step a₀ bs = some a) {t : Nat}
    (h0 : a₀.seen t = none) {flags : Option ToggleSet} (hseen : a.seen t = some flags) :
    Machine.Took step a₀ bs (.evaluate t) fun u => u.flags = flags := by
  refine Machine.took_of_set (f := fun u => u.seen t) (g := State.flags) h0 ?_ hrun hseen
  intro u act v hv
  cases act with
  | publish _ | updateContext _ =>
    cases hv
    exact Or.inl rfl
  | evaluate t' =>
    simp only [step] at hv
    split at hv <;> cases hv
    by_cases ht : t' = t
    · subst ht
      exact Or.inr ⟨rfl, Function.update_self _ _ _⟩
    · exact Or.inl (Function.update_of_ne (Ne.symm ht) _ _)
  | copyContext t' =>
    simp only [step] at hv
    split at hv <;> cases hv
    exact Or.inl rfl

theorem copied_took {a₀ a : State} {bs : List Act} (hrun : Machine.run step a₀ bs = some a)
    {t : Nat} (h0 : a₀.copied t = none) {ctx : Context} (hcopied : a.copied t = some ctx) :
    Machine.Took step a₀ bs (.copyContext t) fun u => u.context = ctx := by
  refine Machine.took_of_set (f := fun u => u.copied t) (g := State.context) h0 ?_ hrun hcopied
  intro u act v hv
  cases act with
  | publish _ | updateContext _ =>
    cases hv
    exact Or.inl rfl
  | evaluate t' =>
    simp only [step] at hv
    split at hv <;> cases hv
    exact Or.inl rfl
  | copyContext t' =>
    simp only [step] at hv
    split at hv <;> cases hv
    by_cases ht : t' = t
    · subst ht
      exact Or.inr ⟨rfl, Function.update_self _ _ _⟩
    · exact Or.inl (Function.update_of_ne (Ne.symm ht) _ _)

/-- The answer, the metrics and the impressions of a call that has seen `flags` and `ctx`. -/
def outcome (config : ClientConfig) (q : ClientMachine.Query) (flags : Option ToggleSet)
    (ctx : Context) : ClientMachine.Answer × List Evaluation × List ClientImpression :=
  match flags with
  | none => (q.kind.refusal, [], [])
  | some toggleSet => ClientMachine.sequential config q toggleSet ctx

end AtomicClient

namespace ClientMachine

variable {σ : Type}

/-! ## The moments -/

/-- The flags that a call would see now. -/
def published (client : UnleashClient σ) : Option ToggleSet :=
  if client.ready then some client.flagStore.snapshot else none

/-- What the atomic client does at a step of the machine. -/
def linearize (s : State σ) : Act → List AtomicClient.Act
  | .call t =>
    match s.calls t with
    | .new => if s.client.ready then [] else [.evaluate t]
    | .load => [.evaluate t]
    | .copyContext _ _ _ _ => [.copyContext t]
    | _ => []
  | .updateContext mutableContext => [.updateContext mutableContext]
  | .poll =>
    match s.polling with
    | .storeSnapshot toggles => if s.client.ready then [.publish toggles] else []
    | .exchangeReady => if s.client.ready then [] else [.publish s.client.flagStore.snapshot]
    | _ => []
  | .control =>
    match s.control with
    | .storeReady => if s.client.ready then [] else [.publish s.client.flagStore.snapshot]
    | _ => []
  | _ => []

/-- A call at `p`, with these records, that has seen `seen` and `copied`. -/
def Follows (config : ClientConfig) (q : Query) (p : CallPc) (metrics : List Evaluation)
    (impressions : List ClientImpression) (seen : Option (Option ToggleSet))
    (copied : Option Context) : Prop :=
  match seen with
  | none => (p = .new ∨ p = .load) ∧ metrics = [] ∧ impressions = [] ∧ copied = none
  | some none => p = .returned q.kind.refusal ∧ metrics = [] ∧ impressions = []
  | some (some toggleSet) =>
    match p with
    | .returned answer => ∀ ctx,
      (answer, metrics, impressions) = sequential config q toggleSet (copied.getD ctx)
    | .emit _ _ _ _ ctx =>
      Progress config q toggleSet p metrics impressions ∧ copied = some ctx
    | p => Progress config q toggleSet p metrics impressions ∧ copied = none

/-- The machine and the atomic client. -/
structure Linear (config : ClientConfig) (query : Nat → Query) (s : State σ)
    (a : AtomicClient.State) : Prop where
  flags : a.flags = published s.client
  context : a.context = s.context
  -- who has passed the test of `_ready` will find a published snapshot
  loading : ∀ t, s.calls t = .load → s.client.ready = true
  calls : ∀ t, Follows config (query t) (s.calls t) (metricsOf s t) (impressionsOf s t)
    (a.seen t) (a.copied t)

/-! ## The step of a call -/

/-- A call in the middle, at a point where it has not copied the context. -/
def CallPc.uncopied : CallPc → Bool
  | .contains _ | .enabled _ | .variant _ _ | .record _ _ _ | .impression _ _ _
  | .copyContext _ _ _ _ => true
  | _ => false

theorem follows_uncopied {config : ClientConfig} {q : Query} {p : CallPc}
    {metrics : List Evaluation} {impressions : List ClientImpression} {toggleSet : ToggleSet}
    {copied : Option Context} (hp : p.uncopied = true) :
    Follows config q p metrics impressions (some (some toggleSet)) copied ↔
      Progress config q toggleSet p metrics impressions ∧ copied = none := by
  cases p with
  | new | load | emit _ _ _ _ _ | returned _ => cases hp
  | _ => exact Iff.rfl

/-- Only a call that is at its beginning has seen nothing. -/
theorem Follows.seen_none {config : ClientConfig} {q : Query} {p : CallPc}
    {metrics : List Evaluation} {impressions : List ClientImpression}
    {seen : Option (Option ToggleSet)} {copied : Option Context}
    (h : Follows config q p metrics impressions seen copied) (hp : p = .new ∨ p = .load) :
    seen = none ∧ metrics = [] ∧ impressions = [] ∧ copied = none := by
  cases seen with
  | none => exact ⟨rfl, h.2⟩
  | some flags =>
    cases flags with
    | none =>
      rcases hp with rfl | rfl
      · cases h.1
      · cases h.1
    | some toggleSet =>
      rcases hp with rfl | rfl
      · exact h.1.elim
      · exact h.1.elim

/-- A call in the middle has seen a toggle set. -/
theorem Follows.seen_some {config : ClientConfig} {q : Query} {p : CallPc}
    {metrics : List Evaluation} {impressions : List ClientImpression}
    {seen : Option (Option ToggleSet)} {copied : Option Context}
    (h : Follows config q p metrics impressions seen copied) (hnew : p ≠ .new) (hload : p ≠ .load)
    (hreturned : ∀ answer, p ≠ .returned answer) : ∃ toggleSet, seen = some (some toggleSet) := by
  cases seen with
  | none =>
    rcases h.1 with hp | hp
    · exact absurd hp hnew
    · exact absurd hp hload
  | some flags =>
    cases flags with
    | none => exact absurd h.1 (hreturned _)
    | some toggleSet => exact ⟨toggleSet, rfl⟩

/-- The context that a call has copied after its next step. -/
def copiedAfter (s : State σ) (t : Nat) (copied : Option Context) : Option Context :=
  match s.calls t with
  | .copyContext _ _ _ _ => some s.context
  | _ => copied

/-- **Step lemma** for a call in the middle. -/
theorem follows_call {config : ClientConfig} {q : Query} {s s' : State σ} {t : Nat}
    {toggleSet : ToggleSet} {copied : Option Context}
    (h : Follows config q (s.calls t) (metricsOf s t) (impressionsOf s t) (some (some toggleSet))
      copied)
    (hc : CallChange config q s t (s.calls t) s') :
    Follows config q (s'.calls t) (metricsOf s' t) (impressionsOf s' t) (some (some toggleSet))
      (copiedAfter s t copied) := by
  have hprogress : (s.calls t).uncopied = true → Progress config q toggleSet (s'.calls t)
      (metricsOf s' t) (impressionsOf s' t) := fun hp =>
    progress_change s.context ((follows_uncopied hp).mp h).1 hc
  unfold copiedAfter
  generalize hp : s.calls t = p at h hc hprogress
  cases hc with
  | ready _ | notReady _ | load => exact h.1.elim
  | known held hknown | isEnabled held hkind | getVariant held hkind | variant held e
  | record held e v | impression held e v hemits =>
    have hprogress := hprogress rfl
    rw [State.goto_calls_self] at hprogress ⊢
    exact ⟨hprogress, h.2⟩
  | unknown held hunknown =>
    obtain ⟨⟨rfl, hm, hi⟩, -⟩ := h
    rw [State.goto_calls_self]
    intro ctx
    rw [sequential_unknown config hunknown]
    show (_, metricsOf s t, impressionsOf s t) = _
    rw [hm, hi]
  | noImpression held e v hemits =>
    obtain ⟨⟨rfl, hknown, rfl, rfl, hm, hi⟩, -⟩ := h
    rw [State.goto_calls_self]
    intro ctx
    rw [sequential_known config hknown, hemits]
    show (_, metricsOf s t, impressionsOf s t) = _
    rw [hm, hi]
    rfl
  | copyContext held e v i =>
    have hprogress := hprogress rfl
    rw [State.goto_calls_self] at hprogress ⊢
    exact ⟨hprogress, rfl⟩
  | emit held e v i ctx =>
    -- the impression has the context that was copied
    obtain ⟨⟨rfl, hknown, rfl, rfl, rfl, hemits, hm, hi⟩, rfl⟩ := h
    rw [State.goto_calls_self]
    intro anyCtx
    rw [sequential_known config hknown, if_pos hemits]
    rw [impressionsOf] at hi
    rw [metricsOf] at hm
    simp [metricsOf, impressionsOf, State.goto, List.filter_append, hm, hi]

/-- A step of a call leaves the others alone. -/
theorem Linear.call {config : ClientConfig} {query : Nat → Query} {s s' : State σ} {t : Nat}
    {a a' : AtomicClient.State} (h : Linear config query s a)
    (hc : CallChange config (query t) s t (s.calls t) s') (hflags : a'.flags = a.flags)
    (hcontext : a'.context = a.context)
    (hothers : ∀ t', t' ≠ t → a'.seen t' = a.seen t' ∧ a'.copied t' = a.copied t')
    (hloading : s'.calls t = .load → s.client.ready = true)
    (hcall : Follows config (query t) (s'.calls t) (metricsOf s' t) (impressionsOf s' t)
      (a'.seen t) (a'.copied t)) : Linear config query s' a' := by
  have hframe := callChange_frame hc
  have hsame : s'.context = s.context := by
    generalize s.calls t = p at hc
    cases hc <;> rfl
  refine ⟨?_, ?_, fun t' ht' => ?_, fun t' => ?_⟩
  · rw [hflags, h.flags, hframe.client]
  · rw [hcontext, h.context, hsame]
  · rw [hframe.client]
    by_cases heq : t' = t
    · subst heq
      exact hloading ht'
    · exact h.loading t' ((hframe.calls t' heq).symm.trans ht')
  · by_cases heq : t' = t
    · subst heq
      exact hcall
    · obtain ⟨hseen, hcopied⟩ := hothers t' heq
      have hold := h.calls t'
      rw [hframe.calls t' heq, hseen, hcopied, metricsOf, impressionsOf, hframe.metrics t' heq,
        hframe.impressions t' heq]
      exact hold

/-- A call that sees the flags. -/
theorem Linear.evaluate {config : ClientConfig} {query : Nat → Query} {s s' : State σ} {t : Nat}
    {a : AtomicClient.State} (h : Linear config query s a)
    (hc : CallChange config (query t) s t (s.calls t) s')
    (hp : s.calls t = .new ∨ s.calls t = .load) (hload : s'.calls t ≠ .load)
    (hcall : Follows config (query t) (s'.calls t) (metricsOf s' t) (impressionsOf s' t)
      (some (published s.client)) none) :
    ∃ a', Machine.run AtomicClient.step a [.evaluate t] = some a' ∧ Linear config query s' a' := by
  obtain ⟨hseen, -, -, hcopied⟩ := (h.calls t).seen_none hp
  refine ⟨{ a with seen := Function.update a.seen t (some a.flags) }, ?_, ?_⟩
  · simp [Machine.run, AtomicClient.step, hseen]
  · refine h.call hc rfl rfl (fun t' ht' => ⟨Function.update_of_ne ht' _ _, rfl⟩)
      (fun hl => absurd hl hload) ?_
    show Follows config (query t) _ _ _ (Function.update a.seen t (some a.flags) t) (a.copied t)
    rw [Function.update_self, h.flags, hcopied]
    exact hcall

theorem linear_call {config : ClientConfig} {query : Nat → Query} {s s' : State σ} {t : Nat}
    {a : AtomicClient.State} (h : Linear config query s a)
    (hc : CallChange config (query t) s t (s.calls t) s') :
    ∃ a', Machine.run AtomicClient.step a (linearize s (.call t)) = some a' ∧
      Linear config query s' a' := by
  by_cases hbegin : s.calls t = .new ∨ s.calls t = .load
  · obtain ⟨hseen, hm, hi, hcopied⟩ := (h.calls t).seen_none hbegin
    rcases hbegin with hp | hp
    · have hc' : CallChange config (query t) s t .new s' := hp ▸ hc
      cases hc' with
      | ready hready =>
        refine ⟨a, by simp [linearize, hp, hready], h.call hc rfl rfl (fun _ _ => ⟨rfl, rfl⟩)
          (fun _ => hready) ?_⟩
        rw [hseen, hcopied, State.goto_calls_self]
        exact ⟨Or.inr rfl, hm, hi, rfl⟩
      | notReady hready =>
        have hanswer : linearize s (.call t) = [.evaluate t] := by simp [linearize, hp, hready]
        rw [hanswer]
        refine h.evaluate hc (Or.inl hp) (by simp) ?_
        have hnone : published s.client = none := by simp [published, hready]
        rw [hnone, State.goto_calls_self]
        exact ⟨rfl, hm, hi⟩
    · have hc' : CallChange config (query t) s t .load s' := hp ▸ hc
      cases hc' with
      | load =>
        have hanswer : linearize s (.call t) = [.evaluate t] := by simp [linearize, hp]
        rw [hanswer]
        refine h.evaluate hc (Or.inr hp) (by simp) ?_
        -- `_ready` has stayed set since the call has tested it
        have hsome : published s.client = some s.client.flagStore.snapshot := by
          simp [published, h.loading t hp]
        rw [hsome, State.goto_calls_self]
        exact ⟨⟨rfl, hm, hi⟩, rfl⟩
  · rw [not_or] at hbegin
    have hreturned : ∀ answer, s.calls t ≠ .returned answer := by
      intro answer hp
      rw [hp] at hc
      cases hc
    obtain ⟨toggleSet, hseen⟩ := (h.calls t).seen_some hbegin.1 hbegin.2 hreturned
    have hcall := h.calls t
    rw [hseen] at hcall
    have hnext := follows_call hcall hc
    have hload : s'.calls t ≠ .load := by
      generalize s.calls t = p at hc hbegin
      cases hc with
      | ready _ => exact absurd rfl hbegin.1
      | _ => simp
    by_cases hcopy : ∃ held e v i, s.calls t = .copyContext held e v i
    · obtain ⟨held, e, v, i, hp⟩ := hcopy
      have hnone : a.copied t = none := by
        rw [hp] at hcall
        exact hcall.2
      have hcopied : copiedAfter s t (a.copied t) = some s.context := by simp [copiedAfter, hp]
      refine ⟨{ a with copied := Function.update a.copied t (some a.context) }, ?_, ?_⟩
      · simp [Machine.run, AtomicClient.step, linearize, hp, hseen, hnone]
      · refine h.call hc rfl rfl (fun t' ht' => ⟨rfl, Function.update_of_ne ht' _ _⟩)
          (fun hl => absurd hl hload) ?_
        show Follows config (query t) _ _ _ (a.seen t)
          (Function.update a.copied t (some a.context) t)
        rw [hseen, Function.update_self, h.context, ← hcopied]
        exact hnext
    · have hanswer : linearize s (.call t) = [] := by
        cases hp : s.calls t with
        | new => exact absurd hp hbegin.1
        | load => exact absurd hp hbegin.2
        | copyContext held e v i => exact absurd ⟨held, e, v, i, hp⟩ hcopy
        | _ => simp only [linearize, hp]
      have hcopied : copiedAfter s t (a.copied t) = a.copied t := by
        cases hp : s.calls t with
        | copyContext held e v i => exact absurd ⟨held, e, v, i, hp⟩ hcopy
        | _ => simp only [copiedAfter, hp]
      refine ⟨a, by rw [hanswer]; rfl, h.call hc rfl rfl (fun _ _ => ⟨rfl, rfl⟩)
        (fun hl => absurd hl hload) ?_⟩
      rw [hseen, ← hcopied]
      exact hnext

/-! ## The other steps -/

/-- A step of another thread leaves the calls alone. -/
theorem Linear.other {config : ClientConfig} {query : Nat → Query} {s s' : State σ}
    {a a' : AtomicClient.State} (h : Linear config query s a)
    (hcalls : s'.calls = s.calls ∧ s'.metrics = s.metrics ∧ s'.impressions = s.impressions)
    (hready : s.client.ready = true → s'.client.ready = true)
    (hflags : a'.flags = published s'.client) (hcontext : a'.context = s'.context)
    (hseen : a'.seen = a.seen ∧ a'.copied = a.copied) : Linear config query s' a' := by
  obtain ⟨hcalls, hmetrics, himpressions⟩ := hcalls
  refine ⟨hflags, hcontext, fun t ht => hready (h.loading t (by rw [← hcalls]; exact ht)),
    fun t => ?_⟩
  rw [hcalls, metricsOf, impressionsOf, hmetrics, himpressions, hseen.1, hseen.2]
  exact h.calls t

/-- The flags that the step of another thread leaves published are those that the atomic client
    has after its answer. -/
theorem published_step {J : JsonLib} {P : StorageProvider σ} {config : ClientConfig}
    {query : Nat → Query} {s s' : State σ} {act : Act} {a : AtomicClient.State}
    (hc : Change J P config query s act s') (hcall : ∀ t, act ≠ .call t)
    (hflags : a.flags = published s.client) (hcontext : a.context = s.context) :
    (s.client.ready = true → s'.client.ready = true) ∧
    ∃ a', Machine.run AtomicClient.step a (linearize s act) = some a' ∧
      a'.flags = published s'.client ∧ a'.context = s'.context ∧ a'.seen = a.seen ∧
      a'.copied = a.copied := by
  have hsilent : linearize s act = [] → s'.client.ready = s.client.ready →
      (s.client.ready = true → s'.client.flagStore.snapshot = s.client.flagStore.snapshot) →
      s'.context = s.context →
      (s.client.ready = true → s'.client.ready = true) ∧
      ∃ a', Machine.run AtomicClient.step a (linearize s act) = some a' ∧
        a'.flags = published s'.client ∧ a'.context = s'.context ∧ a'.seen = a.seen ∧
        a'.copied = a.copied := by
    intro hnone hready hsnapshot hctx
    refine ⟨fun h => hready.trans h, a, by rw [hnone]; rfl, ?_, hcontext.trans hctx.symm, rfl, rfl⟩
    rw [hflags, published, published, hready]
    split
    · rename_i h
      rw [hsnapshot h]
    · rfl
  cases hc with
  | startedAlready _ _ | start _ _ | stoppedAlready _ _ | stop _ _ =>
    exact hsilent rfl rfl (fun _ => rfl) rfl
  | printerThrew resp ctx _ _ => exact hsilent rfl rfl (fun _ => rfl) rfl
  | replied resp ctx result fetcher _ _ => exact hsilent rfl rfl (fun _ => rfl) rfl
  | call t s' _ => exact absurd rfl (hcall t)
  | updateContext mutableContext =>
    refine ⟨fun h => h, _, rfl, hflags, ?_, rfl, rfl⟩
    show a.context.updateMutableContext mutableContext = _
    rw [hcontext]
  | control s' hstep =>
    have hcontrol := controlStep_change hstep
    generalize hp : s.control = p at hcontrol
    cases hcontrol with
    | storeReady =>
      -- the flags of the constructor are published
      cases hr : s.client.ready with
      | true =>
        refine ⟨fun _ => rfl, a, by simp [linearize, hp, hr], ?_, hcontext, rfl, rfl⟩
        rw [hflags, published, published, hr]
      | false =>
        exact ⟨fun _ => rfl, { a with flags := some s.client.flagStore.snapshot },
          by simp [linearize, hp, hr, Machine.run, AtomicClient.step], rfl, hcontext, rfl, rfl⟩
    | _ => exact hsilent (by simp [linearize, hp]) rfl (fun _ => rfl) rfl
  | poll s' hstep =>
    have hpoll := pollStep_change hstep
    generalize hp : s.polling = p at hpoll
    cases hpoll with
    | handle result =>
      have hsame : (handleResult s result).client.ready = s.client.ready ∧
          (handleResult s result).client.flagStore.snapshot = s.client.flagStore.snapshot ∧
          (handleResult s result).context = s.context := by
        refine handleResult_cases s result ?_ ?_ ?_ ?_ <;> intros <;> exact ⟨rfl, rfl, rfl⟩
      exact hsilent (by simp [linearize, hp]) hsame.1 (fun _ => hsame.2.1) hsame.2.2
    | storeSnapshot toggles =>
      by_cases hr : s.client.ready = true
      · refine ⟨fun _ => hr, { a with flags := some toggles },
          by simp [linearize, hp, hr, Machine.run, AtomicClient.step], ?_, hcontext, rfl, rfl⟩
        simp [published, hr]
      · -- nobody looks at the snapshot of a client that is not ready
        exact hsilent (by simp [linearize, hp, hr]) rfl (fun h => absurd h hr) rfl
    | exchangeReady =>
      cases hr : s.client.ready with
      | true =>
        refine ⟨fun _ => rfl, a, by simp [linearize, hp, hr], ?_, hcontext, rfl, rfl⟩
        rw [hflags, published, published, hr]
      | false =>
        exact ⟨fun _ => rfl, { a with flags := some s.client.flagStore.snapshot },
          by simp [linearize, hp, hr, Machine.run, AtomicClient.step], rfl, hcontext, rfl, rfl⟩
    | _ => exact hsilent (by simp [linearize, hp]) rfl (fun _ => rfl) rfl

/-- **The machine does what the atomic client does.** -/
theorem simulates (J : JsonLib) (P : StorageProvider σ) (config : ClientConfig)
    (query : Nat → Query) :
    Machine.Simulates (step J P config query) AtomicClient.step linearize
      (Linear config query) := by
  intro s a act s' h hstep
  have hc := step_change hstep
  by_cases hcall : ∃ t, act = .call t
  · obtain ⟨t, rfl⟩ := hcall
    cases hc with
    | call _ s' hc => exact linear_call h hc
  · have hcall : ∀ t, act ≠ .call t := fun t ht => hcall ⟨t, ht⟩
    obtain ⟨hready, a', hrun, hflags, hcontext, hseen, hcopied⟩ :=
      published_step hc hcall h.flags h.context
    exact ⟨a', hrun, h.other (change_calls hc hcall) hready hflags hcontext ⟨hseen, hcopied⟩⟩

/-! ## Points of a run -/

/-- The atomic client of a client that nobody has called yet. -/
def atomic (client : UnleashClient σ) (ctx : Context) : AtomicClient.State :=
  { flags := published client, context := ctx }

theorem linear_initial (config : ClientConfig) (query : Nat → Query) (client : UnleashClient σ)
    (ctx : Context) : Linear config query (initial client ctx) (atomic client ctx) where
  flags := rfl
  context := rfl
  loading t ht := by cases ht
  calls t := ⟨Or.inl rfl, rfl, rfl, rfl⟩

/-- What the atomic client does in answer to a run of the machine. -/
def history (J : JsonLib) (P : StorageProvider σ) (config : ClientConfig) (query : Nat → Query) :
    State σ → List Act → List AtomicClient.Act :=
  Machine.answers (step J P config query) linearize

/-- A step of the machine is one of the atomic client at most, and a call sees the flags, and the
    context, by a step of its own. -/
theorem linearize_one (s : State σ) (act : Act) :
    linearize s act = [] ∨ ∃ b, linearize s act = [b] ∧
      ∀ t, b = .evaluate t ∨ b = .copyContext t → act = .call t := by
  cases act with
  | call t =>
    simp only [linearize]
    split
    · split
      · exact Or.inl rfl
      · exact Or.inr ⟨_, rfl, by simp⟩
    · exact Or.inr ⟨_, rfl, by simp⟩
    · exact Or.inr ⟨_, rfl, by simp⟩
    · exact Or.inl rfl
  | poll =>
    simp only [linearize]
    split
    · split
      · exact Or.inr ⟨_, rfl, by simp⟩
      · exact Or.inl rfl
    · split
      · exact Or.inl rfl
      · exact Or.inr ⟨_, rfl, by simp⟩
    · exact Or.inl rfl
  | control =>
    simp only [linearize]
    split
    · split
      · exact Or.inl rfl
      · exact Or.inr ⟨_, rfl, by simp⟩
    · exact Or.inl rfl
  | updateContext mutableContext => exact Or.inr ⟨_, rfl, by simp⟩
  | start | stop | reply resp => exact Or.inl rfl

/-- **Moments.**  When the atomic client evaluates a call, or copies the context for it, the machine
    takes a step of that call, and the two are related. -/
theorem moment {J : JsonLib} {P : StorageProvider σ} {config : ClientConfig} {query : Nat → Query}
    {client : UnleashClient σ} {ctx : Context} {as : List Act} {s : State σ}
    (hrun : Machine.run (step J P config query) (initial client ctx) as = some s) {t : Nat}
    {b : AtomicClient.Act} (hb : b = .evaluate t ∨ b = .copyContext t)
    {Q : AtomicClient.State → Prop}
    (htook : Machine.Took AtomicClient.step (atomic client ctx)
      (history J P config query (initial client ctx) as) b Q) :
    Machine.Took (step J P config query) (initial client ctx) as (.call t) fun u =>
      ∃ a, Linear config query u a ∧ Q a := by
  obtain ⟨as₁, act, as₂, u, a, rfl, hu, hlinear, hstep⟩ :=
    (simulates J P config query).took (linear_initial config query client ctx) hrun htook
  rcases linearize_one u act with hnone | ⟨b', hone, hcall⟩
  · obtain ⟨bs, cs, w, heq, -, -⟩ := hnone ▸ hstep
    exact absurd heq.symm (by simp)
  · obtain ⟨rfl, hQ⟩ := Machine.took_one (hone ▸ hstep)
    obtain rfl := hcall t hb
    exact ⟨as₁, as₂, u, rfl, hu, a, hlinear, hQ⟩

/-- At a point of a run the machine has done `as` from `s₀` and is at `s`, and the atomic client is
    at `a`.  `flags`, `context`: both offer the same; `saw`, `copied`: what a call has seen was what
    the machine offered at a step of the call; `complete`: a call that has returned has seen flags,
    and it returned, recorded and emitted what follows from what it saw; `ahead`: a call that has
    not begun has seen nothing. -/
structure Agrees (J : JsonLib) (P : StorageProvider σ) (config : ClientConfig)
    (query : Nat → Query) (s₀ : State σ) (as : List Act) (s : State σ) (a : AtomicClient.State) :
    Prop where
  flags : a.flags = published s.client
  context : a.context = s.context
  saw : ∀ t seen, a.seen t = some seen →
    Machine.Took (step J P config query) s₀ as (.call t) fun u => published u.client = seen
  copied : ∀ t ctx, a.copied t = some ctx →
    Machine.Took (step J P config query) s₀ as (.call t) fun u => u.context = ctx
  complete : ∀ t answer, s.calls t = .returned answer →
    ∃ seen, a.seen t = some seen ∧ ∀ ctx, (answer, metricsOf s t, impressionsOf s t) =
      AtomicClient.outcome config (query t) seen ((a.copied t).getD ctx)
  ahead : ∀ t, s.calls t = .new → a.seen t = none

/-- A call that is over has seen flags, and what it did follows from them. -/
theorem Linear.complete {config : ClientConfig} {query : Nat → Query} {s : State σ}
    {a : AtomicClient.State} (h : Linear config query s a) {t : Nat} {answer : Answer}
    (ht : s.calls t = .returned answer) :
    ∃ seen, a.seen t = some seen ∧ ∀ ctx, (answer, metricsOf s t, impressionsOf s t) =
      AtomicClient.outcome config (query t) seen ((a.copied t).getD ctx) := by
  have hcall := h.calls t
  rw [ht] at hcall
  cases hseen : a.seen t with
  | none =>
    rw [hseen] at hcall
    rcases hcall.1 with hp | hp
    · cases hp
    · cases hp
  | some flags =>
    refine ⟨flags, rfl, fun ctx => ?_⟩
    rw [hseen] at hcall
    cases flags with
    | none =>
      obtain ⟨hanswer, hm, hi⟩ := hcall
      cases hanswer
      rw [hm, hi]
      rfl
    | some toggleSet => exact hcall ctx

/-- **Every point of a run.** -/
theorem agrees_run {J : JsonLib} {P : StorageProvider σ} {config : ClientConfig}
    {query : Nat → Query} {client : UnleashClient σ} {ctx : Context} {as : List Act} {s : State σ}
    (hrun : Machine.run (step J P config query) (initial client ctx) as = some s) :
    ∃ a, Machine.run AtomicClient.step (atomic client ctx)
        (history J P config query (initial client ctx) as) = some a ∧
      Agrees J P config query (initial client ctx) as s a := by
  obtain ⟨a, ha, h⟩ := (simulates J P config query).run (linear_initial config query client ctx)
    hrun
  refine ⟨a, ha, h.flags, h.context, fun t seen hseen => ?_, fun t c hcopied => ?_,
    fun t answer ht => h.complete ht, fun t ht => ((h.calls t).seen_none (Or.inl ht)).1⟩
  · refine (moment hrun (Or.inl rfl) (AtomicClient.seen_took ha rfl hseen)).imp ?_
    rintro u ⟨b, hb, hflags⟩
    exact hb.flags.symm.trans hflags
  · refine (moment hrun (Or.inr rfl) (AtomicClient.copied_took ha rfl hcopied)).imp ?_
    rintro u ⟨b, hb, hctx⟩
    exact hb.context.symm.trans hctx

/-- **Evaluations are linearizable.**  What the machine does, the atomic client does at the steps
    that `linearize` picks: a run of the one is a run of the other, and wherever the run is cut in
    two, so is that of the atomic client.  At the cut the two offer the same flags, the calls that
    are over have seen flags and have the results that follow, and those that have not begun have
    seen nothing; and what a call has seen was published at a step of the call. -/
theorem linearizable (J : JsonLib) (P : StorageProvider σ) (config : ClientConfig)
    (query : Nat → Query) (client : UnleashClient σ) (ctx : Context) (as₁ as₂ : List Act)
    (s : State σ)
    (hrun : Machine.run (step J P config query) (initial client ctx) (as₁ ++ as₂) = some s) :
    ∃ s₁ a₁ a, Machine.run (step J P config query) (initial client ctx) as₁ = some s₁ ∧
      history J P config query (initial client ctx) (as₁ ++ as₂) =
        history J P config query (initial client ctx) as₁ ++ history J P config query s₁ as₂ ∧
      Machine.run AtomicClient.step (atomic client ctx)
        (history J P config query (initial client ctx) as₁) = some a₁ ∧
      Machine.run AtomicClient.step a₁ (history J P config query s₁ as₂) = some a ∧
      Agrees J P config query (initial client ctx) as₁ s₁ a₁ ∧
      Agrees J P config query (initial client ctx) (as₁ ++ as₂) s a := by
  obtain ⟨s₁, hs₁, -⟩ := Machine.run_append.mp hrun
  have hcut : history J P config query (initial client ctx) (as₁ ++ as₂) =
      history J P config query (initial client ctx) as₁ ++ history J P config query s₁ as₂ :=
    Machine.answers_append hs₁ as₂
  obtain ⟨a₁, ha₁, hagrees₁⟩ := agrees_run hs₁
  obtain ⟨a, ha, hagrees⟩ := agrees_run hrun
  rw [hcut] at ha
  obtain ⟨a₁', ha₁', hrest⟩ := Machine.run_append.mp ha
  obtain rfl : a₁ = a₁' := Option.some.inj (ha₁.symm.trans ha₁')
  exact ⟨s₁, a₁, a, hs₁, hcut, ha₁, hrest, hagrees₁, hagrees⟩

/-- Two calls: new flags are published in the middle of the first one, which has seen the old ones,
    and before the second one begins. -/
theorem linearizable_replaced :
    ∃ s a, Machine.run isEnabledStep (initial variantClient UnleashClient.plainContext)
        replacedRun = some s ∧
      Machine.run AtomicClient.step (atomic variantClient UnleashClient.plainContext)
        (history JsonText.compact localStorageProvider allImpressions
          (fun _ => ⟨.isEnabled, bytes "a"⟩)
          (initial variantClient UnleashClient.plainContext) replacedRun) = some a ∧
      (∃ seen, a.seen 0 = some seen ∧ ∀ ctx, (AtomicClient.outcome allImpressions
        ⟨.isEnabled, bytes "a"⟩ seen ((a.copied 0).getD ctx)).1 = .enabled true) ∧
      (∃ seen, a.seen 1 = some seen ∧ ∀ ctx, (AtomicClient.outcome allImpressions
        ⟨.isEnabled, bytes "a"⟩ seen ((a.copied 1).getD ctx)).1 = .enabled false) := by
  obtain ⟨s, hs, h0, h1, -⟩ := replaced_answers
  obtain ⟨s₁, a₁, a, hs₁, -, ha₁, ha, hagrees, -⟩ := linearizable JsonText.compact
    localStorageProvider allImpressions (fun _ => ⟨.isEnabled, bytes "a"⟩) variantClient
    UnleashClient.plainContext replacedRun [] s (by rwa [List.append_nil])
  obtain rfl : s₁ = s := Option.some.inj (hs₁.symm.trans hs)
  obtain ⟨seen, hseen, hout⟩ := hagrees.complete 0 (.enabled true) h0
  obtain ⟨seen', hseen', hout'⟩ := hagrees.complete 1 (.enabled false) h1
  exact ⟨s₁, a₁, hs₁, ha₁, ⟨seen, hseen, fun ctx => (congrArg Prod.fst (hout ctx)).symm⟩,
    ⟨seen', hseen', fun ctx => (congrArg Prod.fst (hout' ctx)).symm⟩⟩

end ClientMachine

end Unleash
