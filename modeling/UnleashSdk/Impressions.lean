/-
  WHAT THE ANALYTICS HEARS, and what the application was told.

  An evaluation of a flag with impression data tells twice: it returns an answer to its caller,
  and it emits an impression, which the event thread hands to the callback some time later, or
  nobody does.  Three books meet here:

      answers        what a call has returned           (`OneMoment`)
      impressions    what it has attempted to emit      (`Announces`)
      accepted       what the queue has taken           (`Ledger`, over any starts and stops)

  An emit call is over when its evaluation goes on, and no evaluation makes two, so an impression
  that was attempted is accepted once, or its emit call says why not.
-/
import UnleashSdk.ClientEvents

set_option linter.unusedVariables false

namespace Unleash

/-! ## The books of the event queue -/

namespace EventHandler

variable {C : Type}

/-- An emit call whose task was accepted. -/
def CallPc.accepted : CallPc C → Bool
  | .notify .accepted | .returned .accepted => true
  | _ => false

/-- The books of the queue, over any number of starts and stops: what is executed, in flight or
    waiting was accepted, in this order and once for each call. -/
structure Ledger (event : Nat → ClientEvent) (s : State C) : Prop where
  order : (s.executed ++ s.loop.inflight.toList ++ s.queue).Sublist s.accepted
  once : (s.accepted.map EventTask.call).Nodup
  event : ∀ task ∈ s.accepted, task.event = event task.call
  calls : ∀ k, (s.calls k).accepted = true ↔ k ∈ s.accepted.map EventTask.call

theorem ledger_initial (event : Nat → ClientEvent) : Ledger event ({} : State C) where
  order := List.Sublist.refl []
  once := List.nodup_nil
  event task h := by cases h
  calls k := ⟨fun h => (by cases h), fun h => (by cases h)⟩

/-- A step accepts nothing, and leaves accepted what was, or it is the push of one task. -/
theorem change_accepted {event : Nat → ClientEvent} {s s' : State C} {a : Act C}
    (hc : Change event s a s') :
    (s'.accepted = s.accepted ∧ ∀ k, (s'.calls k).accepted = (s.calls k).accepted) ∨
      ∃ t cb, s.calls t = .push cb ∧ s'.accepted = s.accepted ++ [⟨t, cb, event t⟩] ∧
        s'.calls = Function.update s.calls t (.notify .accepted) := by
  have hgoto : ∀ (t : Nat) (p : CallPc C), p.accepted = (s.calls t).accepted → ∀ k,
      (Function.update s.calls t p k).accepted = (s.calls k).accepted := by
    intro t p hp k
    by_cases hk : k = t
    · rw [hk, Function.update_self, hp]
    · rw [Function.update_of_ne hk]
  cases hc with
  | accepted t cb ht hfree hroom => exact Or.inr ⟨t, cb, ht, rfl, rfl⟩
  | entered t ht hs => exact Or.inl ⟨rfl, hgoto t _ (by rw [ht]; rfl)⟩
  | refused t ht hs => exact Or.inl ⟨rfl, hgoto t _ (by rw [ht]; rfl)⟩
  | loaded t cb ht hcb => exact Or.inl ⟨rfl, hgoto t _ (by rw [ht]; rfl)⟩
  | unregistered t ht hcb => exact Or.inl ⟨rfl, hgoto t _ (by rw [ht]; rfl)⟩
  | discarded t cb ht hfree hfull => exact Or.inl ⟨rfl, hgoto t _ (by rw [ht]; rfl)⟩
  | notified t outcome ht =>
    refine Or.inl ⟨rfl, hgoto t _ ?_⟩
    rw [ht]
    cases outcome <;> rfl
  | _ => exact Or.inl ⟨rfl, fun _ => rfl⟩

/-- What is executed, in flight or waiting: a stop drops tasks, and nothing else takes one out or
    changes their order. -/
theorem order_change {event : Nat → ClientEvent} {s s' : State C} {a : Act C}
    (hc : Change event s a s')
    (h : (s.executed ++ s.loop.inflight.toList ++ s.queue).Sublist s.accepted) :
    (s'.executed ++ s'.loop.inflight.toList ++ s'.queue).Sublist s'.accepted := by
  have hmoved : ∀ q : LoopPc C, q.inflight = s.loop.inflight →
      (s.executed ++ q.inflight.toList ++ s.queue).Sublist s.accepted := by
    intro q hq
    rw [hq]
    exact h
  cases hc with
  | accepted t cb ht hfree hroom =>
    show (_ ++ (s.queue ++ [_])).Sublist (s.accepted ++ [_])
    rw [← List.append_assoc]
    exact h.append (List.Sublist.refl _)
  | pop task rest hp hq =>
    rw [hp, hq] at h
    simpa [LoopPc.inflight] using h
  | invoke task hp =>
    rw [hp] at h
    simpa [LoopPc.inflight] using h
  | swap hc hfree =>
    -- the pending tasks are dropped
    show (s.executed ++ s.loop.inflight.toList ++ []).Sublist s.accepted
    rw [List.append_nil]
    exact (List.sublist_append_left _ _).trans h
  | notified t outcome ht => exact hmoved _ s.loop.inflight_notified
  | notifyAll hc => exact hmoved _ s.loop.inflight_notified
  | moved q hq => exact hmoved q hq.inflight.symm
  | wake hp => exact hmoved .woken (by rw [hp]; rfl)
  | callbackEnds threw task hp => exact hmoved .relock (by rw [hp]; rfl)
  | createThread hc hp => exact hmoved .top (by rw [hp]; rfl)
  | join hc hp => exact hmoved .absent (by rw [hp]; rfl)
  | _ => exact h

/-- **Step lemma.** -/
theorem ledger_change {event : Nat → ClientEvent} {s s' : State C} {a : Act C}
    (h : Ledger event s) (hc : Change event s a s') : Ledger event s' := by
  have horder := order_change hc h.order
  rcases change_accepted hc with ⟨haccepted, hcalls⟩ | ⟨t, cb, ht, haccepted, hcalls⟩
  · refine ⟨horder, ?_, ?_, fun k => ?_⟩
    · rw [haccepted]
      exact h.once
    · rw [haccepted]
      exact h.event
    · rw [haccepted, hcalls]
      exact h.calls k
  · have hnew : t ∉ s.accepted.map EventTask.call := by
      rw [← h.calls t, ht]
      exact fun hpushed => by cases hpushed
    refine ⟨horder, ?_, fun task htask => ?_, fun k => ?_⟩
    · rw [haccepted, List.map_append]
      exact List.Nodup.append h.once (List.nodup_singleton t) (List.disjoint_singleton.mpr hnew)
    · rw [haccepted] at htask
      rcases List.mem_append.mp htask with hold | htask
      · exact h.event task hold
      · rw [List.mem_singleton.mp htask]
    · rw [haccepted, hcalls, List.map_append, List.mem_append, ← h.calls k]
      by_cases hk : k = t
      · rw [hk, Function.update_self]
        exact ⟨fun _ => Or.inr List.mem_cons_self, fun _ => rfl⟩
      · rw [Function.update_of_ne hk]
        exact ⟨Or.inl, fun hor => hor.resolve_right fun hmem => hk (List.mem_singleton.mp hmem)⟩

theorem ledger_run {event : Nat → ClientEvent} {s : State C} {as : List (Act C)}
    (hrun : Machine.run (step event) {} as = some s) : Ledger event s :=
  Machine.run_inv (fun _ _ _ hu hv => ledger_change hu (step_change hv)) (ledger_initial event) hrun

end EventHandler

/-! ## The impressions of the evaluations -/

namespace ClientEvents

open ClientMachine (Answer CallPc Query impressionsOf metricsOf)

variable {σ C : Type}

/-- The emit call of an evaluation, by where the evaluation is and by what it has attempted. -/
def Announces (q : Query) (p : CallPc) (impressions : List ClientImpression)
    (call : EventHandler.CallPc C) (e : ClientEvent) : Prop :=
  match p with
  | .emit _ _ _ _ _ => impressions = [] ∧ (call = .new ∨ emitting q p = some e)
  | .returned _ => (impressions = [] ∧ call = .new) ∨
    ∃ i outcome, impressions = [i] ∧ e = .impression i ∧ call = .returned outcome
  | _ => impressions = [] ∧ call = .new

/-- A call that has not begun may be there wherever nothing was attempted. -/
theorem announces_new (q : Query) (p : CallPc) (e : ClientEvent) :
    Announces q p [] (.new : EventHandler.CallPc C) e := by
  cases p with
  | emit _ _ _ _ _ => exact ⟨rfl, Or.inl rfl⟩
  | returned _ => exact Or.inl ⟨rfl, rfl⟩
  | _ => exact ⟨rfl, rfl⟩

/-- The books of every evaluation. -/
def Inv (query : Nat → Query) (event : Nat → ClientEvent) (s : State σ C) : Prop :=
  ∀ t, Announces (query t) (s.client.calls t) (impressionsOf s.client t)
    (s.events.calls (evaluationCall t)) (event (evaluationCall t))

theorem inv_initial (query : Nat → Query) (event : Nat → ClientEvent) (client : UnleashClient σ)
    (ctx : Context) : Inv query event (initial client ctx : State σ C) :=
  fun _ => ⟨rfl, rfl⟩

/-- **Step lemma** for an evaluation: it leaves `emit` when its emit call has returned. -/
theorem announces_call {config : ClientConfig} {q : Query} {s s' : ClientMachine.State σ} {t : Nat}
    {call : EventHandler.CallPc C} {e : ClientEvent}
    (h : Announces q (s.calls t) (impressionsOf s t) call e)
    (hfree : emitting q (s.calls t) = none ∨ ∃ outcome, call = .returned outcome)
    (hc : ClientMachine.CallChange config q s t (s.calls t) s') :
    Announces q (s'.calls t) (impressionsOf s' t) call e := by
  generalize hp : s.calls t = p at h hfree hc
  cases hc with
  | emit toggleSet enabled variant impression ctx =>
    obtain ⟨hnone, hcall⟩ := h
    obtain ⟨outcome, rfl⟩ : ∃ outcome, call = .returned outcome := by
      rcases hfree with hfree | hfree
      · cases hfree
      · exact hfree
    rw [ClientMachine.State.goto_calls_self]
    refine Or.inr ⟨ClientMachine.impressionOf q enabled variant impression ctx, outcome, ?_, ?_,
      rfl⟩
    · rw [impressionsOf] at hnone
      simp [impressionsOf, ClientMachine.State.goto, List.filter_append, hnone]
    · rcases hcall with hcall | hcall
      · cases hcall
      · exact (Option.some.inj hcall).symm
  | record toggleSet enabled variant =>
    obtain ⟨hnone, rfl⟩ := h
    rw [ClientMachine.State.goto_calls_self]
    exact ⟨hnone, rfl⟩
  | _ =>
    obtain ⟨hnone, rfl⟩ := h
    show Announces q _ (impressionsOf s t) _ e
    rw [hnone]
    exact announces_new q _ e

/-- **Step lemma** for the handler: a call begins only while its evaluation is at `emit`. -/
theorem announces_events {q : Query} {p : CallPc} {impressions : List ClientImpression}
    {call call' : EventHandler.CallPc C} {e : ClientEvent} (h : Announces q p impressions call e)
    (hchange : call' = call ∨ emitting q p = some e ∨
      (call ≠ .new ∧ ∀ outcome, call ≠ .returned outcome)) :
    Announces q p impressions call' e := by
  rcases hchange with rfl | hemitting | ⟨hnew, hreturned⟩
  · exact h
  · cases p with
    | emit _ _ _ _ _ => exact ⟨h.1, Or.inr hemitting⟩
    | _ => cases hemitting
  · -- a call under way is that of an evaluation that waits for it
    cases p with
    | emit _ _ _ _ _ => exact ⟨h.1, Or.inr (h.2.resolve_left hnew)⟩
    | returned _ =>
      rcases h with ⟨-, hcall⟩ | ⟨i, outcome, -, -, hcall⟩
      · exact absurd hcall hnew
      · exact absurd hcall (hreturned outcome)
    | _ => exact absurd h.2 hnew

/-- **Step lemma.** -/
theorem inv_change {J : JsonLib} {P : StorageProvider σ} {config : ClientConfig}
    {query : Nat → Query} {event : Nat → ClientEvent} {s s' : State σ C} {a : Act C}
    (h : Inv query event s) (hc : Change J P config query event s a s') : Inv query event s' := by
  cases hc with
  | client a c hfree hc =>
    intro t
    have hchange := ClientMachine.step_change hc
    by_cases ha : a = .call t
    · subst ha
      have hready : emitting (query t) (s.client.calls t) = none ∨
          ∃ outcome, s.events.calls (evaluationCall t) = .returned outcome := by
        rw [← returned_iff]
        simp only [waits, Bool.and_eq_false_iff, Bool.not_eq_false', Option.isSome_eq_false_iff,
          Option.isNone_iff_eq_none] at hfree
        exact hfree
      cases hchange with
      | call _ c hcall => exact announces_call (h t) hready hcall
    · obtain ⟨hcalls, -, himpressions⟩ := ClientMachine.change_other hchange ha
      show Announces _ (c.calls t) (impressionsOf c t) _ _
      rw [hcalls, himpressions]
      exact h t
  | events a e hmay he =>
    intro t
    have hchange := EventHandler.step_change he
    refine announces_events (h t) ?_
    refine (EventHandler.change_call hchange (evaluationCall t)).imp_right (Or.imp_left ?_)
    rintro rfl
    simpa [mayTake, mayEmit] using hmay
  | emitted e rest howed hreturned => exact h

/-- An impression tells of this answer to this call. -/
def TellsOf (q : Query) (answer : Answer) (i : ClientImpression) : Prop :=
  i.flagName = q.flagName ∧
    match answer with
    | .enabled enabled => i.eventType = bytes "isEnabled" ∧ i.enabled = enabled
    | .variant variant => i.eventType = bytes "getVariant" ∧ i.variant = variant.name

theorem tellsOf_outcome {config : ClientConfig} {q : Query} {seen : Option ToggleSet}
    {ctx : Context} {answer : Answer} {metrics : List Evaluation}
    {impressions : List ClientImpression} {i : ClientImpression}
    (h : (answer, metrics, impressions) = AtomicClient.outcome config q seen ctx)
    (hi : i ∈ impressions) : TellsOf q answer i := by
  cases seen with
  | none =>
    cases h
    cases hi
  | some toggleSet =>
    have h : _ = ClientMachine.sequential config q toggleSet ctx := h
    by_cases hknown : toggleSet.contains q.flagName = true
    · rw [ClientMachine.sequential_known config hknown] at h
      cases h
      split at hi
      · obtain rfl := List.mem_singleton.mp hi
        cases hkind : q.kind <;> simp [TellsOf, ClientMachine.answerOf, ClientMachine.impressionOf,
          ClientMachine.variantOf, hkind]
      · cases hi
    · rw [ClientMachine.sequential_unknown config (Bool.eq_false_iff.mpr hknown)] at h
      cases h
      cases hi

/-- A step that the client takes in a run is a step of the run. -/
theorem took_client {J : JsonLib} {P : StorageProvider σ} {config : ClientConfig}
    {query : Nat → Query} {event : Nat → ClientEvent} {s₀ s : State σ C} {as : List (Act C)}
    (hrun : Machine.run (step J P config query event) s₀ as = some s) {a : ClientMachine.Act}
    {Q : ClientMachine.State σ → Prop}
    (htook : Machine.Took (ClientMachine.step J P config query) s₀.client
      (Machine.answers (step J P config query event) (fun _ => clientActs) s₀ as) a Q) :
    Machine.Took (step J P config query event) s₀ as (.client a) fun u => Q u.client := by
  obtain ⟨as₁, b, as₂, u, c, rfl, hu, rfl, hstep⟩ :=
    (simulates_client J P config query event).took rfl hrun htook
  cases b with
  | client b =>
    obtain ⟨rfl, hQ⟩ := Machine.took_one hstep
    exact ⟨as₁, as₂, u, rfl, hu, hQ⟩
  | events b | emitted =>
    obtain ⟨bs, cs, w, heq, -, -⟩ := hstep
    exact absurd heq.symm (by simp [clientActs])

/-- A call that is over did what follows from flags, which the client offered at a step of the call,
    and from a context, which the client had at a step of the call, if the call has copied one. -/
def OneMoment (J : JsonLib) (P : StorageProvider σ) (config : ClientConfig) (query : Nat → Query)
    (event : Nat → ClientEvent) (s₀ : State σ C) (as : List (Act C)) (s : State σ C) (t : Nat)
    (answer : ClientMachine.Answer) : Prop :=
  ∃ seen copied,
    Machine.Took (step J P config query event) s₀ as (.client (.call t))
      (fun u => ClientMachine.published u.client.client = seen) ∧
    (∀ c, copied = some c → Machine.Took (step J P config query event) s₀ as (.client (.call t))
      fun u => u.client.context = c) ∧
    ∀ c, (answer, metricsOf s.client t, impressionsOf s.client t) =
      AtomicClient.outcome config (query t) seen (copied.getD c)

theorem oneMoment_run {J : JsonLib} {P : StorageProvider σ} {config : ClientConfig}
    {query : Nat → Query} {event : Nat → ClientEvent} {client : UnleashClient σ} {ctx : Context}
    {as : List (Act C)} {s : State σ C}
    (hrun : Machine.run (step J P config query event) (initial client ctx) as = some s) {t : Nat}
    {answer : ClientMachine.Answer} (ht : s.client.calls t = .returned answer) :
    OneMoment J P config query event (initial client ctx) as s t answer := by
  -- the client's side of the run is linearizable
  obtain ⟨c, hcs, rfl⟩ := (simulates_client J P config query event).run rfl hrun
  obtain ⟨a, -, hagrees⟩ := ClientMachine.agrees_run hcs
  obtain ⟨seen, hseen, hout⟩ := hagrees.complete t answer ht
  exact ⟨seen, a.copied t, took_client hrun (hagrees.saw t seen hseen),
    fun c hc => took_client hrun (hagrees.copied t c hc), hout⟩

/-- What the callbacks hear of the evaluations.  `order`, `once`: what is executed, in flight or
    waiting was accepted, in this order and once for each emit call; `answers`: a call that is over
    did what the flags of one moment of the call say, and its impressions tell of its answer;
    `told`: an impression was accepted, or its emit call says why not; `nothingElse`: an accepted
    impression is that of its evaluation. -/
structure Told (J : JsonLib) (P : StorageProvider σ) (config : ClientConfig) (query : Nat → Query)
    (event : Nat → ClientEvent) (s₀ : State σ C) (as : List (Act C)) (s : State σ C) : Prop where
  order : (s.events.executed ++ s.events.loop.inflight.toList ++ s.events.queue).Sublist
    s.events.accepted
  once : (s.events.accepted.map EventHandler.EventTask.call).Nodup
  answers : ∀ t answer, s.client.calls t = .returned answer →
    OneMoment J P config query event s₀ as s t answer ∧
    ∀ i ∈ impressionsOf s.client t, TellsOf (query t) answer i
  told : ∀ t, ∀ i ∈ impressionsOf s.client t,
    (∃ task ∈ s.events.accepted, task.call = evaluationCall t ∧ task.event = .impression i) ∨
    ∃ outcome, outcome ≠ .accepted ∧ s.events.calls (evaluationCall t) = .returned outcome
  nothingElse : ∀ task ∈ s.events.accepted, ∀ t, caller task.call = .evaluation t →
    ∃ i, task.event = .impression i ∧ (impressionsOf s.client t = [i] ∨
      emitting (query t) (s.client.calls t) = some (.impression i))

/-- **What is heard is what was answered.**  Whatever the application registers, starts and stops,
    and whatever the threads do in between: every impression that a callback is executed with, or
    will be, is that of one evaluation and tells of its answer, each at most once; and an evaluation
    with an impression got it accepted, unless the handler was stopped, had no callback for it or
    had a full queue. -/
theorem impressions_told (J : JsonLib) (P : StorageProvider σ) (config : ClientConfig)
    (query : Nat → Query) (event : Nat → ClientEvent) (client : UnleashClient σ) (ctx : Context)
    (as : List (Act C)) (s : State σ C)
    (hrun : Machine.run (step J P config query event) (initial client ctx) as = some s) :
    Told J P config query event (initial client ctx) as s := by
  have h : Inv query event s := Machine.run_inv (I := Inv query event)
    (fun _ _ _ hu hv => inv_change hu (step_change hv)) (inv_initial query event client ctx) hrun
  -- the handler's side of the run keeps the books of the queue
  obtain ⟨e, he, rfl⟩ := (simulates_events J P config query event).run rfl hrun
  have hledger : EventHandler.Ledger event s.events := EventHandler.ledger_run he
  refine ⟨hledger.order, hledger.once, fun t answer hreturned => ?_, fun t i hi => ?_,
    fun task htask t ht => ?_⟩
  · refine ⟨oneMoment_run hrun hreturned, fun i hi => ?_⟩
    obtain ⟨seen, copied, -, -, hout⟩ := oneMoment_run hrun hreturned
    exact tellsOf_outcome (hout ctx) hi
  · have hcall := h t
    cases hp : s.client.calls t with
    | returned answer =>
      rw [hp] at hcall
      rcases hcall with ⟨hnone, -⟩ | ⟨j, outcome, hone, hevent, hreturned⟩
      · rw [hnone] at hi
        cases hi
      · rw [hone] at hi
        obtain rfl : i = j := List.mem_singleton.mp hi
        by_cases houtcome : outcome = .accepted
        · rw [houtcome] at hreturned
          have haccepted := (hledger.calls (evaluationCall t)).mp (by rw [hreturned]; rfl)
          obtain ⟨task, htask, hcall⟩ := List.mem_map.mp haccepted
          refine Or.inl ⟨task, htask, hcall, ?_⟩
          rw [hledger.event task htask, hcall, hevent]
        · exact Or.inr ⟨outcome, houtcome, hreturned⟩
    | _ =>
      rw [hp] at hcall
      rw [hcall.1] at hi
      cases hi
  · have hcall := h t
    have hk : task.call = evaluationCall t := caller_eq_evaluation ht
    have haccepted : (s.events.calls (evaluationCall t)).accepted = true :=
      (hledger.calls _).mpr (hk ▸ List.mem_map_of_mem htask)
    have hevent : task.event = event (evaluationCall t) := by rw [hledger.event task htask, hk]
    have hnew : s.events.calls (evaluationCall t) ≠ .new := by
      intro hnew
      rw [hnew] at haccepted
      cases haccepted
    cases hp : s.client.calls t with
    | returned answer =>
      rw [hp] at hcall
      obtain ⟨i, -, hone, hi, -⟩ := hcall.resolve_left fun hidle => hnew hidle.2
      exact ⟨i, hevent.trans hi, Or.inl hone⟩
    | emit toggleSet enabled variant impression ctx =>
      rw [hp] at hcall
      have hi := hcall.2.resolve_left hnew
      refine ⟨_, hevent.trans (Option.some.inj hi).symm, Or.inr rfl⟩
    | _ =>
      rw [hp] at hcall
      exact absurd hcall.2 hnew

/-- `isEnabled("a")` on a ready client, with its emit call, and the event thread that hands the
    impression to the callback. -/
def heardCall : List (Act Nat) :=
  [.events (.register .impression (some 0)), .events .start, .events .control] ++
    List.replicate 7 (.client (.call 0)) ++
    [.events (.enter 0), .events (.load 0), .events (.push 0), .events (.notify 0),
      .client (.call 0)] ++
    List.replicate 5 (.events .loop)

/-- The impression of this call. -/
def heardImpression : ClientImpression :=
  { ctx := UnleashClient.plainContext, flagName := bytes "a", enabled := true,
    eventType := bytes "isEnabled", impressionData := false }

theorem impressions_told_once :
    ∃ s : State Unit Nat, Machine.run (step JsonText.compact localStorageProvider
        ClientMachine.allImpressions (fun _ => ⟨.isEnabled, bytes "a"⟩)
        fun _ => .impression heardImpression)
        (initial ClientMachine.variantClient UnleashClient.plainContext) heardCall = some s ∧
      s.events.executed.length = 1 ∧
      Told JsonText.compact localStorageProvider ClientMachine.allImpressions
        (fun _ => ⟨.isEnabled, bytes "a"⟩) (fun _ => .impression heardImpression)
        (initial ClientMachine.variantClient UnleashClient.plainContext) heardCall s := by
  have hheard : (Machine.run (step JsonText.compact localStorageProvider
      ClientMachine.allImpressions (fun _ => ⟨.isEnabled, bytes "a"⟩)
      fun _ => .impression heardImpression)
      (initial ClientMachine.variantClient UnleashClient.plainContext) heardCall).map
        (fun s => s.events.executed.length) = some 1 := by
    decide +kernel
  obtain ⟨s, hs, hexecuted⟩ := Option.map_eq_some_iff.mp hheard
  exact ⟨s, hs, hexecuted, impressions_told JsonText.compact localStorageProvider
    ClientMachine.allImpressions (fun _ => ⟨.isEnabled, bytes "a"⟩)
    (fun _ => .impression heardImpression) ClientMachine.variantClient UnleashClient.plainContext
    heardCall s hs⟩

end ClientEvents

end Unleash
