/-
  WHAT THE CALLBACKS HEAR OF THE FETCHES, and in which order.

  Between the polling thread and a callback an event passes several hands:

      events of the sequential client
        =  emitted ++ owed                            outside of a fetch
        ⊇  accepted by the queue                      an emit call may be refused
        ⊇  executed ++ in flight ++ waiting           a stop drops what waits

  The thread makes one emit call after the other, and the queue is first in, first out, so each
  line is a subsequence of the one before it: the callbacks hear of the fetches in their order,
  and nothing that a sequential client would not tell.  In particular there is one Ready at most,
  over all starts and stops, and no Update comes before it (`events_in_order`).
-/
import UnleashSdk.Impressions
import UnleashSdk.PollingSequence

set_option linter.unusedVariables false

namespace Unleash

namespace ClientEvents

open ClientMachine (PollPc Query)

variable {σ C : Type}

/-! ## The emit calls are made in their order -/

theorem caller_eq_polling {k n : Nat} (h : caller k = .polling n) : k = pollingCall n := by
  unfold caller at h
  split at h
  · cases h
  · rename_i hmod
    obtain rfl : k / 3 = n := Caller.polling.inj h
    show k = 3 * (k / 3) + 1
    omega
  · cases h

/-- A task of the polling thread. -/
def ofPolling (task : EventHandler.EventTask C) : Bool :=
  match caller task.call with
  | .polling _ => true
  | _ => false

theorem ofPolling_eq {task : EventHandler.EventTask C} (h : ofPolling task = true) :
    ∃ n, task.call = pollingCall n := by
  unfold ofPolling at h
  split at h
  · rename_i n hcaller
    exact ⟨n, caller_eq_polling hcaller⟩
  · cases h

/-- The emit call that is under way, once its task is accepted. -/
def current (s : State σ C) : List Nat :=
  if (s.events.calls (pollingCall s.emitted)).accepted then [pollingCall s.emitted] else []

/-- The calls before it have returned, and the tasks of the thread are accepted in the order of
    their calls. -/
structure InOrder (event : Nat → ClientEvent) (s : State σ C) : Prop where
  emits : Emits event s
  finished : ∀ n, n < s.emitted → returned s.events (pollingCall n) = true
  calls : ((s.events.accepted.filter ofPolling).map EventHandler.EventTask.call).Sublist
    ((List.range s.emitted).map pollingCall ++ current s)

theorem inOrder_initial (event : Nat → ClientEvent) (client : UnleashClient σ) (ctx : Context) :
    InOrder event (initial client ctx : State σ C) where
  emits := emits_initial event client ctx
  finished n hn := absurd hn (Nat.not_lt_zero n)
  calls := List.Sublist.refl []

/-- A call of the polling thread that is under way is the present one. -/
theorem InOrder.present {event : Nat → ClientEvent} {s : State σ C} (h : InOrder event s) {n : Nat}
    (hnew : s.events.calls (pollingCall n) ≠ .new)
    (hreturned : returned s.events (pollingCall n) = false) : n = s.emitted := by
  rcases Nat.lt_trichotomy n s.emitted with hlt | heq | hgt
  · rw [h.finished n hlt] at hreturned
    cases hreturned
  · exact heq
  · exact absurd (h.emits.fresh n (Nat.le_of_lt hgt) (Or.inr hgt)) hnew

/-- A call that has returned is over. -/
theorem InOrder.stays {query : Nat → Query} {event : Nat → ClientEvent} {s : State σ C}
    {e : EventHandler.State C} {a : EventHandler.Act C} (h : InOrder event s)
    (hmay : mayTake query event s a = true) (hc : EventHandler.Change event s.events a e) {n : Nat}
    (hn : n < s.emitted) : returned e (pollingCall n) = true := by
  have hreturned := h.finished n hn
  obtain ⟨outcome, hcall⟩ := returned_iff.mp hreturned
  rcases EventHandler.change_call hc (pollingCall n) with hsame | rfl | ⟨-, hnot⟩
  · exact returned_iff.mpr ⟨outcome, hsame.trans hcall⟩
  · -- only the present call may begin
    obtain ⟨rfl, -⟩ : n = s.emitted ∧ s.owed.head? = some (event (pollingCall n)) := by
      simpa [mayTake, mayEmit] using hmay
    exact absurd hn (Nat.lt_irrefl _)
  · exact absurd hcall (hnot outcome)

/-- **Step lemma** for the handler. -/
theorem calls_events {event : Nat → ClientEvent} {s : State σ C} {e : EventHandler.State C}
    {a : EventHandler.Act C} (h : InOrder event s) (hc : EventHandler.Change event s.events a e) :
    ((e.accepted.filter ofPolling).map EventHandler.EventTask.call).Sublist
      ((List.range s.emitted).map pollingCall ++ current { s with events := e }) := by
  rcases EventHandler.change_accepted hc with ⟨haccepted, hcalls⟩ | ⟨t, cb, ht, haccepted, hcalls⟩
  · have hcurrent : current { s with events := e } = current s := by
      unfold current
      rw [hcalls]
    rw [haccepted, hcurrent]
    exact h.calls
  · rw [haccepted, List.filter_append, List.map_append]
    cases hof : ofPolling (⟨t, cb, event t⟩ : EventHandler.EventTask C) with
    | false =>
      have hother : pollingCall s.emitted ≠ t := by
        rintro rfl
        simp [ofPolling] at hof
      have hcurrent : current { s with events := e } = current s := by
        unfold current
        rw [hcalls, Function.update_of_ne hother]
      rw [List.filter_singleton, hof, hcurrent]
      simpa using h.calls
    | true =>
      obtain ⟨n, rfl⟩ := ofPolling_eq hof
      have hreturned : returned s.events (pollingCall n) = false := by
        unfold returned
        rw [ht]
      obtain rfl : n = s.emitted := h.present (by rw [ht]; simp) hreturned
      -- its task was not among the others
      have hbefore : current s = [] := by
        unfold current
        rw [ht]
        rfl
      have hafter : current { s with events := e } = [pollingCall s.emitted] := by
        unfold current
        rw [hcalls, Function.update_self]
        rfl
      have hcalls' := h.calls
      rw [hbefore, List.append_nil] at hcalls'
      rw [hafter, List.filter_singleton, hof]
      exact hcalls'.append (List.Sublist.refl _)

/-- **Step lemma.** -/
theorem inOrder_change {J : JsonLib} {P : StorageProvider σ} {config : ClientConfig}
    {query : Nat → Query} {event : Nat → ClientEvent} {s s' : State σ C} {a : Act C}
    (h : InOrder event s) (hc : Change J P config query event s a s') : InOrder event s' := by
  have hemits := emits_change h.emits hc
  cases hc with
  | client a c hfree hc => exact ⟨hemits, h.finished, h.calls⟩
  | events a e hmay he =>
    have hchange := EventHandler.step_change he
    exact ⟨hemits, fun n hn => h.stays hmay hchange hn, calls_events (s := s) h hchange⟩
  | emitted e rest howed hreturned =>
    refine ⟨hemits, fun n hn => ?_, ?_⟩
    · rcases Nat.lt_succ_iff_lt_or_eq.mp hn with hlt | rfl
      · exact h.finished n hlt
      · exact hreturned
    · show List.Sublist _ ((List.range (s.emitted + 1)).map pollingCall ++ _)
      have hone : (current s).Sublist [pollingCall s.emitted] := by
        unfold current
        split
        · exact List.Sublist.refl _
        · exact List.nil_sublist _
      rw [List.range_succ, List.map_append, List.append_assoc]
      exact h.calls.trans ((List.Sublist.refl _).append (hone.trans (List.sublist_append_left _ _)))

/-! ## What is heard was told -/

/-- What the polling thread tells: what it has emitted, and what it has still to emit. -/
def told (event : Nat → ClientEvent) (s : State σ C) : List ClientEvent :=
  emittedEvents event s ++ s.owed

/-- What callbacks have been executed with, are about to be or will be, of the polling thread's
    events. -/
def heard (s : State σ C) : List ClientEvent :=
  ((s.events.executed ++ s.events.loop.inflight.toList ++ s.events.queue).filter ofPolling).map
    EventHandler.EventTask.event

/-- The event of the call that is under way is owed. -/
theorem Emits.current_owed {event : Nat → ClientEvent} {s : State σ C} (h : Emits event s) :
    ((current s).map event).Sublist s.owed := by
  unfold current
  split
  · rename_i haccepted
    have hnew : s.events.calls (pollingCall s.emitted) ≠ .new := by
      intro hnew
      rw [hnew] at haccepted
      cases haccepted
    cases howed : s.owed with
    | nil => exact absurd (h.fresh s.emitted (Nat.le_refl _) (Or.inl howed)) hnew
    | cons e rest =>
      have hevent := (h.head e rest howed).resolve_left hnew
      rw [List.map_singleton, hevent]
      exact List.singleton_sublist.mpr List.mem_cons_self
  · exact List.nil_sublist _

theorem heard_sublist {event : Nat → ClientEvent} {s : State σ C} (h : InOrder event s)
    (hledger : EventHandler.Ledger event s.events) : (heard s).Sublist (told event s) := by
  have hbooks : (heard s).Sublist
      ((s.events.accepted.filter ofPolling).map EventHandler.EventTask.event) :=
    (hledger.order.filter ofPolling).map _
  have hevents : (s.events.accepted.filter ofPolling).map EventHandler.EventTask.event =
      ((s.events.accepted.filter ofPolling).map EventHandler.EventTask.call).map event := by
    rw [List.map_map]
    refine List.map_congr_left fun task htask => ?_
    exact hledger.event task (List.mem_of_mem_filter htask)
  have hcalls := h.calls.map event
  have hall : ((List.range s.emitted).map pollingCall ++ current s).map event =
      emittedEvents event s ++ (current s).map event := by
    rw [List.map_append, List.map_map]
    rfl
  rw [hall] at hcalls
  rw [hevents] at hbooks
  exact hbooks.trans (hcalls.trans ((List.Sublist.refl _).append h.emits.current_owed))

/-! ## One Ready, and no Update before it -/

/-- The events of a client that is ready or not. -/
structure Orderly (ready : Bool) (es : List ClientEvent) : Prop where
  once : es.count .ready ≤ 1
  before : es.Pairwise fun e e' => e = .update → e' ≠ .ready
  notYet : ready = false → ClientEvent.ready ∉ es ∧ ClientEvent.update ∉ es

theorem orderly_nil (ready : Bool) : Orderly ready [] where
  once := Nat.zero_le _
  before := List.Pairwise.nil
  notYet _ := ⟨List.not_mem_nil, List.not_mem_nil⟩

theorem Orderly.mono {ready ready' : Bool} {es : List ClientEvent} (h : Orderly ready es)
    (hready : ready = true → ready' = true) : Orderly ready' es := by
  refine ⟨h.once, h.before, fun hnot => h.notYet ?_⟩
  cases hr : ready with
  | false => rfl
  | true =>
    rw [hready hr] at hnot
    cases hnot

theorem Orderly.snoc {ready : Bool} {es : List ClientEvent} {e : ClientEvent}
    (h : Orderly ready es) (hready : e ≠ .ready) (hupdate : e = .update → ready = true) :
    Orderly ready (es ++ [e]) := by
  refine ⟨?_, ?_, fun hnot => ?_⟩
  · rw [List.count_append, List.count_singleton, if_neg (by simpa using hready)]
    exact h.once
  · refine List.pairwise_append.mpr ⟨h.before, List.pairwise_singleton _ _, ?_⟩
    intro e' _ e'' he'' _
    rw [List.mem_singleton.mp he'']
    exact hready
  · have hne : e ≠ .update := by
      intro heq
      rw [hupdate heq] at hnot
      cases hnot
    obtain ⟨hnoReady, hnoUpdate⟩ := h.notYet hnot
    simp only [List.mem_append, List.mem_singleton, not_or]
    exact ⟨⟨hnoReady, hready.symm⟩, hnoUpdate, hne.symm⟩

/-- The first toggles: a Ready. -/
theorem Orderly.becomesReady {es : List ClientEvent} (h : Orderly false es) :
    Orderly true (es ++ [.ready]) := by
  obtain ⟨hnoReady, hnoUpdate⟩ := h.notYet rfl
  refine ⟨?_, ?_, fun hnot => by cases hnot⟩
  · rw [List.count_append, List.count_eq_zero_of_not_mem hnoReady]
    simp
  · refine List.pairwise_append.mpr ⟨h.before, List.pairwise_singleton _ _, ?_⟩
    intro e he e' _ hu
    exact absurd (hu ▸ he) hnoUpdate

theorem Orderly.announce {ready : Bool} {es : List ClientEvent} (h : Orderly ready es) :
    Orderly true (es ++ announcement ready) := by
  cases ready with
  | true => exact h.snoc (by simp) fun _ => rfl
  | false =>
    have hboth : es ++ announcement false = es ++ [.ready] ++ [.update] := by simp [announcement]
    rw [hboth]
    exact h.becomesReady.snoc (by simp) fun _ => rfl

theorem orderly_finishHandle {P : StorageProvider σ} {c c' : UnleashClient σ}
    {result : FetchResult} {es es' : List ClientEvent} (h : Orderly c.ready es)
    (hfinish : finishHandle P c result = some (c', es')) : Orderly c'.ready (es ++ es') := by
  have hquiet : some (c, ([] : List ClientEvent)) = some (c', es') →
      Orderly c'.ready (es ++ es') := by
    intro heq
    cases heq
    rwa [List.append_nil]
  unfold finishHandle at hfinish
  cases herr : result.error with
  | some error =>
    rw [herr] at hfinish
    cases hfinish
    exact h.snoc (fun heq => by cases heq) fun heq => by cases heq
  | none =>
    simp only [herr] at hfinish
    split at hfinish
    · exact hquiet hfinish
    split at hfinish
    · cases htoggles : result.toggles with
      | none =>
        rw [htoggles] at hfinish
        exact hquiet hfinish
      | some toggles =>
        simp only [htoggles, finishPersist] at hfinish
        split at hfinish
        · cases hfinish
        · cases hfinish
          exact h.announce
    · cases hfinish

/-- **Step lemma** for the sequential client. -/
theorem orderly_step {J : JsonLib} {P : StorageProvider σ} {a a' : SequentialClient.State σ}
    {act : SequentialClient.Act} (h : Orderly a.client.ready a.events)
    (hstep : SequentialClient.step J P a act = some a') :
    Orderly a'.client.ready a'.events := by
  cases act with
  | ready =>
    cases hstep
    exact h.mono fun _ => rfl
  | fetch ctx resp =>
    obtain ⟨r, hr, rfl⟩ := Option.map_eq_some_iff.mp hstep
    rw [singleFetchToggles_eq] at hr
    split at hr
    · cases hr
    · rename_i result fetcher hfetch
      have hready : Orderly { a.client with toggleFetcher := fetcher }.ready a.events := h
      exact orderly_finishHandle hready hr

/-! ## Through the hands -/

/-- The sequential client takes no event back. -/
theorem events_grow {J : JsonLib} {P : StorageProvider σ} {a a' : SequentialClient.State σ}
    {bs : List SequentialClient.Act}
    (hrun : Machine.run (SequentialClient.step J P) a bs = some a') : a.events <+: a'.events := by
  refine Machine.run_inv (I := fun u => a.events <+: u.events) ?_ (List.prefix_refl _) hrun
  intro u act v hu hv
  cases act with
  | ready =>
    cases hv
    exact hu
  | fetch ctx resp =>
    obtain ⟨r, -, rfl⟩ := Option.map_eq_some_iff.mp hv
    exact hu.trans (List.prefix_append _ _)

/-- A fetch that will end in an exception emits nothing. -/
theorem emitsAfter_of_throws {P : StorageProvider σ} {c : UnleashClient σ} {p : PollPc}
    (h : finish P c p = none) : emitsAfter c.ready p = [] := by
  cases p with
  | exchangeReady => cases h
  | handle result =>
    cases herr : result.error with
    | none => simp [emitsAfter, herr]
    | some error =>
      simp only [finish, finishHandle, herr] at h
      cases h
  | _ => rfl

/-- So a step into such a fetch, or in it, tells nothing. -/
theorem told_of_throws {J : JsonLib} {P : StorageProvider σ} {config : ClientConfig}
    {query : Nat → Query} {event : Nat → ClientEvent} {s s' : State σ C} {a : Act C}
    (hemits : Emits event s) (hc : Change J P config query event s a s')
    (hthrows : finish P s'.client.client s'.client.polling = none) :
    told event s' = told event s := by
  cases hc with
  | client a c hfree hc =>
    have hnothing : owes s.client a = [] := by
      cases ClientMachine.step_change hc with
      | poll c hpoll =>
        have hbefore := finish_step hpoll
        rw [hthrows] at hbefore
        exact emitsAfter_of_throws hbefore
      | _ => rfl
    unfold told emittedEvents
    rw [hnothing, List.append_nil]
  | events a e hmay he => rfl
  | emitted e rest howed hreturned =>
    unfold told emittedEvents
    rw [howed]
    simp [List.range_succ, hemits.head_returned howed hreturned]

/-- **The sequential client has told all of it.** -/
theorem simulates_told (J : JsonLib) (P : StorageProvider σ) (config : ClientConfig)
    (query : Nat → Query) (event : Nat → ClientEvent) :
    Machine.Simulates (step (C := C) J P config query event) (SequentialClient.step J P)
      (sequentially J P) fun s a => Related P event s a ∧ told event s <+: a.events := by
  rintro s a act s' ⟨h, htold⟩ hstep
  obtain ⟨a', ha', h'⟩ := simulates_sequentially J P config query event s a act s' h hstep
  refine ⟨a', ha', h', ?_⟩
  cases hfinish : finish P s'.client.client s'.client.polling with
  | some r =>
    rw [(h'.finishes r.1 r.2 hfinish).2]
    exact List.prefix_append _ _
  | none =>
    rw [told_of_throws h.emits (step_change hstep) hfinish]
    exact htold.trans (events_grow ha')

/-- `sequence`: what is heard are events of the sequential client, in their order; `once`: among
    them is one Ready at most; `before`: no Update comes before it. -/
structure HeardInOrder (s : State σ C) (a : SequentialClient.State σ) : Prop where
  sequence : (heard s).Sublist a.events
  once : (heard s).count .ready ≤ 1
  before : (heard s).Pairwise fun e e' => e = .update → e' ≠ .ready

/-- **The fetches are heard in their order.**  Whatever runs in between, whichever callbacks are
    registered, and however often the client and its handler are started and stopped: of the
    polling thread's events the callbacks hear a subsequence of what a sequential client tells
    that handles the same replies; one Ready at most, and no Update before it. -/
theorem events_in_order (J : JsonLib) (P : StorageProvider σ) (config : ClientConfig)
    (query : Nat → Query) (event : Nat → ClientEvent) (storage : σ) (client : UnleashClient σ)
    (ctx : Context) (as : List (Act C)) (s : State σ C)
    (hmake : UnleashClient.make P config storage = some client)
    (hrun : Machine.run (step J P config query event) (initial client ctx) as = some s) :
    ∃ a, Machine.run (SequentialClient.step J P) { client := client }
        (Machine.answers (step J P config query event) (sequentially J P) (initial client ctx) as) =
          some a ∧ HeardInOrder s a := by
  have horder : InOrder event s := Machine.run_inv (I := InOrder event)
    (fun _ _ _ hu hv => inOrder_change hu (step_change hv)) (inOrder_initial event client ctx) hrun
  obtain ⟨e, he, rfl⟩ := (simulates_events J P config query event).run rfl hrun
  obtain ⟨a, ha, -, htold⟩ := (simulates_told J P config query event).run
    ⟨related_initial event ctx hmake, List.prefix_refl _⟩ hrun
  have hheard : (heard s).Sublist a.events :=
    (heard_sublist horder (EventHandler.ledger_run he)).trans htold.sublist
  have horderly : Orderly a.client.ready a.events :=
    Machine.run_inv (I := fun a => Orderly a.client.ready a.events)
      (fun _ _ _ hu hv => orderly_step hu hv) (orderly_nil _) ha
  exact ⟨a, ha, hheard, (hheard.count_le _).trans horderly.once, horderly.before.sublist hheard⟩

/-- One emit call of the polling thread, from beginning to end. -/
def emission (n : Nat) : List (Act Nat) :=
  [.events (.enter (pollingCall n)), .events (.load (pollingCall n)),
    .events (.push (pollingCall n)), .events (.notify (pollingCall n)), .emitted]

/-- The first flags: the Ready has been heard when the Update is accepted. -/
def firstFlags : List (Act Nat) :=
  [.events (.register .ready (some 0)), .events (.register .update (some 1)), .events .start,
    .events .control, .client .start] ++ List.replicate 3 (.client .control) ++
    List.replicate 2 (.client .poll) ++
    .client (.reply (UnleashClient.okReply oneToggleText (bytes "e1"))) ::
    List.replicate 5 (.client .poll) ++ emission 0 ++ List.replicate 5 (.events .loop) ++
    emission 1

def firstEvents (k : Nat) : ClientEvent := if k = pollingCall 0 then .ready else .update

theorem events_in_order_first :
    ∃ (s : State Unit Nat) (a : SequentialClient.State Unit),
      Machine.run (step JsonText.compact localStorageProvider
        (ClientConfig.make (bytes "u") (bytes "k") (bytes "app") [])
        (fun _ => ⟨.isEnabled, bytes "a"⟩) firstEvents)
        (initial UnleashClient.freshClient UnleashClient.plainContext) firstFlags = some s ∧
      s.events.executed.length = 1 ∧ heard s = [.ready, .update] ∧ HeardInOrder s a := by
  have hsummary : (Machine.run (step JsonText.compact localStorageProvider
      (ClientConfig.make (bytes "u") (bytes "k") (bytes "app") [])
      (fun _ => ⟨.isEnabled, bytes "a"⟩) firstEvents)
      (initial (C := Nat) UnleashClient.freshClient UnleashClient.plainContext) firstFlags).map
        (fun s => (s.events.executed.length, heard s)) = some (1, [.ready, .update]) := by
    decide +kernel
  obtain ⟨s, hs, hrest⟩ := Option.map_eq_some_iff.mp hsummary
  simp only [Prod.mk.injEq] at hrest
  obtain ⟨a, -, hheard⟩ := events_in_order JsonText.compact localStorageProvider
    (ClientConfig.make (bytes "u") (bytes "k") (bytes "app") []) (fun _ => ⟨.isEnabled, bytes "a"⟩)
    firstEvents () UnleashClient.freshClient UnleashClient.plainContext firstFlags s rfl hs
  exact ⟨s, a, hs, hrest.1, hrest.2, hheard⟩

end ClientEvents

end Unleash
