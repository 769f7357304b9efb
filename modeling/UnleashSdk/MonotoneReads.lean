/-
  MONOTONE READS: what the evaluations see of the server.

  The client with all its threads, and the server.  Flags travel from a version of the server to
  the answer of a call through five hands, and any number of calls and of changes of the server
  run in between:

      flags ──serve──▶ answered ──deliver──▶ handle ─▶ persist ─▶ storeSnapshot ──▶ store
      (version v)                                                                     │ load
                                                              returned ◀─ ⋯ ◀─ contains

  Only one fetch is under way at a time, and every one of the hands keeps the order.  So the calls
  read the versions of the server in the order of real time: a call that begins after another one
  is over never sees flags of an older version (`reads_monotone`), though the two may run on
  different threads.  Nothing is assumed of the server's tags; a reply without new flags, "not
  modified" among them, changes nothing here.
-/
import UnleashSdk.Evaluations
import UnleashSdk.ServerSync

set_option linter.unusedVariables false

namespace Unleash

namespace MonotoneReads

open ClientMachine (PollPc CallPc Query Answer metricsOf impressionsOf Progress sequential)
open ServerSync (Delivery)

variable {σ : Type}

/-! ## The state -/

inductive Exchange where
  | idle
  | requested (request : HttpRequest)
  | answered (resp : HttpReply) (d : Delivery)

/-- The client, and the server with the flags that it had before, oldest first.  The records say
    where the flags come from that were delivered last, those in the store, and those that a call
    has loaded: from a delivery, or, `none`, from the constructor. -/
structure State (σ : Type) where
  client : ClientMachine.State σ
  flags : HttpRequest → Bytes
  past : List (HttpRequest → Bytes) := []
  exchange : Exchange := .idle
  arrived : Option Delivery := none
  stored : Option Delivery := none
  read : Nat → Option (Option Delivery) := fun _ => none

inductive Act where
  -- of the client, its replies apart
  | client (a : ClientMachine.Act)
  | send
  | change (flags : HttpRequest → Bytes)
  | serve (resp : HttpReply)
  | deliver

/-- The flags that the server had in this version. -/
def State.flagsAt (s : State σ) (version : Nat) : Option (HttpRequest → Bytes) :=
  (s.past ++ [s.flags])[version]?

/-- Flags that the client takes over are those that the server has. -/
def Honest (J : JsonLib) (body : Bytes) (resp : HttpReply) : Prop :=
  ∀ p ∈ accepted J resp, p.1.body = body

instance (J : JsonLib) (body : Bytes) (resp : HttpReply) : Decidable (Honest J body resp) :=
  inferInstanceAs (Decidable (∀ p ∈ accepted J resp, p.1.body = body))

/-! ## The steps -/

def isReply : ClientMachine.Act → Bool
  | .reply _ => true
  | _ => false

/-- The polling thread stores what has arrived. -/
def storedAfter (s : State σ) : ClientMachine.Act → Option Delivery
  | .poll =>
    match s.client.polling with
    | .storeSnapshot _ => s.arrived
    | _ => s.stored
  | _ => s.stored

/-- A call loads what is stored. -/
def readAfter (s : State σ) : ClientMachine.Act → Nat → Option (Option Delivery)
  | .call t =>
    match s.client.calls t with
    | .load => Function.update s.read t (some s.stored)
    | _ => s.read
  | _ => s.read

/-- A fetch begins with `send` and ends with `deliver`; a context that cannot be sent ends it at
    once. -/
def step (J : JsonLib) (P : StorageProvider σ) (config : ClientConfig) (query : Nat → Query)
    (s : State σ) : Act → Option (State σ)
  | .client a =>
    if isReply a then none
    else
      (ClientMachine.step J P config query s.client a).map fun c =>
        { s with client := c, stored := storedAfter s a, read := readAfter s a }
  | .send =>
    match s.exchange, s.client.polling with
    | .idle, .fetch ctx =>
      match s.client.client.toggleFetcher.prepare J ctx with
      | none =>
        (ClientMachine.step J P config query s.client (.reply .null)).map fun c =>
          { s with client := c }
      | some f => some { s with exchange := .requested f.httpRequest }
    | _, _ => none
  | .change flags => some { s with flags := flags, past := s.past ++ [s.flags] }
  | .serve resp =>
    match s.exchange with
    | .requested request =>
      if Honest J (s.flags request) resp then
        some { s with
          exchange := .answered resp ⟨s.past.length, request, s.flags request⟩ }
      else none
    | _ => none
  | .deliver =>
    match s.exchange with
    | .answered resp d =>
      (ClientMachine.step J P config query s.client (.reply resp)).map fun c =>
        { s with client := c, exchange := .idle, arrived := some d }
    | _ => none

/-- A client that has just been constructed, and a server with these flags. -/
def initial (client : UnleashClient σ) (ctx : Context) (flags : HttpRequest → Bytes) : State σ :=
  { client := ClientMachine.initial client ctx, flags := flags }

/-- Everything a step can do. -/
inductive Change (J : JsonLib) (P : StorageProvider σ) (config : ClientConfig)
    (query : Nat → Query) (s : State σ) : Act → State σ → Prop where
  | client (a : ClientMachine.Act) (c : ClientMachine.State σ) (ha : isReply a = false)
    (hc : ClientMachine.Change J P config query s.client a c) :
    Change J P config query s (.client a)
      { s with client := c, stored := storedAfter s a, read := readAfter s a }
  | send (request : HttpRequest) (hx : s.exchange = .idle) :
    Change J P config query s .send { s with exchange := .requested request }
  | notSent (c : ClientMachine.State σ) (hx : s.exchange = .idle)
    (hc : ClientMachine.Change J P config query s.client (.reply .null) c) :
    Change J P config query s .send { s with client := c }
  | change (flags : HttpRequest → Bytes) :
    Change J P config query s (.change flags)
      { s with flags := flags, past := s.past ++ [s.flags] }
  | serve (resp : HttpReply) (request : HttpRequest) (hx : s.exchange = .requested request)
    (hhonest : Honest J (s.flags request) resp) :
    Change J P config query s (.serve resp)
      { s with exchange := .answered resp ⟨s.past.length, request, s.flags request⟩ }
  | deliver (resp : HttpReply) (d : Delivery) (c : ClientMachine.State σ)
    (hx : s.exchange = .answered resp d)
    (hc : ClientMachine.Change J P config query s.client (.reply resp) c) :
    Change J P config query s .deliver
      { s with client := c, exchange := .idle, arrived := some d }

theorem step_change {J : JsonLib} {P : StorageProvider σ} {config : ClientConfig}
    {query : Nat → Query} {s s' : State σ} {a : Act} (h : step J P config query s a = some s') :
    Change J P config query s a s' := by
  cases a with
  | client a =>
    simp only [step] at h
    split at h
    · cases h
    · rename_i ha
      obtain ⟨c, hc, rfl⟩ := Option.map_eq_some_iff.mp h
      exact .client a c (Bool.eq_false_iff.mpr ha) (ClientMachine.step_change hc)
  | send =>
    simp only [step] at h
    split at h
    · rename_i ctx hx hp
      split at h
      · obtain ⟨c, hc, rfl⟩ := Option.map_eq_some_iff.mp h
        exact .notSent c hx (ClientMachine.step_change hc)
      · cases h
        exact .send _ hx
    · cases h
  | change flags =>
    cases h
    exact .change flags
  | serve resp =>
    simp only [step] at h
    split at h
    · rename_i request hx
      split at h <;> cases h
      rename_i hhonest
      exact .serve resp request hx hhonest
    · cases h
  | deliver =>
    simp only [step] at h
    split at h
    · rename_i resp d hx
      obtain ⟨c, hc, rfl⟩ := Option.map_eq_some_iff.mp h
      exact .deliver resp d c hx (ClientMachine.step_change hc)
    · cases h

/-! ## Flags, and where they come from -/

/-- The flags of the constructor, or those of a delivery. -/
def Origin (J : JsonLib) (initial : ToggleSet) (toggles : ToggleSet) : Option Delivery → Prop
  | none => toggles = initial
  | some d => decodeClientFeaturesResponse J d.body = .ok toggles

/-- Not older: the flags of the constructor come before all others. -/
def NoOlder : Option Delivery → Option Delivery → Prop
  | none, _ => True
  | some _, none => False
  | some d, some d' => d.version ≤ d'.version

theorem NoOlder.refl (o : Option Delivery) : NoOlder o o := by
  cases o with
  | none => trivial
  | some d => exact Nat.le_refl _

theorem NoOlder.trans {o p q : Option Delivery} (h : NoOlder o p) (h' : NoOlder p q) :
    NoOlder o q := by
  cases o with
  | none => trivial
  | some d =>
    cases p with
    | none => exact h.elim
    | some e =>
      cases q with
      | none => exact h'.elim
      | some f => exact Nat.le_trans h h'

/-- The toggles that the polling thread has in hand. -/
def inHand : PollPc → Option ToggleSet
  | .handle result => result.toggles
  | .persist toggles | .storeSnapshot toggles => some toggles
  | _ => none

/-- A body that the server had. -/
def State.Had (s : State σ) (d : Delivery) : Prop :=
  (s.flagsAt d.version).map (· d.request) = some d.body

/-- A call that has read the flags of `o` works on them, and one that has read none has done
    nothing yet, or was turned away. -/
def Reads (J : JsonLib) (config : ClientConfig) (q : Query) (shown : ToggleSet) (p : CallPc)
    (metrics : List Evaluation) (impressions : List ClientImpression) :
    Option (Option Delivery) → Prop
  | none =>
    (p = .new ∨ p = .load ∨ p = .returned q.kind.refusal) ∧ metrics = [] ∧ impressions = []
  | some o => ∃ toggleSet, Origin J shown toggleSet o ∧
    Progress config q toggleSet p metrics impressions

/-- `store`, `inHand`: the flags are those that the records say; `order`: on their way they keep
    the order, and so do those that were read; `had`: all of them are bodies that the server
    had. -/
structure Inv (J : JsonLib) (config : ClientConfig) (query : Nat → Query) (shown : ToggleSet)
    (s : State σ) : Prop where
  store : Origin J shown s.client.client.flagStore.snapshot s.stored
  inHand : ∀ toggles, inHand s.client.polling = some toggles → Origin J shown toggles s.arrived
  answered : ∀ resp d, s.exchange = .answered resp d →
    Honest J d.body resp ∧ NoOlder s.arrived (some d) ∧ s.Had d
  order : NoOlder s.stored s.arrived
  hadArrived : ∀ d, s.arrived = some d → s.Had d
  hadStored : ∀ d, s.stored = some d → s.Had d
  hadRead : ∀ t d, s.read t = some (some d) → s.Had d
  readBefore : ∀ t o, s.read t = some o → NoOlder o s.stored
  calls : ∀ t, Reads J config (query t) shown (s.client.calls t) (metricsOf s.client t)
    (impressionsOf s.client t) (s.read t)

/-! ## The steps of the client -/

/-- The polling thread stores its toggles at this step. -/
def Stores (c : ClientMachine.State σ) (a : ClientMachine.Act) (toggles : ToggleSet) : Prop :=
  a = .poll ∧ c.polling = .storeSnapshot toggles

/-- It makes no toggles of its own, and what it stores is what it has in hand. -/
structure Carries (c : ClientMachine.State σ) (a : ClientMachine.Act)
    (c' : ClientMachine.State σ) : Prop where
  inHand : ∀ toggles, inHand c'.polling = some toggles → inHand c.polling = some toggles
  snapshot : (∃ toggles, Stores c a toggles ∧ c'.client.flagStore.snapshot = toggles) ∨
    (∀ toggles, ¬ Stores c a toggles) ∧
      c'.client.flagStore.snapshot = c.client.flagStore.snapshot

theorem Carries.quiet {c c' : ClientMachine.State σ} {a : ClientMachine.Act}
    (hinHand : ∀ toggles, MonotoneReads.inHand c'.polling = some toggles →
      MonotoneReads.inHand c.polling = some toggles)
    (hstore : ∀ toggles, ¬ Stores c a toggles)
    (hsnapshot : c'.client.flagStore.snapshot = c.client.flagStore.snapshot) : Carries c a c' :=
  ⟨hinHand, Or.inr ⟨hstore, hsnapshot⟩⟩

theorem client_carries {J : JsonLib} {P : StorageProvider σ} {config : ClientConfig}
    {query : Nat → Query} {c c' : ClientMachine.State σ} {a : ClientMachine.Act}
    (h : ClientMachine.Change J P config query c a c') (ha : isReply a = false) :
    Carries c a c' := by
  cases h with
  | control c' h =>
    generalize c.control = p at h
    cases ClientMachine.controlStep_change h with
    | spawn | join => exact .quiet (fun _ ht => (by cases ht)) (fun _ hs => (by cases hs.1)) rfl
    | _ => exact .quiet (fun _ ht => ht) (fun _ hs => (by cases hs.1)) rfl
  | poll c' h =>
    have hpoll := ClientMachine.pollStep_change h
    generalize hp : c.polling = p at hpoll
    have hstores : (∀ toggles, p ≠ .storeSnapshot toggles) → ∀ toggles, ¬ Stores c .poll toggles :=
      fun hne toggles hs => hne toggles (hp.symm.trans hs.2)
    cases hpoll with
    | handle result =>
      have hstores := hstores (by simp)
      refine ClientMachine.handleResult_cases c result (fun _ => ?_) ?_ (fun toggles ht => ?_) ?_
      · exact .quiet (fun _ ht => (by cases ht)) hstores rfl
      · exact .quiet (fun _ ht => (by cases ht)) hstores rfl
      · exact .quiet (fun _ ht' => by rw [hp]; exact ht.trans ht') hstores rfl
      · exact .quiet (fun _ ht => (by cases ht)) hstores rfl
    | saved toggles storage =>
      exact .quiet (fun _ ht => by rw [hp]; exact ht) (hstores (by simp)) rfl
    | storeSnapshot toggles =>
      exact ⟨fun _ ht => (by cases ht), Or.inl ⟨toggles, ⟨rfl, hp⟩, rfl⟩⟩
    | testEnabled | testExit | testExitAgain ctx =>
      refine .quiet (fun _ ht => ?_) (hstores (by simp)) rfl
      simp only at ht
      split at ht <;> cases ht
    | _ => exact .quiet (fun _ ht => (by cases ht)) (hstores (by simp)) rfl
  | call t c' h =>
    have hframe := ClientMachine.callChange_frame h
    exact .quiet (fun _ ht => by rw [← hframe.polling]; exact ht) (fun _ hs => (by cases hs.1))
      (by rw [hframe.client])
  | replied | printerThrew => cases ha
  | _ => exact .quiet (fun _ ht => ht) (fun _ hs => (by cases hs.1)) rfl

/-- A reply puts toggles into the polling thread's hand only if it is accepted. -/
theorem client_replied {J : JsonLib} {P : StorageProvider σ} {config : ClientConfig}
    {query : Nat → Query} {c c' : ClientMachine.State σ} {resp : HttpReply}
    (h : ClientMachine.Change J P config query c (.reply resp) c') :
    c'.client.flagStore = c.client.flagStore ∧
      ∀ toggles, inHand c'.polling = some toggles → ∃ r, accepted J resp = some (r, toggles) := by
  cases h with
  | printerThrew _ ctx hp hfetch => exact ⟨rfl, fun _ ht => (by cases ht)⟩
  | replied _ ctx result fetcher hp hfetch =>
    refine ⟨rfl, fun toggles ht => ?_⟩
    obtain ⟨r, hacc, -⟩ := ToggleFetcher.fetch_accepted hfetch ht
    exact ⟨r, hacc⟩

/-! ## The records -/

theorem storedAfter_stores {s : State σ} {a : ClientMachine.Act} {toggles : ToggleSet}
    (h : Stores s.client a toggles) : storedAfter s a = s.arrived := by
  obtain ⟨rfl, hp⟩ := h
  simp only [storedAfter, hp]

theorem storedAfter_not {s : State σ} {a : ClientMachine.Act}
    (h : ∀ toggles, ¬ Stores s.client a toggles) : storedAfter s a = s.stored := by
  cases a with
  | poll =>
    simp only [storedAfter]
    cases hp : s.client.polling with
    | storeSnapshot toggles => exact absurd ⟨rfl, hp⟩ (h toggles)
    | _ => rfl
  | _ => rfl

/-- What is stored is what was stored, or what has arrived. -/
theorem storedAfter_cases (s : State σ) (a : ClientMachine.Act) :
    storedAfter s a = s.stored ∨ storedAfter s a = s.arrived := by
  by_cases h : ∃ toggles, Stores s.client a toggles
  · obtain ⟨toggles, h⟩ := h
    exact Or.inr (storedAfter_stores h)
  · exact Or.inl (storedAfter_not fun toggles ht => h ⟨toggles, ht⟩)

/-- A call has read what it had read, unless it loads. -/
theorem readAfter_of_ne {s : State σ} {a : ClientMachine.Act} {t : Nat}
    (h : a = .call t → s.client.calls t ≠ .load) : readAfter s a t = s.read t := by
  cases a with
  | call t' =>
    simp only [readAfter]
    cases hp : s.client.calls t' with
    | load =>
      by_cases ht : t = t'
      · subst ht
        exact absurd hp (h rfl)
      · exact Function.update_of_ne ht _ _
    | _ => rfl
  | _ => rfl

theorem readAfter_load {s : State σ} {t : Nat} (h : s.client.calls t = .load) :
    readAfter s (.call t) t = some s.stored := by
  simp only [readAfter, h, Function.update_self]

/-- What a call reads, after a step of its own. -/
theorem reads_call {J : JsonLib} {config : ClientConfig} {query : Nat → Query} {shown : ToggleSet}
    {s : State σ} {t : Nat} {c : ClientMachine.State σ} (h : Inv J config query shown s)
    (hc : ClientMachine.CallChange config (query t) s.client t (s.client.calls t) c) :
    Reads J config (query t) shown (c.calls t) (metricsOf c t) (impressionsOf c t)
      (readAfter s (.call t) t) := by
  have hreads := h.calls t
  cases hread : s.read t with
  | some o =>
    -- it works on the set that it has loaded
    rw [hread] at hreads
    obtain ⟨toggleSet, horigin, hprogress⟩ := hreads
    have hload : s.client.calls t ≠ .load := by
      intro hp
      rw [hp] at hprogress
      exact hprogress.elim
    rw [readAfter_of_ne fun _ => hload, hread]
    exact ⟨toggleSet, horigin, ClientMachine.progress_change s.client.context hprogress hc⟩
  | none =>
    rw [hread] at hreads
    obtain ⟨hp, hm, hi⟩ := hreads
    rcases hp with hp | hp | hp
    · rw [readAfter_of_ne fun _ => by rw [hp]; simp, hread]
      rw [hp] at hc
      cases hc with
      | ready hready => exact ⟨Or.inr (Or.inl (ClientMachine.State.goto_calls_self _ _ _)), hm, hi⟩
      | notReady hready =>
        exact ⟨Or.inr (Or.inr (ClientMachine.State.goto_calls_self _ _ _)), hm, hi⟩
    · -- the moment of the load
      rw [readAfter_load hp]
      rw [hp] at hc
      cases hc with
      | load =>
        refine ⟨s.client.client.flagStore.snapshot, h.store, ?_⟩
        rw [ClientMachine.State.goto_calls_self]
        exact ⟨rfl, hm, hi⟩
    · rw [hp] at hc
      cases hc

/-- What a call has read after a step was read before, or is what was stored. -/
theorem readAfter_cases {s : State σ} {a : ClientMachine.Act} {t : Nat} {o : Option Delivery}
    (h : readAfter s a t = some o) : s.read t = some o ∨ o = s.stored := by
  by_cases hload : a = .call t ∧ s.client.calls t = .load
  · obtain ⟨rfl, hp⟩ := hload
    rw [readAfter_load hp] at h
    exact Or.inr (Option.some.inj h).symm
  · rw [readAfter_of_ne fun ha hp => hload ⟨ha, hp⟩] at h
    exact Or.inl h

/-! ## The versions of the server -/

theorem State.Had.le {s : State σ} {d : Delivery} (h : s.Had d) : d.version ≤ s.past.length := by
  obtain ⟨f, hf, -⟩ := Option.map_eq_some_iff.mp h
  have hlt : d.version < (s.past ++ [s.flags]).length := (List.getElem?_eq_some_iff.mp hf).1
  rw [List.length_append, List.length_singleton] at hlt
  omega

theorem State.Had.change {s : State σ} {d : Delivery} (h : s.Had d) (flags : HttpRequest → Bytes) :
    State.Had { s with flags := flags, past := s.past ++ [s.flags] } d := by
  obtain ⟨f, hf, hbody⟩ := Option.map_eq_some_iff.mp h
  have hlt : d.version < (s.past ++ [s.flags]).length := (List.getElem?_eq_some_iff.mp hf).1
  show (((s.past ++ [s.flags]) ++ [flags])[d.version]?).map _ = _
  rw [List.getElem?_append_left hlt, ← hbody]
  exact congrArg (Option.map _) hf

/-- The flags that it has now. -/
theorem had_current (s : State σ) (request : HttpRequest) :
    s.Had ⟨s.past.length, request, s.flags request⟩ := by
  show ((s.past ++ [s.flags])[s.past.length]?).map _ = _
  rw [List.getElem?_append_right (Nat.le_refl _)]
  simp

/-! ## Every step keeps the order -/

theorem inv_client {J : JsonLib} {P : StorageProvider σ} {config : ClientConfig}
    {query : Nat → Query} {shown : ToggleSet} {s : State σ} {a : ClientMachine.Act}
    {c : ClientMachine.State σ} (h : Inv J config query shown s) (ha : isReply a = false)
    (hc : ClientMachine.Change J P config query s.client a c) :
    Inv J config query shown
      { s with client := c, stored := storedAfter s a, read := readAfter s a } := by
  have hcarries := client_carries hc ha
  have hgrows : NoOlder s.stored (storedAfter s a) := by
    rcases storedAfter_cases s a with hsame | harrived
    · rw [hsame]
      exact NoOlder.refl _
    · rw [harrived]
      exact h.order
  refine ⟨?_, fun toggles ht => h.inHand toggles (hcarries.inHand toggles ht), h.answered, ?_,
    h.hadArrived, fun d hd => ?_, fun t d hd => ?_, fun t o ho => ?_, fun t => ?_⟩
  · show Origin J shown c.client.flagStore.snapshot (storedAfter s a)
    rcases hcarries.snapshot with ⟨toggles, hstores, hsnapshot⟩ | ⟨hnot, hsnapshot⟩
    · rw [hsnapshot, storedAfter_stores hstores]
      exact h.inHand toggles (by rw [hstores.2]; rfl)
    · rw [hsnapshot, storedAfter_not hnot]
      exact h.store
  · show NoOlder (storedAfter s a) s.arrived
    rcases storedAfter_cases s a with hsame | harrived
    · rw [hsame]
      exact h.order
    · rw [harrived]
      exact NoOlder.refl _
  · rcases storedAfter_cases s a with hsame | harrived
    · exact h.hadStored d (hsame.symm.trans hd)
    · exact h.hadArrived d (harrived.symm.trans hd)
  · rcases readAfter_cases hd with hread | hstored
    · exact h.hadRead t d hread
    · exact h.hadStored d hstored.symm
  · show NoOlder o (storedAfter s a)
    rcases readAfter_cases ho with hread | rfl
    · exact (h.readBefore t o hread).trans hgrows
    · exact hgrows
  · by_cases hcall : a = .call t
    · subst hcall
      cases hc with
      | call _ c hc => exact reads_call h hc
    · obtain ⟨hcalls, hmetrics, himpressions⟩ := ClientMachine.change_other hc hcall
      show Reads J config (query t) shown (c.calls t) _ _ (readAfter s a t)
      rw [hcalls, hmetrics, himpressions, readAfter_of_ne fun heq => absurd heq hcall]
      exact h.calls t

/-- The end of a fetch. -/
theorem inv_reply {J : JsonLib} {P : StorageProvider σ} {config : ClientConfig}
    {query : Nat → Query} {shown : ToggleSet} {s : State σ} {resp : HttpReply}
    {c : ClientMachine.State σ} {arrived : Option Delivery} (h : Inv J config query shown s)
    (hc : ClientMachine.Change J P config query s.client (.reply resp) c)
    (harrived : ∀ r toggles, accepted J resp = some (r, toggles) → Origin J shown toggles arrived)
    (horder : NoOlder s.arrived arrived) (hhad : ∀ d, arrived = some d → s.Had d) :
    Inv J config query shown { s with client := c, exchange := .idle, arrived := arrived } := by
  obtain ⟨hstore, hinHand⟩ := client_replied hc
  refine ⟨?_, fun toggles ht => ?_, fun _ _ hx => (by cases hx), h.order.trans horder, hhad,
    h.hadStored, h.hadRead, h.readBefore, fun t => ?_⟩
  · show Origin J shown c.client.flagStore.snapshot s.stored
    rw [hstore]
    exact h.store
  · obtain ⟨r, hacc⟩ := hinHand toggles ht
    exact harrived r toggles hacc
  · obtain ⟨hcalls, hmetrics, himpressions⟩ :=
      ClientMachine.change_other hc (t := t) (by simp)
    show Reads J config (query t) shown (c.calls t) (metricsOf c t) (impressionsOf c t) (s.read t)
    rw [hcalls, hmetrics, himpressions]
    exact h.calls t

/-- **Step lemma.** -/
theorem inv_step {J : JsonLib} {P : StorageProvider σ} {config : ClientConfig}
    {query : Nat → Query} {shown : ToggleSet} {s s' : State σ} {a : Act}
    (h : Inv J config query shown s) (hstep : step J P config query s a = some s') :
    Inv J config query shown s' := by
  cases step_change hstep with
  | client a c ha hc => exact inv_client h ha hc
  | send request hx =>
    exact ⟨h.store, h.inHand, fun _ _ hx => (by cases hx), h.order, h.hadArrived, h.hadStored,
      h.hadRead, h.readBefore, h.calls⟩
  | notSent c hx hc =>
    have hidle : ({ s with client := c } : State σ) =
        { s with client := c, exchange := .idle } := by
      rw [← hx]
    rw [hidle]
    exact inv_reply h hc (fun r toggles hacc => (by cases hacc)) (NoOlder.refl _) h.hadArrived
  | change flags =>
    refine ⟨h.store, h.inHand, fun resp d hx => ?_, h.order,
      fun d hd => (h.hadArrived d hd).change _, fun d hd => (h.hadStored d hd).change _,
      fun t d hd => (h.hadRead t d hd).change _, h.readBefore, h.calls⟩
    obtain ⟨hhonest, hno, hhad⟩ := h.answered resp d hx
    exact ⟨hhonest, hno, hhad.change _⟩
  | serve resp request hx hhonest =>
    refine ⟨h.store, h.inHand, fun resp' d hx' => ?_, h.order, h.hadArrived, h.hadStored, h.hadRead,
      h.readBefore, h.calls⟩
    cases hx'
    refine ⟨hhonest, ?_, had_current s request⟩
    -- what has arrived before is not newer than the server
    cases harrived : s.arrived with
    | none => trivial
    | some d => exact (h.hadArrived d harrived).le
  | deliver resp d c hx hc =>
    obtain ⟨hhonest, hno, hhad⟩ := h.answered resp d hx
    refine inv_reply h hc (fun r toggles hacc => ?_) hno fun d' hd' => ?_
    · obtain ⟨-, -, hdecode⟩ := accepted_some hacc
      show decodeClientFeaturesResponse J d.body = .ok toggles
      rw [← hhonest _ hacc]
      exact hdecode
    · cases hd'
      exact hhad

theorem inv_initial (J : JsonLib) (config : ClientConfig) (query : Nat → Query)
    (client : UnleashClient σ) (ctx : Context) (flags : HttpRequest → Bytes) :
    Inv J config query client.flagStore.snapshot (initial client ctx flags) where
  store := rfl
  inHand toggles ht := by cases ht
  answered resp d hx := by cases hx
  order := trivial
  hadArrived d hd := by cases hd
  hadStored d hd := by cases hd
  hadRead t d hd := by cases hd
  readBefore t o ho := by cases ho
  calls t := ⟨Or.inl rfl, rfl, rfl⟩

/-! ## Since a point of the run -/

/-- `stored`: the store has gone on; `kept`: what a call had read it has read; `fresh`: who has
    read since then has read what was stored then, or newer flags. -/
structure Since (u s : State σ) : Prop where
  stored : NoOlder u.stored s.stored
  kept : ∀ t o, u.read t = some o → s.read t = some o
  fresh : ∀ t o, u.read t = none → s.read t = some o → NoOlder u.stored o

theorem Since.refl (u : State σ) : Since u u :=
  ⟨NoOlder.refl _, fun _ _ ho => ho, fun t o hnone ho => by rw [hnone] at ho; cases ho⟩

/-- Who has read does not load again. -/
theorem Inv.loaded {J : JsonLib} {config : ClientConfig} {query : Nat → Query}
    {shown : ToggleSet} {s : State σ} (h : Inv J config query shown s) {t : Nat}
    {o : Option Delivery} (ho : s.read t = some o) :
    s.client.calls t ≠ .new ∧ s.client.calls t ≠ .load := by
  have hreads := h.calls t
  rw [ho] at hreads
  obtain ⟨toggleSet, -, hprogress⟩ := hreads
  constructor
  · intro hp
    rw [hp] at hprogress
    exact hprogress
  · intro hp
    rw [hp] at hprogress
    exact hprogress

/-- **Step lemma.** -/
theorem since_step {J : JsonLib} {P : StorageProvider σ} {config : ClientConfig}
    {query : Nat → Query} {shown : ToggleSet} {u s s' : State σ} {a : Act}
    (hinv : Inv J config query shown s) (h : Since u s)
    (hstep : step J P config query s a = some s') : Since u s' := by
  cases step_change hstep with
  | client a c ha hc =>
    refine ⟨?_, fun t o ho => ?_, fun t o hnone ho => ?_⟩
    · show NoOlder u.stored (storedAfter s a)
      rcases storedAfter_cases s a with hsame | harrived
      · rw [hsame]
        exact h.stored
      · rw [harrived]
        exact h.stored.trans hinv.order
    · have hread := h.kept t o ho
      show readAfter s a t = some o
      rw [readAfter_of_ne fun _ => (hinv.loaded hread).2]
      exact hread
    · rcases readAfter_cases ho with hread | rfl
      · exact h.fresh t o hnone hread
      · exact h.stored
  | send | notSent | change | serve | deliver => exact ⟨h.stored, h.kept, h.fresh⟩

/-- **Run lemma.** -/
theorem since_run {J : JsonLib} {P : StorageProvider σ} {config : ClientConfig}
    {query : Nat → Query} {shown : ToggleSet} {u s : State σ} {as : List Act}
    (hinv : Inv J config query shown u) (hrun : Machine.run (step J P config query) u as = some s) :
    Since u s := by
  refine (Machine.run_inv (I := fun s => Inv J config query shown s ∧ Since u s) ?_
    ⟨hinv, Since.refl u⟩ hrun).2
  rintro s a s' ⟨hs, hsince⟩ hstep
  exact ⟨inv_step hs hstep, since_step hs hsince hstep⟩

/-! ## What holds of every run -/

/-- `answers`: a call that has returned was turned away before the client was ready, or did what
    follows from the flags that it has read; `had`: those are flags that the server had, unless
    they are those of the constructor. -/
structure Consistent (J : JsonLib) (config : ClientConfig) (query : Nat → Query)
    (shown : ToggleSet) (s : State σ) : Prop where
  answers : ∀ t answer, s.client.calls t = .returned answer →
    (s.read t = none ∧ answer = (query t).kind.refusal ∧ metricsOf s.client t = [] ∧
      impressionsOf s.client t = []) ∨
    ∃ o toggleSet ctx, s.read t = some o ∧ Origin J shown toggleSet o ∧
      (answer, metricsOf s.client t, impressionsOf s.client t) =
        sequential config (query t) toggleSet ctx
  had : ∀ t d, s.read t = some (some d) → s.Had d

/-- **Reads are monotone.**  In every run of the client with all its calls and of the server, each
    answer follows from flags that the server had, and a call that begins after a point of the run
    reads flags no older than those in the store at that point, and no older than those that any
    call had read by then. -/
theorem reads_monotone (J : JsonLib) (P : StorageProvider σ) (config : ClientConfig)
    (query : Nat → Query) (client : UnleashClient σ) (ctx : Context)
    (flags : HttpRequest → Bytes) (as : List Act) (s : State σ)
    (hrun : Machine.run (step J P config query) (initial client ctx flags) as = some s) :
    Consistent J config query client.flagStore.snapshot s ∧
    ∀ as₁ as₂ s₁, as = as₁ ++ as₂ →
      Machine.run (step J P config query) (initial client ctx flags) as₁ = some s₁ →
      ∀ t o, s₁.client.calls t = .new → s.read t = some o → NoOlder s₁.stored o ∧
        ∀ t₁ o₁, s₁.read t₁ = some o₁ → s.read t₁ = some o₁ ∧ NoOlder o₁ o := by
  have hinv : ∀ {bs u}, Machine.run (step J P config query) (initial client ctx flags) bs =
      some u → Inv J config query client.flagStore.snapshot u :=
    Machine.run_inv (fun _ _ _ hu hv => inv_step hu hv)
      (inv_initial J config query client ctx flags)
  constructor
  · refine ⟨fun t answer ht => ?_, (hinv hrun).hadRead⟩
    have hreads := (hinv hrun).calls t
    rw [ht] at hreads
    cases hread : s.read t with
    | none =>
      rw [hread] at hreads
      obtain ⟨hp, hm, hi⟩ := hreads
      rcases hp with hp | hp | hp
      · cases hp
      · cases hp
      · cases hp
        exact Or.inl ⟨rfl, rfl, hm, hi⟩
    | some o =>
      rw [hread] at hreads
      obtain ⟨toggleSet, horigin, copied, heq⟩ := hreads
      exact Or.inr ⟨o, toggleSet, copied, rfl, horigin, heq⟩
  · rintro as₁ as₂ s₁ rfl hs₁ t o hnew ho
    obtain ⟨u, hu, hrest⟩ := Machine.run_append.mp hrun
    obtain rfl : s₁ = u := Option.some.inj (hs₁.symm.trans hu)
    have hs₁inv := hinv hs₁
    have hsince := since_run hs₁inv hrest
    have hnone : s₁.read t = none := by
      cases hread : s₁.read t with
      | none => rfl
      | some o' => exact absurd hnew (hs₁inv.loaded hread).1
    have hfresh := hsince.fresh t o hnone ho
    exact ⟨hfresh, fun t₁ o₁ h₁ =>
      ⟨hsince.kept t₁ o₁ h₁, (hs₁inv.readBefore t₁ o₁ h₁).trans hfresh⟩⟩

/-! ## Two calls -/

/-- A client that is started, fetches once, and is called. -/
def firstCall : List Act :=
  [.client .start, .client .control, .client .control, .client .control, .client .poll,
    .client .poll, .send, .serve (UnleashClient.okReply oneToggleText (bytes "e1")), .deliver] ++
  List.replicate 5 (.client .poll) ++ List.replicate 6 (.client (.call 0))

/-- The flags change, and the client is called again. -/
def secondCall : List Act :=
  .change (fun _ => UnleashClient.noTogglesText) :: List.replicate 6 (.client (.call 1))

set_option maxRecDepth 8000 in
theorem reads_monotone_twoCalls :
    ∃ s, Machine.run (step JsonText.compact localStorageProvider
          (ClientConfig.make (bytes "u") (bytes "k") (bytes "app") [])
          fun _ => ⟨.isEnabled, bytes "a"⟩)
        (initial UnleashClient.freshClient UnleashClient.plainContext fun _ => oneToggleText)
        (firstCall ++ secondCall) = some s ∧
      s.client.calls 1 = .returned (.enabled true) ∧
      ∃ o₀ o₁, s.read 0 = some o₀ ∧ s.read 1 = some o₁ ∧ NoOlder o₀ o₁ := by
  obtain ⟨-, hmonotone⟩ := reads_monotone JsonText.compact localStorageProvider
    (ClientConfig.make (bytes "u") (bytes "k") (bytes "app") [])
    (fun _ => ⟨.isEnabled, bytes "a"⟩) UnleashClient.freshClient UnleashClient.plainContext
    (fun _ => oneToggleText) (firstCall ++ secondCall) _ rfl
  obtain ⟨-, hreads⟩ := hmonotone firstCall secondCall _ rfl rfl 1 _ rfl rfl
  obtain ⟨hkept, hno⟩ := hreads 0 _ rfl
  exact ⟨_, rfl, rfl, _, _, hkept, rfl, hno⟩

end MonotoneReads

end Unleash
