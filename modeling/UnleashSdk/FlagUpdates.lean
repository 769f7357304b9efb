/-
  FLAG UPDATES: how the replies of the server reach the flag store.

  `UnleashClient` is the part of a client's state that a fetch reads and writes.  A fetch
  (`singleFetchToggles`) goes through three layers, each with its own tests: the fetcher sorts
  replies by status and body, it sets the optional `toggles` only for a set that is not empty,
  and the client then sorts by status again.  `Fetched` says what comes out, in three cases:

  * the reply was rejected      — flags, storage and ETag stay;
  * it was accepted, but empty  — flags and storage stay, the ETag is cached;
  * it was accepted, with flags — they are saved and replace the snapshot, the ETag is cached.
-/
import UnleashSdk.Events
import UnleashSdk.Fetcher
import UnleashSdk.Lib.JsonText
import UnleashSdk.Lib.Machine
import UnleashSdk.Storage

set_option linter.unusedVariables false

namespace Unleash

/-! ## The client's state -/

/-- The flag store: the current snapshot, and whether it was ever replaced. -/
structure FlagStore where
  snapshot : ToggleSet := ToggleSet.empty
  ready : Bool := false

def FlagStore.replace (s : FlagStore) (newSnapshot : ToggleSet) : FlagStore :=
  { snapshot := newSnapshot, ready := true }

inductive SdkState where
  | started
  | healthy
  | error
  | stopped
  deriving DecidableEq

structure UnleashClient (σ : Type) where
  toggleFetcher : ToggleFetcher
  flagStore : FlagStore := {}
  ready : Bool := false
  sdkState : SdkState := .stopped
  storage : σ

namespace UnleashClient

variable {σ : Type}

/-! ## Construction -/

/-- Fill the flag store when a client is constructed; `none` if the storage provider throws. -/
def initializeToggleCache (P : StorageProvider σ) (config : ClientConfig)
    (c : UnleashClient σ) : Option (UnleashClient σ) :=
  let c := match config.overridingBootstrap with
    | none => c
    | some bootstrapToggles => { c with flagStore := c.flagStore.replace bootstrapToggles }
  let persistBootstrap := match config.overridingBootstrap with
    | none => some c
    | some bootstrapToggles =>
      match P.save c.storage bootstrapToggles with
      | .error _ => none
      | .ok storage => some { c with storage := storage }
  match P.get c.storage with
  | none => persistBootstrap
  | some cachedToggles =>
    if cachedToggles.size > 0 then
      some { c with flagStore := c.flagStore.replace cachedToggles }
    else persistBootstrap

/-- The constructor. -/
def make (P : StorageProvider σ) (config : ClientConfig) (storage : σ) :
    Option (UnleashClient σ) :=
  initializeToggleCache P config { toggleFetcher := ToggleFetcher.make config, storage := storage }

/-- The flags that a constructor finds in storage, if there are any. -/
def cachedToggles {σ : Type} (P : StorageProvider σ) (storage : σ) : Option ToggleSet :=
  (P.get storage).filter fun s => s.size ≠ 0

/-- Construction in one equation: the cached flags win, then the bootstrap, which is saved. -/
theorem make_eq {σ : Type} (P : StorageProvider σ) (config : ClientConfig) (storage : σ) :
    make P config storage =
      match cachedToggles P storage, config.overridingBootstrap with
      | some s, _ => some { toggleFetcher := ToggleFetcher.make config
                            flagStore := { snapshot := s, ready := true }, storage := storage }
      | none, none => some { toggleFetcher := ToggleFetcher.make config, storage := storage }
      | none, some b =>
        match P.save storage b with
        | .error _ => none
        | .ok storage => some
          { toggleFetcher := ToggleFetcher.make config, storage := storage
            flagStore := { snapshot := b, ready := true } } := by
  unfold make initializeToggleCache cachedToggles
  cases hget : P.get storage with
  | none =>
    cases config.overridingBootstrap with
    | none => simp only [hget, Option.filter_none]
    | some b => simp only [hget, Option.filter_none]; rfl
  | some s =>
    by_cases hsize : s.size = 0
    · have hpos : ¬ s.size > 0 := by omega
      cases config.overridingBootstrap with
      | none => simp [hget, hsize, Option.filter_some]
      | some b => simp [hget, hsize, Option.filter_some]; rfl
    · have hpos : s.size > 0 := Nat.pos_of_ne_zero hsize
      cases config.overridingBootstrap with
      | none => simp [hget, hsize, hpos, Option.filter_some, FlagStore.replace]
      | some b => simp [hget, hsize, hpos, Option.filter_some, FlagStore.replace]

/-- A constructed client has the fetcher of its configuration. -/
theorem make_toggleFetcher {P : StorageProvider σ} {config : ClientConfig} {storage : σ}
    {c : UnleashClient σ} (h : make P config storage = some c) :
    c.toggleFetcher = ToggleFetcher.make config := by
  rw [make_eq] at h
  split at h
  · cases h; rfl
  · cases h; rfl
  · split at h <;> cases h
    rfl

/-! ## One fetch -/

/-- The text of a fetch error event. -/
def fetchFailed (details : Bytes) : ClientEvent :=
  .error { message := bytes "Toggle fetch failed", details := details }

/-- One fetch: the client afterwards and the events it emits.  `none` is an exception: the
    printer's, the storage provider's, or that of an empty `error.value()`. -/
def singleFetchToggles (J : JsonLib) (P : StorageProvider σ) (c : UnleashClient σ)
    (ctx : Context) (resp : HttpReply) : Option (UnleashClient σ × List ClientEvent) :=
  match c.toggleFetcher.fetch J ctx resp with
  | none => none
  | some (fetchResult, fetcher) =>
    let c := { c with toggleFetcher := fetcher }
    match fetchResult.error with
    | some error =>
      let sdkState := if c.sdkState = .started ∨ c.sdkState = .healthy then .error else c.sdkState
      some ({ c with sdkState := sdkState }, [fetchFailed error])
    | none =>
      if fetchResult.status = 304 then some (c, [])
      else if 200 ≤ fetchResult.status ∧ fetchResult.status < 300 then
        match fetchResult.toggles with
        | none => some (c, [])
        | some toggles =>
          match P.save c.storage toggles with
          | .error _ => none
          | .ok storage =>
            some ({ c with
                storage := storage
                flagStore := c.flagStore.replace toggles
                ready := true },
              (if c.ready then [] else [.ready]) ++ [.update])
      else
        match fetchResult.error with
        | none => none
        | some error => some (c, [fetchFailed error])

/-- Everything a fetch can do, `f` being the fetcher that sent the request. -/
inductive Fetched (J : JsonLib) (P : StorageProvider σ) (c : UnleashClient σ) (f : ToggleFetcher)
    (resp : HttpReply) : UnleashClient σ → List ClientEvent → Prop where
  | rejected (sdkState : SdkState) (events : List ClientEvent) (h : accepted J resp = none)
    (hevents : ∀ e ∈ events, e.kind = .error) :
    Fetched J P c f resp { c with toggleFetcher := f, sdkState := sdkState } events
  | empty (r : HttpResponse) (s : ToggleSet) (h : accepted J resp = some (r, s))
    (hsize : s.size = 0) :
    Fetched J P c f resp { c with toggleFetcher := f.cacheIfAny r.etag } []
  | updated (r : HttpResponse) (s : ToggleSet) (storage : σ)
    (h : accepted J resp = some (r, s)) (hsize : s.size ≠ 0)
    (hsave : P.save c.storage s = .ok storage) :
    Fetched J P c f resp
      { c with
        toggleFetcher := f.cacheIfAny r.etag
        storage := storage
        flagStore := c.flagStore.replace s
        ready := true }
      ((if c.ready then [] else [.ready]) ++ [.update])

/-- What a fetch does once its request has been prepared: one of the three cases, or the storage
    provider throws on a set that it should save. -/
theorem singleFetchToggles_cases {J : JsonLib} (P : StorageProvider σ) {c : UnleashClient σ}
    {ctx : Context} (resp : HttpReply) {f : ToggleFetcher}
    (hf : c.toggleFetcher.prepare J ctx = some f) :
    (∃ c' events, singleFetchToggles J P c ctx resp = some (c', events) ∧
      Fetched J P c f resp c' events) ∨
    (singleFetchToggles J P c ctx resp = none ∧ ∃ r s storage, accepted J resp = some (r, s) ∧
      s.size ≠ 0 ∧ P.save c.storage s = .error storage) := by
  unfold singleFetchToggles ToggleFetcher.fetch
  simp only [hf]
  cases hacc : accepted J resp with
  | none =>
    obtain ⟨hfetcher, htoggles, hresult⟩ := f.handle_rejected hacc
    refine Or.inl ?_
    cases herr : (f.handle J resp).1.error with
    | some error =>
      refine ⟨_, _, rfl, ?_⟩
      rw [hfetcher]
      refine .rejected _ _ hacc fun e he => ?_
      rw [List.mem_singleton.mp he]
      rfl
    | none =>
      have hstatus := hresult.resolve_left fun h => h herr
      simp only [hstatus, if_true]
      refine ⟨_, _, rfl, ?_⟩
      rw [hfetcher]
      exact .rejected c.sdkState [] hacc nofun
  | some p =>
    obtain ⟨r, s⟩ := p
    obtain ⟨-, hok, -⟩ := accepted_some hacc
    obtain ⟨-, -, hno, hrange⟩ := isOkStatus_narrow hok
    simp only [f.handle_accepted hacc, if_neg hno, if_pos hrange]
    by_cases hsize : s.size = 0
    · refine Or.inl ⟨_, _, by simp [hsize], .empty r s hacc hsize⟩
    · simp only [if_pos hsize]
      cases hsave : P.save c.storage s with
      | error storage => exact Or.inr ⟨rfl, r, s, storage, rfl, hsize, hsave⟩
      | ok storage => exact Or.inl ⟨_, _, rfl, .updated r s storage hacc hsize hsave⟩

/-- A fetch that returns is one of the three cases. -/
theorem singleFetchToggles_fetched {J : JsonLib} {P : StorageProvider σ} {c c' : UnleashClient σ}
    {ctx : Context} {resp : HttpReply} {events : List ClientEvent}
    (h : singleFetchToggles J P c ctx resp = some (c', events)) :
    ∃ f, c.toggleFetcher.prepare J ctx = some f ∧ Fetched J P c f resp c' events := by
  cases hf : c.toggleFetcher.prepare J ctx with
  | none => simp [singleFetchToggles, ToggleFetcher.fetch, hf] at h
  | some f =>
    refine ⟨f, rfl, ?_⟩
    rcases singleFetchToggles_cases P resp hf with ⟨c₁, ev, heq, hfetched⟩ | ⟨heq, -⟩
    · rw [heq] at h
      cases h
      exact hfetched
    · rw [heq] at h
      nomatch h

/-- **When a fetch throws**: it posts a context that is not UTF-8, or the storage provider
    throws. -/
theorem singleFetchToggles_none {J : JsonLib} {P : StorageProvider σ} {c : UnleashClient σ}
    {ctx : Context} {resp : HttpReply} (h : singleFetchToggles J P c ctx resp = none) :
    (c.toggleFetcher.httpRequest.usePOSTrequests = true ∧ ctx.utf8 = false) ∨
    ∃ s storage, P.save c.storage s = .error storage := by
  cases hf : c.toggleFetcher.prepare J ctx with
  | none =>
    have hiff := c.toggleFetcher.prepare_isSome J ctx
    rw [hf] at hiff
    simp only [Option.isSome_none] at hiff
    obtain ⟨hpost, hutf8⟩ := Bool.or_eq_false_iff.mp hiff.symm
    exact Or.inl ⟨by simpa using hpost, hutf8⟩
  | some f =>
    rcases singleFetchToggles_cases P resp hf with
      ⟨c₁, ev, heq, -⟩ | ⟨-, r, s, storage, -, -, hsave⟩
    · rw [heq] at h
      nomatch h
    · exact Or.inr ⟨s, storage, hsave⟩

/-! ## Sequences of fetches -/

/-- A fetch as a step: the context it is made with, and the reply to it. -/
def fetchStep (J : JsonLib) (P : StorageProvider σ) (c : UnleashClient σ)
    (a : Context × HttpReply) : Option (UnleashClient σ) :=
  (singleFetchToggles J P c a.1 a.2).map Prod.fst

theorem fetchStep_fetched {J : JsonLib} {P : StorageProvider σ} {c c' : UnleashClient σ}
    {a : Context × HttpReply} (h : fetchStep J P c a = some c') :
    ∃ f events, c.toggleFetcher.prepare J a.1 = some f ∧ Fetched J P c f a.2 c' events := by
  obtain ⟨⟨c₁, events⟩, heq, rfl⟩ := Option.map_eq_some_iff.mp h
  obtain ⟨f, hf, hfetched⟩ := singleFetchToggles_fetched heq
  exact ⟨f, events, hf, hfetched⟩

/-- A reply whose toggles go into the store: accepted, and not empty. -/
def stored (J : JsonLib) (resp : HttpReply) : Option (HttpResponse × ToggleSet) :=
  (accepted J resp).filter fun p => p.2.size ≠ 0

/-- The most recent reply whose toggles went into the store. -/
def lastStored (J : JsonLib) (as : List (Context × HttpReply)) :
    Option (HttpResponse × ToggleSet) :=
  as.foldl (fun last a => (stored J a.2).or last) none

/-- The most recent reply that was accepted. -/
def lastAccepted (J : JsonLib) (as : List (Context × HttpReply)) :
    Option (HttpResponse × ToggleSet) :=
  as.foldl (fun last a => (accepted J a.2).or last) none

/-- The snapshot that a reply brings, or the one that was there at first. -/
def snapshotOf (initial : ToggleSet) (last : Option (HttpResponse × ToggleSet)) : ToggleSet :=
  match last with
  | none => initial
  | some (_, s) => s

theorem lastStored_snoc (J : JsonLib) (as : List (Context × HttpReply))
    (a : Context × HttpReply) :
    lastStored J (as ++ [a]) = (stored J a.2).or (lastStored J as) := by
  rw [lastStored, List.foldl_append]
  rfl

theorem stored_rejected {J : JsonLib} {resp : HttpReply} (h : accepted J resp = none) :
    stored J resp = none := by
  rw [stored, h]
  rfl

theorem stored_empty {J : JsonLib} {resp : HttpReply} {r : HttpResponse} {s : ToggleSet}
    (h : accepted J resp = some (r, s)) (hsize : s.size = 0) : stored J resp = none := by
  rw [stored, h, Option.filter_some, if_neg (by simpa using hsize)]

theorem stored_updated {J : JsonLib} {resp : HttpReply} {r : HttpResponse} {s : ToggleSet}
    (h : accepted J resp = some (r, s)) (hsize : s.size ≠ 0) :
    stored J resp = some (r, s) := by
  rw [stored, h, Option.filter_some, if_pos (by simpa using hsize)]

/-- A reply that went into the store is one of those that came. -/
theorem lastStored_mem {J : JsonLib} {as : List (Context × HttpReply)} {r : HttpResponse}
    {s : ToggleSet} (h : lastStored J as = some (r, s)) :
    ∃ a ∈ as, accepted J a.2 = some (r, s) := by
  induction as using List.reverseRecOn with
  | nil => nomatch h
  | append_singleton as a ih =>
    rw [lastStored_snoc] at h
    cases hs : stored J a.2 with
    | none =>
      rw [hs, Option.none_or] at h
      obtain ⟨b, hb, hacc⟩ := ih h
      exact ⟨b, List.mem_append_left _ hb, hacc⟩
    | some p =>
      rw [hs, Option.some_or] at h
      cases h
      exact ⟨a, by simp, (Option.filter_eq_some_iff.mp hs).1⟩

/-- **Run lemma.**  The snapshot is what the last reply with a flag in it decoded to. -/
theorem snapshot_run {J : JsonLib} {P : StorageProvider σ} {c₀ c : UnleashClient σ}
    {as : List (Context × HttpReply)} (hrun : Machine.run (fetchStep J P) c₀ as = some c) :
    c.flagStore.snapshot = snapshotOf c₀.flagStore.snapshot (lastStored J as) := by
  refine Machine.run_history (I := fun c as => c.flagStore.snapshot =
    snapshotOf c₀.flagStore.snapshot (lastStored J as)) rfl ?_ hrun
  intro as c a c' _ ih hstep
  obtain ⟨f, events, -, hfetched⟩ := fetchStep_fetched hstep
  rw [lastStored_snoc]
  cases hfetched with
  | rejected _ _ h _ => rw [stored_rejected h, Option.none_or]; exact ih
  | empty r s h hsize => rw [stored_empty h hsize, Option.none_or]; exact ih
  | updated r s storage h hsize _ => rw [stored_updated h hsize]; rfl

/-- **The flag store tracks the server, except for empty sets.**  After any sequence of replies
    the snapshot is what the most recent accepted reply with a flag in it decoded to, or the one
    that was there at first; and the next fetch returns, unless the printer refuses its context
    or the storage provider throws. -/
theorem snapshot_tracks_server (J : JsonLib) (P : StorageProvider σ) (c₀ c : UnleashClient σ)
    (as : List (Context × HttpReply)) (hrun : Machine.run (fetchStep J P) c₀ as = some c) :
    c.flagStore.snapshot = snapshotOf c₀.flagStore.snapshot (lastStored J as) ∧
    ∀ ctx resp, fetchStep J P c (ctx, resp) = none →
      (c.toggleFetcher.httpRequest.usePOSTrequests = true ∧ ctx.utf8 = false) ∨
      ∃ s storage, P.save c.storage s = .error storage := by
  refine ⟨snapshot_run hrun, ?_⟩
  intro ctx resp h
  exact singleFetchToggles_none (Option.map_eq_none_iff.mp h)

/-! ## A server that removes its last flag -/

/-- A context, and a reply with the given body. -/
def plainContext : Context := Context.make (bytes "app") [] (bytes "1") 1

def okReply (body : Bytes) (etag : Bytes) : HttpReply :=
  .http { status := 200, body := body
          headers := (∅ : KeyMap Bytes Bytes).insert (bytes "etag") etag }

def noTogglesText : Bytes := bytes "\x7b\"toggles\":[]\x7d"

/-- A client that has just been constructed, without a bootstrap. -/
def freshClient : UnleashClient Unit :=
  { toggleFetcher := ToggleFetcher.make (ClientConfig.make (bytes "u") (bytes "k") (bytes "app") [])
    storage := () }

/-- Two replies: one flag, then none. -/
def oneThenNone : List (Context × HttpReply) :=
  [(plainContext, okReply oneToggleText (bytes "e1")),
    (plainContext, okReply noTogglesText (bytes "e2"))]

set_option maxRecDepth 8000 in
theorem snapshot_tracks_server_oneThenNone :
    ∃ c, Machine.run (fetchStep JsonText.compact localStorageProvider) freshClient oneThenNone =
        some c ∧
      c.flagStore.snapshot =
        snapshotOf freshClient.flagStore.snapshot (lastStored JsonText.compact oneThenNone) :=
  ⟨_, rfl, (snapshot_tracks_server JsonText.compact localStorageProvider freshClient _
    oneThenNone rfl).1⟩

set_option maxRecDepth 8000 in
/-- The second reply decodes, to a set without flags, and the snapshot keeps the flag. -/
theorem snapshot_keeps_removed_flag :
    ∃ c, Machine.run (fetchStep JsonText.compact localStorageProvider) freshClient oneThenNone =
        some c ∧
      c.flagStore.snapshot ≠
        snapshotOf freshClient.flagStore.snapshot (lastAccepted JsonText.compact oneThenNone) := by
  refine ⟨_, rfl, fun h => ?_⟩
  have hfind := congrArg (fun s => (s.find (bytes "a")).isSome) h
  exact absurd hfind (by decide)

end UnleashClient

end Unleash
