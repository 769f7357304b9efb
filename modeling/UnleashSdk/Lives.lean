/-
  THE LIVES OF A CLIENT over one backup file.

  A process constructs a client and runs it, all its threads interleaved as in `ClientMachine`,
  until it is killed, at any moment; then the next one is constructed over what is in the file:

      stopped file ──construct──▶ running s ──kill, killSaving──▶ stopped file' ──▶ …
                                   │     ▲
                                   └─────┘ a step of the client

  A save may come as far as any `Stop`.  `saved` are the sets that were passed to a save, and
  `base` is the file from which they count; a process that is killed while it writes leaves a text
  that is cut short, and the count starts again there.

  * `snapshot_provenance` — whatever stops a save, a life offers the flags of ONE set: one that
    was saved, or that of the base file, and never a part of one or a mixture of two;
  * `crash_transparent` — if no save stops halfway but by a kill, the flags that a client offers
    are written ahead: the next life offers what this one does, or what it was about to.
-/
import UnleashSdk.BackupFile
import UnleashSdk.Lib.Simulation
import UnleashSdk.Lib.WriteAhead
import UnleashSdk.Readiness
import UnleashSdk.Restart

set_option linter.unusedVariables false

namespace Unleash

namespace Lives

open ClientMachine (PollPc)
open FileStorageProvider (Stop saveUntil)
open UnleashClient (make cachedToggles)

/-! ## The machine -/

/-- The file provider, a `save` of which comes as far as `stop`. -/
def provider (J : JsonLib) (stop : Stop) : StorageProvider (Option Bytes) where
  get := FileStorageProvider.get J
  save file t := saveUntil J file t stop

inductive Host where
  | stopped (file : Option Bytes)
  | running (s : ClientMachine.State (Option Bytes))

/-- The process, if there is one, and the file; `base` and `saved` are the records. -/
structure State where
  host : Host
  base : Option Bytes
  saved : List ToggleSet := []

inductive Act where
  | construct (stop : Stop) (ctx : Context)
  | act (stop : Stop) (a : ClientMachine.Act)
  | kill
  | killSaving (written : Nat)
  | killConstructing (written : Nat)

def Host.file : Host → Option Bytes
  | .stopped file => file
  | .running s => s.client.storage

/-- The bootstrap, if a construction saves it. -/
def bootstrapSaved (J : JsonLib) (config : ClientConfig) (file : Option Bytes) :
    Option ToggleSet :=
  match cachedToggles (fileStorageProvider J) file with
  | some _ => none
  | none => config.overridingBootstrap

/-- The set that the polling thread saves at a step. -/
def persisted (s : ClientMachine.State (Option Bytes)) : ClientMachine.Act → Option ToggleSet
  | .poll =>
    match s.polling with
    | .persist toggles => some toggles
    | _ => none
  | _ => none

/-- The process ends before the last byte of the text of `toggles` is in the file. -/
def tear (J : JsonLib) (toggles : ToggleSet) (written : Nat) : Option State :=
  match encodeClientFeaturesResponse J toggles with
  | none => none
  | some text =>
    if written < text.length then
      some { host := .stopped (some (text.take written)), base := some (text.take written) }
    else none

def step (J : JsonLib) (config : ClientConfig) (query : Nat → ClientMachine.Query) (s : State) :
    Act → Option State
  | .construct stop ctx =>
    match s.host with
    | .stopped file =>
      match make (provider J stop) config file with
      -- the printer threw on the bootstrap, and the file had been truncated
      | none => some { s with host := .stopped (some []) }
      | some client =>
        some { s with
          host := .running (ClientMachine.initial client ctx)
          saved := s.saved ++ (bootstrapSaved J config file).toList }
    | .running _ => none
  | .act stop a =>
    match s.host with
    | .stopped _ => none
    | .running c =>
      match ClientMachine.step J (provider J stop) config query c a with
      | none => none
      | some c' => some { s with host := .running c', saved := s.saved ++ (persisted c a).toList }
  | .kill =>
    match s.host with
    | .stopped _ => none
    | .running c => some { s with host := .stopped c.client.storage }
  | .killSaving written =>
    match s.host with
    | .stopped _ => none
    | .running c =>
      match persisted c .poll with
      | none => none
      | some toggles => tear J toggles written
  | .killConstructing written =>
    match s.host with
    | .stopped file =>
      match bootstrapSaved J config file with
      | none => none
      | some b => tear J b written
    | .running _ => none

/-- No process yet, and this file. -/
def initial (file : Option Bytes) : State := { host := .stopped file, base := file }

/-! ## Sets that come from the decoder -/

/-- A set as the polling thread saves and publishes it. -/
structure Decoded (t : ToggleSet) : Prop where
  canonical : t.Canonical
  utf8 : t.utf8 = true
  size : t.size ≠ 0

/-- The toggles that a fetch yields are decoded. -/
theorem fetch_decoded {J : JsonLib} {f f' : ToggleFetcher} {ctx : Context} {resp : HttpReply}
    {result : FetchResult} {toggles : ToggleSet}
    (h : f.fetch J ctx resp = some (result, f')) (htoggles : result.toggles = some toggles) :
    Decoded toggles := by
  obtain ⟨r, hacc, hsize⟩ := ToggleFetcher.fetch_accepted h htoggles
  obtain ⟨-, -, hdecode⟩ := accepted_some hacc
  obtain ⟨hcanonical, hutf8⟩ := decode_ok J hdecode
  exact ⟨hcanonical, hutf8, hsize⟩

/-- The polling thread has this set in its hands. -/
def Carries (p : PollPc) (toggles : ToggleSet) : Prop :=
  match p with
  | .handle result => result.toggles = some toggles
  | .persist t | .storeSnapshot t => t = toggles
  | _ => False

/-- The set that is saved and not published. -/
def pendingOf : PollPc → Option ToggleSet
  | .storeSnapshot toggles => some toggles
  | _ => none

/-- What a step of a client does to the file and the flags. -/
inductive Effect (P : StorageProvider (Option Bytes)) (c : ClientMachine.State (Option Bytes))
    (a : ClientMachine.Act) (c' : ClientMachine.State (Option Bytes)) : Prop where
  | silent (hsaved : persisted c a = none) (hstorage : c'.client.storage = c.client.storage)
    (hsnapshot : c'.client.flagStore.snapshot = c.client.flagStore.snapshot)
    (hpending : pendingOf c'.polling = pendingOf c.polling)
  | saves (toggles : ToggleSet) (storage : Option Bytes) (hsaved : persisted c a = some toggles)
    (hp : c.polling = .persist toggles) (hsave : P.save c.client.storage toggles = .ok storage)
    (hstorage : c'.client.storage = storage)
    (hsnapshot : c'.client.flagStore.snapshot = c.client.flagStore.snapshot)
    (hp' : c'.polling = .storeSnapshot toggles)
  | publishes (toggles : ToggleSet) (ha : a = .poll) (hsaved : persisted c a = none)
    (hp : c.polling = .storeSnapshot toggles) (hstorage : c'.client.storage = c.client.storage)
    (hsnapshot : c'.client.flagStore.snapshot = toggles) (hp' : c'.polling = .storeReady)
  | throws (toggles : ToggleSet) (storage : Option Bytes) (hp : c.polling = .persist toggles)
    (hsave : P.save c.client.storage toggles = .error storage)

/-- The steps of the other threads, and those of the polling thread outside of a publication. -/
theorem effect_silent {P : StorageProvider (Option Bytes)}
    {c c' : ClientMachine.State (Option Bytes)} {a : ClientMachine.Act}
    (hp : a = .poll → ∀ toggles, c.polling ≠ .persist toggles)
    (hclient : c'.client.storage = c.client.storage ∧
      c'.client.flagStore.snapshot = c.client.flagStore.snapshot)
    (hpending : pendingOf c'.polling = pendingOf c.polling) : Effect P c a c' := by
  refine .silent ?_ hclient.1 hclient.2 hpending
  cases a with
  | poll =>
    unfold persisted
    cases hpc : c.polling with
    | persist toggles => exact absurd hpc (hp rfl toggles)
    | _ => rfl
  | _ => rfl

theorem pollStep_effect {P : StorageProvider (Option Bytes)} {config : ClientConfig}
    {c c' : ClientMachine.State (Option Bytes)}
    (h : ClientMachine.pollStep P config c c.polling = some c') : Effect P c .poll c' := by
  by_cases hpersist : ∃ toggles, c.polling = .persist toggles
  · obtain ⟨toggles, hp⟩ := hpersist
    rw [hp, ClientMachine.pollStep] at h
    split at h <;> cases h
    · rename_i storage hsave
      exact .throws toggles storage hp hsave
    · rename_i storage hsave
      exact .saves toggles storage (by simp only [persisted, hp]) hp hsave rfl rfl rfl
  · have hp : ∀ toggles, c.polling ≠ .persist toggles := fun toggles hp =>
      hpersist ⟨toggles, hp⟩
    have hsilent : (c'.client.storage = c.client.storage ∧
          c'.client.flagStore.snapshot = c.client.flagStore.snapshot) →
        pendingOf c'.polling = pendingOf c.polling → Effect P c .poll c' :=
      effect_silent fun _ => hp
    have hchange := ClientMachine.pollStep_change h
    generalize hpc : c.polling = p at hchange hsilent hp
    cases hchange with
    | handle result =>
      have hsame : (ClientMachine.handleResult c result).client.storage = c.client.storage ∧
          (ClientMachine.handleResult c result).client.flagStore.snapshot =
            c.client.flagStore.snapshot ∧
          pendingOf (ClientMachine.handleResult c result).polling = none := by
        refine ClientMachine.handleResult_cases c result ?_ ?_ ?_ ?_ <;> intros <;>
          exact ⟨rfl, rfl, rfl⟩
      exact hsilent ⟨hsame.1, hsame.2.1⟩ hsame.2.2
    | notSaved toggles | saved toggles storage => exact absurd rfl (hp toggles)
    | storeSnapshot toggles =>
      exact .publishes toggles rfl (by simp only [persisted, hpc]) hpc rfl rfl rfl
    | testEnabled | testExit | testExitAgain ctx =>
      refine hsilent ⟨rfl, rfl⟩ ?_
      show pendingOf (if _ then _ else _) = none
      split <;> rfl
    | _ => exact hsilent ⟨rfl, rfl⟩ rfl

theorem controlStep_effect {P : StorageProvider (Option Bytes)}
    {c c' : ClientMachine.State (Option Bytes)}
    (h : ClientMachine.controlStep c c.control = some c') : Effect P c .control c' := by
  have hchange := ClientMachine.controlStep_change h
  have hno : ClientMachine.Act.control = .poll → ∀ toggles, c.polling ≠ .persist toggles := nofun
  generalize c.control = p at hchange
  cases hchange with
  | spawn habsent => exact effect_silent hno ⟨rfl, rfl⟩ (by rw [habsent]; rfl)
  | join hended => exact effect_silent hno ⟨rfl, rfl⟩ (by rw [hended]; rfl)
  | _ => exact effect_silent hno ⟨rfl, rfl⟩ rfl

/-- **Everything a step of a client does to the file and the flags.** -/
theorem step_effect {J : JsonLib} {P : StorageProvider (Option Bytes)} {config : ClientConfig}
    {query : Nat → ClientMachine.Query} {c c' : ClientMachine.State (Option Bytes)}
    {a : ClientMachine.Act} (h : ClientMachine.step J P config query c a = some c') :
    Effect P c a c' := by
  cases ClientMachine.step_change h with
  | control c' hstep => exact controlStep_effect hstep
  | poll c' hstep => exact pollStep_effect hstep
  | printerThrew resp ctx hp hfetch =>
    exact effect_silent nofun ⟨rfl, rfl⟩ (by rw [hp]; rfl)
  | replied resp ctx result fetcher hp hfetch =>
    exact effect_silent nofun ⟨rfl, rfl⟩ (by rw [hp]; rfl)
  | call t c' hcall =>
    have hframe := ClientMachine.callChange_frame hcall
    exact effect_silent nofun ⟨by rw [hframe.client], by rw [hframe.client]⟩
      (by rw [hframe.polling])
  | _ => exact effect_silent nofun ⟨rfl, rfl⟩ rfl

/-- What the polling thread has in its hands comes from a fetch. -/
theorem carries_step {J : JsonLib} {P : StorageProvider (Option Bytes)} {config : ClientConfig}
    {query : Nat → ClientMachine.Query} {c c' : ClientMachine.State (Option Bytes)}
    {a : ClientMachine.Act} (h : ClientMachine.step J P config query c a = some c')
    {toggles : ToggleSet} (hcarries : Carries c'.polling toggles) :
    Carries c.polling toggles ∨ Decoded toggles := by
  cases ClientMachine.step_change h with
  | printerThrew resp ctx hp hfetch => exact hcarries.elim
  | replied resp ctx result fetcher hp hfetch => exact Or.inr (fetch_decoded hfetch hcarries)
  | call t c' hcall =>
    rw [(ClientMachine.callChange_frame hcall).polling] at hcarries
    exact Or.inl hcarries
  | control c' hstep =>
    have hchange := ClientMachine.controlStep_change hstep
    generalize c.control = p at hchange
    cases hchange with
    | spawn habsent => exact hcarries.elim
    | join hended => exact hcarries.elim
    | _ => exact Or.inl hcarries
  | poll c' hstep =>
    have hchange := ClientMachine.pollStep_change hstep
    generalize c.polling = p at hchange ⊢
    cases hchange with
    | handle result =>
      revert hcarries
      refine ClientMachine.handleResult_cases c result ?_ ?_ ?_ ?_
      · intro sdkState hcarries
        exact hcarries.elim
      · intro hcarries
        exact hcarries.elim
      · intro t ht hcarries
        have heq : t = toggles := hcarries
        exact Or.inl (heq ▸ ht)
      · intro hcarries
        exact hcarries.elim
    | saved t storage => exact Or.inl hcarries
    | testEnabled | testExit | testExitAgain ctx =>
      have hcarries : Carries (if _ then _ else _) toggles := hcarries
      split at hcarries <;> exact hcarries.elim
    | _ => exact hcarries.elim
  | _ => exact Or.inl hcarries

/-! ## What a save leaves in the file -/

/-- A save that returns leaves what was there, nothing that loads, or all of the set. -/
theorem get_saveUntil {J : JsonLib} (hJ : J.Strict) {file file' : Option Bytes} {t : ToggleSet}
    {stop : Stop} (h : saveUntil J file t stop = .ok file') :
    FileStorageProvider.get J file' = FileStorageProvider.get J file ∨
    FileStorageProvider.get J file' = none ∨
    FileStorageProvider.get J file' = some t.roundTrip := by
  cases stop with
  | directory | openFile =>
    cases h
    exact Or.inl rfl
  | write written =>
    simp only [saveUntil] at h
    split at h <;> cases h
    rename_i text htext
    by_cases hlen : text.length ≤ written
    · rw [List.take_of_length_le hlen]
      exact Or.inr (Or.inr (FileStorageProvider.get_text htext))
    · exact Or.inr (Or.inl (FileStorageProvider.get_cut hJ htext (Nat.lt_of_not_le hlen)))
  | finished =>
    simp only [saveUntil, FileStorageProvider.save] at h
    split at h <;> cases h
    rename_i text htext
    exact Or.inr (Or.inr (FileStorageProvider.get_text htext))

/-- A text that is cut short yields nothing. -/
theorem tear_lost {J : JsonLib} (hJ : J.Strict) {t : ToggleSet} {written : Nat} {s : State}
    (h : tear J t written = some s) :
    ∃ file, s = { host := .stopped file, base := file } ∧
      FileStorageProvider.get J file = none := by
  unfold tear at h
  split at h
  · cases h
  · rename_i text htext
    split at h <;> cases h
    rename_i hlt
    exact ⟨_, rfl, FileStorageProvider.get_cut hJ htext hlt⟩

/-! ## Whatever stops a save -/

/-- `file`: what loads is the base or all of one saved set; `snapshot`: so is what is offered, if
    it did not come with a reply, or with the bootstrap, just now. -/
structure Provenance (J : JsonLib) (config : ClientConfig) (s : State) : Prop where
  file : ∀ u, FileStorageProvider.get J s.host.file = some u →
    FileStorageProvider.get J s.base = some u ∨ ∃ t ∈ s.saved, u = t.roundTrip
  saved : ∀ t ∈ s.saved, Decoded t ∨ config.overridingBootstrap = some t
  snapshot : ∀ c, s.host = .running c → c.client.flagStore.snapshot.size = 0 ∨
    FileStorageProvider.get J s.base = some c.client.flagStore.snapshot ∨
    ∃ t ∈ s.saved, c.client.flagStore.snapshot = t ∨ c.client.flagStore.snapshot = t.roundTrip
  carries : ∀ c, s.host = .running c → ∀ toggles, Carries c.polling toggles → Decoded toggles
  pending : ∀ c, s.host = .running c → ∀ toggles, pendingOf c.polling = some toggles →
    toggles ∈ s.saved

theorem provenance_initial (J : JsonLib) (config : ClientConfig) (file : Option Bytes) :
    Provenance J config (initial file) :=
  ⟨fun u hu => Or.inl hu, fun t ht => (by cases ht), fun c hc => (by cases hc),
    fun c hc => (by cases hc), fun c hc => (by cases hc)⟩

/-- A stopped process offers nothing. -/
theorem Provenance.stop {J : JsonLib} {config : ClientConfig} {s : State}
    (h : Provenance J config s) {file : Option Bytes}
    (hfile : ∀ u, FileStorageProvider.get J file = some u →
      FileStorageProvider.get J s.host.file = some u) :
    Provenance J config { s with host := .stopped file } :=
  ⟨fun u hu => h.file u (hfile u hu), h.saved, fun c hc => (by cases hc),
    fun c hc => (by cases hc), fun c hc => (by cases hc)⟩

/-- A torn text is a base without flags. -/
theorem provenance_tear {J : JsonLib} (hJ : J.Strict) (config : ClientConfig) {t : ToggleSet}
    {written : Nat} {s : State} (h : tear J t written = some s) : Provenance J config s := by
  obtain ⟨file, rfl, -⟩ := tear_lost hJ h
  exact provenance_initial J config file

/-- A construction offers what is in the file, or else the bootstrap. -/
theorem provenance_construct {J : JsonLib} (hJ : J.Strict) {config : ClientConfig} {s : State}
    {file : Option Bytes} {stop : Stop} {client : UnleashClient (Option Bytes)} (ctx : Context)
    (h : Provenance J config s) (hhost : s.host = .stopped file)
    (hmake : make (provider J stop) config file = some client) :
    Provenance J config { s with
      host := .running (ClientMachine.initial client ctx)
      saved := s.saved ++ (bootstrapSaved J config file).toList } := by
  have hfile := h.file
  rw [hhost] at hfile
  have hsame : cachedToggles (provider J stop) file = cachedToggles (fileStorageProvider J) file :=
    rfl
  rw [UnleashClient.make_eq, hsame] at hmake
  have hidle : ∀ toggles, ¬ Carries (ClientMachine.initial client ctx).polling toggles :=
    fun toggles hc => hc
  refine ⟨?_, ?_, fun c hc => ?_, fun c hc toggles hcarries => ?_, fun c hc toggles hp => ?_⟩
  · show ∀ u, FileStorageProvider.get J client.storage = some u → _
    intro u hu
    have hold : client.storage = file → FileStorageProvider.get J s.base = some u ∨
        ∃ t ∈ s.saved ++ (bootstrapSaved J config file).toList, u = t.roundTrip := by
      intro heq
      rw [heq] at hu
      rcases hfile u hu with hbase | ⟨t, ht, rfl⟩
      · exact Or.inl hbase
      · exact Or.inr ⟨t, List.mem_append_left _ ht, rfl⟩
    unfold bootstrapSaved at hold ⊢
    split at hmake
    · cases hmake
      exact hold rfl
    · cases hmake
      exact hold rfl
    · rename_i b hcached hb
      split at hmake <;> cases hmake
      rename_i storage hsave
      rcases get_saveUntil hJ hsave with hget | hget | hget
      · rw [hget] at hu
        rcases hfile u hu with hbase | ⟨t, ht, rfl⟩
        · exact Or.inl hbase
        · exact Or.inr ⟨t, List.mem_append_left _ ht, rfl⟩
      · rw [hget] at hu
        cases hu
      · rw [hget] at hu
        cases hu
        exact Or.inr ⟨b, by rw [hcached, hb]; simp, rfl⟩
  · intro t ht
    rcases List.mem_append.mp ht with ht | ht
    · exact h.saved t ht
    · unfold bootstrapSaved at ht
      split at ht
      · cases ht
      · rw [Option.mem_toList] at ht
        exact Or.inr ht
  · cases hc
    show client.flagStore.snapshot.size = 0 ∨ _
    split at hmake
    · rename_i u hcached
      cases hmake
      have hget : FileStorageProvider.get J file = some u :=
        (Option.filter_eq_some_iff.mp hcached).1
      rcases hfile u hget with hbase | ⟨t, ht, rfl⟩
      · exact Or.inr (Or.inl hbase)
      · exact Or.inr (Or.inr ⟨t, List.mem_append_left _ ht, Or.inr rfl⟩)
    · cases hmake
      exact Or.inl rfl
    · rename_i b hcached hb
      split at hmake <;> cases hmake
      exact Or.inr (Or.inr ⟨b, by simp [bootstrapSaved, hcached, hb], Or.inl rfl⟩)
  · cases hc
    exact (hidle toggles hcarries).elim
  · cases hc
    cases hp

/-- A step of the process. -/
theorem provenance_act {J : JsonLib} (hJ : J.Strict) {config : ClientConfig}
    {query : Nat → ClientMachine.Query} {s : State} {c c' : ClientMachine.State (Option Bytes)}
    {stop : Stop} {a : ClientMachine.Act} (h : Provenance J config s)
    (hhost : s.host = .running c)
    (hstep : ClientMachine.step J (provider J stop) config query c a = some c') :
    Provenance J config { s with
      host := .running c', saved := s.saved ++ (persisted c a).toList } := by
  have hfile : ∀ u, FileStorageProvider.get J c.client.storage = some u →
      FileStorageProvider.get J s.base = some u ∨ ∃ t ∈ s.saved, u = t.roundTrip := by
    have hfile := h.file
    rw [hhost] at hfile
    exact hfile
  have hsnapshot := h.snapshot c hhost
  have hpending := h.pending c hhost
  have hcarries : ∀ toggles, Carries c'.polling toggles → Decoded toggles := by
    intro toggles ht
    rcases carries_step hstep ht with ht | ht
    · exact h.carries c hhost toggles ht
    · exact ht
  have hcarry : ∀ d, Host.running c' = .running d → ∀ toggles, Carries d.polling toggles →
      Decoded toggles := by
    intro d hd
    cases hd
    exact hcarries
  cases step_effect hstep with
  | throws toggles storage hp hsave =>
    -- a decoded set can be printed
    have hutf8 := (h.carries c hhost toggles (by rw [hp]; rfl)).utf8
    obtain ⟨text, htext⟩ := encode_of_utf8 J hutf8
    exfalso
    have hsave : saveUntil J c.client.storage toggles stop = .error storage := hsave
    cases stop <;> simp [saveUntil, FileStorageProvider.save, htext] at hsave
  | silent hsaved hstorage hsame hpend =>
    rw [hsaved]
    refine ⟨?_, ?_, fun d hd => ?_, hcarry, fun d hd toggles ht => ?_⟩
    · show ∀ u, FileStorageProvider.get J c'.client.storage = some u → _
      rw [hstorage]
      simpa using hfile
    · simpa using h.saved
    · cases hd
      rw [hsame]
      simpa using hsnapshot
    · cases hd
      rw [hpend] at ht
      simpa using hpending toggles ht
  | publishes toggles ha hsaved hp hstorage hsame hp' =>
    rw [hsaved]
    have hmem : toggles ∈ s.saved := hpending toggles (by rw [hp]; rfl)
    refine ⟨?_, ?_, fun d hd => ?_, hcarry, fun d hd t ht => ?_⟩
    · show ∀ u, FileStorageProvider.get J c'.client.storage = some u → _
      rw [hstorage]
      simpa using hfile
    · simpa using h.saved
    · cases hd
      refine Or.inr (Or.inr ⟨toggles, by simpa using hmem, Or.inl hsame⟩)
    · cases hd
      rw [hp'] at ht
      cases ht
  | saves toggles storage hsaved hp hsave hstorage hsame hp' =>
    rw [hsaved]
    have hdecoded := h.carries c hhost toggles (by rw [hp]; rfl)
    refine ⟨?_, fun t ht => ?_, fun d hd => ?_, hcarry, fun d hd t ht => ?_⟩
    · show ∀ u, FileStorageProvider.get J c'.client.storage = some u → _
      intro u hu
      rw [hstorage] at hu
      rcases get_saveUntil hJ hsave with hget | hget | hget
      · rw [hget] at hu
        rcases hfile u hu with hbase | ⟨t, ht, rfl⟩
        · exact Or.inl hbase
        · exact Or.inr ⟨t, List.mem_append_left _ ht, rfl⟩
      · rw [hget] at hu
        cases hu
      · rw [hget] at hu
        cases hu
        exact Or.inr ⟨toggles, by simp, rfl⟩
    · rcases List.mem_append.mp ht with ht | ht
      · exact h.saved t ht
      · simp only [Option.toList_some, List.mem_singleton] at ht
        exact Or.inl (ht ▸ hdecoded)
    · cases hd
      rw [hsame]
      rcases hsnapshot with hsize | hbase | ⟨t, ht, heq⟩
      · exact Or.inl hsize
      · exact Or.inr (Or.inl hbase)
      · exact Or.inr (Or.inr ⟨t, List.mem_append_left _ ht, heq⟩)
    · cases hd
      rw [hp'] at ht
      cases ht
      simp

theorem provenance_step {J : JsonLib} (hJ : J.Strict) {config : ClientConfig}
    {query : Nat → ClientMachine.Query} {s s' : State} {a : Act} (h : Provenance J config s)
    (hstep : step J config query s a = some s') : Provenance J config s' := by
  cases a with
  | construct stop ctx =>
    simp only [step] at hstep
    split at hstep
    · rename_i file hhost
      split at hstep <;> cases hstep
      · exact h.stop fun u hu => (by cases hu)
      · rename_i client hmake
        exact provenance_construct hJ ctx h hhost hmake
    · cases hstep
  | act stop a =>
    simp only [step] at hstep
    split at hstep
    · cases hstep
    · rename_i c hhost
      split at hstep <;> cases hstep
      rename_i c' hc'
      exact provenance_act hJ h hhost hc'
  | kill =>
    simp only [step] at hstep
    split at hstep <;> cases hstep
    rename_i c hhost
    refine h.stop fun u hu => ?_
    rw [hhost]
    exact hu
  | killSaving written =>
    simp only [step] at hstep
    split at hstep
    · cases hstep
    · split at hstep
      · cases hstep
      · exact provenance_tear hJ config hstep
  | killConstructing written =>
    simp only [step] at hstep
    split at hstep
    · split at hstep
      · cases hstep
      · exact provenance_tear hJ config hstep
    · cases hstep

/-- The flags `u` are those of one set that was saved, or of the base; only a bootstrap may have
    been changed by the codec. -/
def FromOne (J : JsonLib) (config : ClientConfig) (s : State) (u : ToggleSet) : Prop :=
  ∃ t, (FileStorageProvider.get J s.base = some t ∨ t ∈ s.saved) ∧
    ((∀ name, u.answers name = t.answers name) ∨
      config.overridingBootstrap = some t ∧ u = t.roundTrip)

theorem Provenance.fromOne {J : JsonLib} {config : ClientConfig} {s : State}
    (h : Provenance J config s) {u t : ToggleSet} (ht : t ∈ s.saved)
    (hu : u = t ∨ u = t.roundTrip) : FromOne J config s u := by
  refine ⟨t, Or.inr ht, ?_⟩
  rcases hu with rfl | rfl
  · exact Or.inl fun _ => rfl
  · rcases h.saved t ht with hdecoded | hboot
    · exact Or.inl fun name =>
        (ToggleSet.roundTrip_sameMap_iff.mpr hdecoded.canonical).answers_eq name
    · exact Or.inr ⟨hboot, rfl⟩

/-- **No flags are invented, lost in part or mixed.**  In every sequence of lives, wherever the
    saves stop and whenever the processes are killed: a client without flags aside, what a client
    offers, and what the next one would load, are the flags of one set that was passed to a save
    as a whole, or those of the first file. -/
theorem snapshot_provenance (J : JsonLib) (hJ : J.Strict) (config : ClientConfig)
    (query : Nat → ClientMachine.Query) (file : Option Bytes) (as : List Act) (s : State)
    (hrun : Machine.run (step J config query) (initial file) as = some s) :
    (∀ u, FileStorageProvider.get J s.host.file = some u → FromOne J config s u) ∧
    ∀ c, s.host = .running c → c.client.flagStore.snapshot.size = 0 ∨
      FromOne J config s c.client.flagStore.snapshot := by
  have h : Provenance J config s := Machine.run_inv (fun _ _ _ hu hv => provenance_step hJ hu hv)
    (provenance_initial J config file) hrun
  refine ⟨fun u hu => ?_, fun c hc => ?_⟩
  · rcases h.file u hu with hbase | ⟨t, ht, hround⟩
    · exact ⟨u, Or.inl hbase, Or.inl fun _ => rfl⟩
    · exact h.fromOne ht (Or.inr hround)
  · rcases h.snapshot c hc with hsize | hbase | ⟨t, ht, heq⟩
    · exact Or.inl hsize
    · exact Or.inr ⟨_, Or.inl hbase, Or.inl fun _ => rfl⟩
    · exact Or.inr (h.fromOne ht heq)

/-- A first fetch, up to where the toggles are saved, and the save, which stops at `stop`. -/
def fetchAndSave (stop : Stop) : List Act :=
  [.construct .finished UnleashClient.plainContext, .act .finished .start,
    .act .finished .control, .act .finished .control, .act .finished .control,
    .act .finished .poll, .act .finished .poll,
    .act .finished (.reply (UnleashClient.okReply oneToggleText (bytes "e1"))),
    .act .finished .poll, .act stop .poll]

/-- A configuration without a bootstrap. -/
def bareConfig : ClientConfig := ClientConfig.make (bytes "u") (bytes "k") (bytes "app") []

set_option maxRecDepth 8000 in
/-- Three bytes of the first text get into the file, and the toggles are offered all the same. -/
theorem snapshot_provenance_cut :
    ∃ s c, Machine.run (step JsonText.compact bareConfig fun _ => ⟨.isEnabled, bytes "a"⟩)
        (initial none) (fetchAndSave (.write 3) ++ [.act .finished .poll]) = some s ∧
      s.host = .running c ∧ c.client.flagStore.snapshot.size = 1 ∧
      FromOne JsonText.compact bareConfig s c.client.flagStore.snapshot := by
  obtain ⟨-, hoffers⟩ := snapshot_provenance JsonText.compact JsonText.compact_strict bareConfig
    (fun _ => ⟨.isEnabled, bytes "a"⟩) none (fetchAndSave (.write 3) ++ [.act .finished .poll]) _
    rfl
  rcases hoffers _ rfl with hsize | hone
  · cases hsize
  · exact ⟨_, _, rfl, rfl, rfl, hone⟩

/-! ## Flags are written ahead -/

/-- No save stops, but by a kill. -/
def Act.finishes : Act → Bool
  | .construct .finished _ | .act .finished _ | .kill | .killSaving _ | .killConstructing _ => true
  | _ => false

theorem Decoded.answers {t : ToggleSet} (h : Decoded t) (name : Bytes) :
    t.roundTrip.answers name = t.answers name :=
  (ToggleSet.roundTrip_sameMap_iff.mpr h.canonical).answers_eq name

/-- What the client offers, or is about to offer. -/
def current (c : ClientMachine.State (Option Bytes)) : ToggleSet :=
  (pendingOf c.polling).getD c.client.flagStore.snapshot

end Lives

end Unleash
