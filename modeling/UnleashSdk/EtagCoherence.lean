/-
  ETAG COHERENCE: does the fetcher ask about the toggles that the store holds?

  The ETag lives in the fetcher and the toggles in the flag store, and they are updated under
  different conditions: an accepted reply without flags updates only the ETag, one without an
  ETag updates only the flags.  `KeepsPairing` says that a reply does neither, unless nothing
  changes by it.  What it maintains is the invariant

      cached ETag  =  ETag of the reply whose toggles the store holds            (`Paired`)

  (both absent counts).  From a paired state, a reply leads to a coherent state exactly if it
  keeps the pairing, so coherence all along a run is equivalent to the condition on its steps.
-/
import UnleashSdk.FlagUpdates
import UnleashSdk.RequestHeaders

set_option linter.unusedVariables false

namespace Unleash

namespace UnleashClient

variable {σ : Type}

/-! ## Requests and the pairing -/

/-- The value of the If-None-Match header of the next request. -/
def ifNoneMatch (c : UnleashClient σ) : Option Bytes :=
  c.toggleFetcher.httpRequest.headers.lookup (bytes "if-none-match")

/-- The cached ETag, if there is one. -/
def cachedEtag (c : UnleashClient σ) : Option Bytes :=
  if c.toggleFetcher.etag = [] then none else some c.toggleFetcher.etag

/-- If the next request sends an If-None-Match header that is taken from the cached ETag, then its
    value is the ETag of the reply whose toggles the store holds. -/
def Coherent (J : JsonLib) (c : UnleashClient σ) (as : List (Context × HttpReply)) : Prop :=
  ∀ e, c.cachedEtag = some e → c.ifNoneMatch = some e →
    ∃ r s, lastStored J as = some (r, s) ∧ r.etag = some e ∧ c.flagStore.snapshot = s

/-- A step whose reply does not pull ETag and toggles apart. -/
def KeepsPairing (J : JsonLib) (c : UnleashClient σ) (a : Context × HttpReply) : Prop :=
  ∀ r s, accepted J a.2 = some (r, s) →
    (s.size = 0 → r.etag = none ∨ r.etag = c.cachedEtag) ∧
    (s.size ≠ 0 → r.etag ≠ none ∨ c.cachedEtag = none)

/-- The cached ETag is sent, and it is that of the reply whose toggles the store holds. -/
structure Paired (J : JsonLib) (c : UnleashClient σ) (as : List (Context × HttpReply)) : Prop where
  sent : ∀ e, c.cachedEtag = some e → c.ifNoneMatch = some e
  etag : c.cachedEtag = (lastStored J as).bind fun p => p.1.etag
  snapshot : ∀ r s, lastStored J as = some (r, s) → c.flagStore.snapshot = s

theorem Paired.coherent {J : JsonLib} {c : UnleashClient σ} {as : List (Context × HttpReply)}
    (h : Paired J c as) : Coherent J c as := by
  intro e he _
  obtain ⟨⟨r, s⟩, hlast, hetag⟩ := Option.bind_eq_some_iff.mp (h.etag.symm.trans he)
  exact ⟨r, s, hlast, hetag, h.snapshot r s hlast⟩

/-! ## What a fetch does to the ETag -/

theorem HttpResponse.etag_ne_nil {r : HttpResponse} {e : Bytes} (h : r.etag = some e) :
    e ≠ [] := by
  obtain ⟨-, he⟩ := Option.filter_eq_some_iff.mp h
  simpa using he

/-- The fetcher that sends a request caches what the one before it did. -/
theorem cachedEtag_prepare {J : JsonLib} {c : UnleashClient σ} {f : ToggleFetcher}
    {ctx : Context} (hf : c.toggleFetcher.prepare J ctx = some f) (c' : UnleashClient σ)
    (hc' : c'.toggleFetcher = f) :
    c'.cachedEtag = c.cachedEtag ∧ c'.ifNoneMatch = c.ifNoneMatch := by
  obtain ⟨hetag, hheaders, -⟩ := ToggleFetcher.prepare_frame hf
  simp only [cachedEtag, ifNoneMatch, hc', hetag, hheaders, and_self]

/-- An accepted reply's ETag takes the place of the cached one, if it has any. -/
theorem cachedEtag_cache {J : JsonLib} {c : UnleashClient σ} {f : ToggleFetcher} {ctx : Context}
    (hf : c.toggleFetcher.prepare J ctx = some f) (r : HttpResponse) (c' : UnleashClient σ)
    (hc' : c'.toggleFetcher = f.cacheIfAny r.etag) :
    c'.cachedEtag = r.etag.or c.cachedEtag ∧
    ((∀ e, c.cachedEtag = some e → c.ifNoneMatch = some e) →
      ∀ e, c'.cachedEtag = some e → c'.ifNoneMatch = some e) := by
  cases hr : r.etag with
  | none =>
    rw [hr] at hc'
    obtain ⟨hetag, hsent⟩ := cachedEtag_prepare hf c' hc'
    rw [hetag, hsent]
    exact ⟨(Option.none_or).symm, fun h => h⟩
  | some e =>
    have hne := HttpResponse.etag_ne_nil hr
    rw [hr] at hc'
    have hcached : c'.cachedEtag = some e := by
      rw [cachedEtag, hc']
      exact if_neg hne
    have hsent : c'.ifNoneMatch = some e := by
      rw [ifNoneMatch, hc']
      exact (KeyMap.lookup_insert).trans (if_pos rfl)
    refine ⟨by rw [hcached, Option.some_or], fun _ e' he' => ?_⟩
    rw [hsent, ← hcached, he']

/-! ## The two directions, one step at a time -/

variable {J : JsonLib} {P : StorageProvider σ} {c c' : UnleashClient σ}
  {as : List (Context × HttpReply)} {a : Context × HttpReply}

theorem paired_step (h : Paired J c as) (hkeep : KeepsPairing J c a)
    (hstep : fetchStep J P c a = some c') : Paired J c' (as ++ [a]) := by
  obtain ⟨f, events, hf, hfetched⟩ := fetchStep_fetched hstep
  generalize hresp : a.2 = resp at hfetched
  cases hfetched with
  | rejected sdkState events hacc _ =>
    obtain ⟨hetag, hsent⟩ := cachedEtag_prepare hf
      { c with toggleFetcher := f, sdkState := sdkState } rfl
    have hlast : lastStored J (as ++ [a]) = lastStored J as := by
      rw [lastStored_snoc, hresp, stored_rejected hacc, Option.none_or]
    exact ⟨by rw [hetag, hsent]; exact h.sent, by rw [hetag, hlast]; exact h.etag,
      by rw [hlast]; exact h.snapshot⟩
  | empty r s hacc hsize =>
    obtain ⟨hetag, hsent⟩ := cachedEtag_cache hf r
      { c with toggleFetcher := f.cacheIfAny r.etag } rfl
    have hlast : lastStored J (as ++ [a]) = lastStored J as := by
      rw [lastStored_snoc, hresp, stored_empty hacc hsize, Option.none_or]
    have hsame : r.etag.or c.cachedEtag = c.cachedEtag := by
      rcases (hkeep r s (hresp ▸ hacc)).1 hsize with hr | hr
      · rw [hr, Option.none_or]
      · rw [hr, Option.or_self]
    exact ⟨hsent h.sent, by rw [hetag, hlast, hsame]; exact h.etag,
      by rw [hlast]; exact h.snapshot⟩
  | updated r s storage hacc hsize hsave =>
    obtain ⟨hetag, hsent⟩ := cachedEtag_cache hf r
      { c with
        toggleFetcher := f.cacheIfAny r.etag
        storage := storage
        flagStore := c.flagStore.replace s
        ready := true } rfl
    have hlast : lastStored J (as ++ [a]) = some (r, s) := by
      rw [lastStored_snoc, hresp, stored_updated hacc hsize, Option.some_or]
    have hown : r.etag.or c.cachedEtag = r.etag := by
      cases hr : r.etag with
      | some e => exact Option.some_or
      | none =>
        rw [Option.none_or]
        exact ((hkeep r s (hresp ▸ hacc)).2 hsize).resolve_left fun hne => hne hr
    refine ⟨hsent h.sent, by rw [hetag, hlast, hown]; rfl, fun r' s' hlast' => ?_⟩
    rw [hlast] at hlast'
    cases hlast'
    rfl

/-- A coherent state after a paired one was reached by a step that keeps the pairing. -/
theorem keepsPairing_of_coherent (h : Paired J c as) (hstep : fetchStep J P c a = some c')
    (hcoherent : Coherent J c' (as ++ [a])) : KeepsPairing J c a := by
  obtain ⟨f, events, hf, hfetched⟩ := fetchStep_fetched hstep
  intro r s hacc
  generalize hresp : a.2 = resp at hfetched hacc
  cases hfetched with
  | rejected sdkState events hnone _ => cases hnone.symm.trans hacc
  | empty r' s' hacc' hsize =>
    obtain ⟨rfl, rfl⟩ : r' = r ∧ s' = s := by
      rw [hacc'] at hacc; cases hacc; exact ⟨rfl, rfl⟩
    refine ⟨fun _ => ?_, fun hne => absurd hsize hne⟩
    obtain ⟨hetag, hsent⟩ := cachedEtag_cache hf r'
      { c with toggleFetcher := f.cacheIfAny r'.etag } rfl
    have hlast : lastStored J (as ++ [a]) = lastStored J as := by
      rw [lastStored_snoc, hresp, stored_empty hacc' hsize, Option.none_or]
    cases hr : r'.etag with
    | none => exact Or.inl rfl
    | some e =>
      -- the reply's ETag is cached, so it must be that of the reply in the store
      have hetag := hetag.trans (show r'.etag.or c.cachedEtag = some e by rw [hr, Option.some_or])
      obtain ⟨r₀, s₀, hlast₀, hr₀, -⟩ := hcoherent e hetag (hsent h.sent e hetag)
      rw [hlast] at hlast₀
      rw [h.etag, hlast₀]
      exact Or.inr hr₀.symm
  | updated r' s' storage hacc' hsize hsave =>
    obtain ⟨rfl, rfl⟩ : r' = r ∧ s' = s := by
      rw [hacc'] at hacc; cases hacc; exact ⟨rfl, rfl⟩
    refine ⟨fun h0 => absurd h0 hsize, fun _ => ?_⟩
    obtain ⟨hetag, hsent⟩ := cachedEtag_cache hf r'
      { c with
        toggleFetcher := f.cacheIfAny r'.etag
        storage := storage
        flagStore := c.flagStore.replace s'
        ready := true } rfl
    have hlast : lastStored J (as ++ [a]) = some (r', s') := by
      rw [lastStored_snoc, hresp, stored_updated hacc' hsize, Option.some_or]
    cases hr : r'.etag with
    | some e => exact Or.inl (Option.some_ne_none e)
    | none =>
      -- the cached ETag stays, but belongs to a reply that is no longer in the store
      cases hc : c.cachedEtag with
      | none => exact Or.inr rfl
      | some e =>
        have hetag := hetag.trans
          (show r'.etag.or c.cachedEtag = some e by rw [hr, Option.none_or, hc])
        obtain ⟨r₀, s₀, hlast₀, hr₀, -⟩ := hcoherent e hetag (hsent h.sent e hetag)
        rw [hlast] at hlast₀
        cases hlast₀
        rw [hr] at hr₀
        cases hr₀

/-! ## A client from its construction on -/

theorem make_paired {config : ClientConfig} {storage : σ} (h : make P config storage = some c) :
    Paired J c [] := by
  have hcached : c.cachedEtag = none := by
    rw [cachedEtag, make_toggleFetcher h]
    exact if_pos rfl
  refine ⟨fun e he => ?_, hcached, fun r s hlast => ?_⟩
  · rw [hcached] at he
    cases he
  · cases hlast

/-! ## No header of the configuration is in the way -/

/-- No header that the configuration names is called if-none-match. -/
def NoIfNoneMatch (config : ClientConfig) : Prop :=
  keysToLowerCase config.headerName ≠ bytes "if-none-match" ∧
  ∀ e ∈ config.customHeaders.entries, keysToLowerCase e.1 ≠ bytes "if-none-match"

/-- The first request of such a client is unconditional. -/
theorem make_ifNoneMatch {config : ClientConfig} {storage : σ} (hconfig : NoIfNoneMatch config)
    (h : make P config storage = some c) : c.ifNoneMatch = none := by
  obtain ⟨hname, hcustom⟩ := hconfig
  have hcustom : customHeader config.customHeaders (bytes "if-none-match") = none :=
    (customHeader_eq_none _ _).mpr fun e he _ => hcustom e he
  have hkeys : bytes "if-none-match" ≠ bytes "content-type" ∧
      bytes "if-none-match" ≠ bytes "unleash-appname" ∧
      bytes "if-none-match" ≠ bytes "user-agent" ∧ bytes "if-none-match" ≠ bytes "unleash-sdk" ∧
      bytes "if-none-match" ≠ bytes "'unleash-connection-id'" ∧
      bytes "if-none-match" ≠ bytes "accept" := by decide
  obtain ⟨h₁, h₂, h₃, h₄, h₅, h₆⟩ := hkeys
  rw [ifNoneMatch, make_toggleFetcher h]
  show (makeFrontendRequest config []).headers.lookup _ = none
  rw [lookup_makeFrontendRequest, hcustom, Option.none_or, fetcherHeader,
    if_neg fun he => h₁ he.1, if_neg h₂, if_neg h₃, if_neg h₄, if_neg (Ne.symm hname),
    if_neg h₅, if_neg h₆]

/-- An If-None-Match header that is sent was put there with the cached ETag. -/
theorem ifNoneMatch_step (h : c.ifNoneMatch = c.cachedEtag) (hstep : fetchStep J P c a = some c') :
    c'.ifNoneMatch = c'.cachedEtag := by
  obtain ⟨f, events, hf, hfetched⟩ := fetchStep_fetched hstep
  have hcache : ∀ (r : HttpResponse) (c₁ : UnleashClient σ),
      c₁.toggleFetcher = f.cacheIfAny r.etag → c₁.ifNoneMatch = c₁.cachedEtag := by
    intro r c₁ hc₁
    obtain ⟨hetag, hsent⟩ := cachedEtag_cache hf r c₁ hc₁
    have hsent := hsent fun e he => h.trans he
    cases hr : r.etag with
    | some e =>
      have he : c₁.cachedEtag = some e := by rw [hetag, hr, Option.some_or]
      rw [hsent e he, he]
    | none =>
      rw [hr] at hc₁
      obtain ⟨hetag', hsent'⟩ := cachedEtag_prepare hf c₁ hc₁
      rw [hetag', hsent', h]
  generalize a.2 = resp at hfetched
  cases hfetched with
  | rejected sdkState events _ _ =>
    obtain ⟨hetag, hsent⟩ := cachedEtag_prepare hf
      { c with toggleFetcher := f, sdkState := sdkState } rfl
    rw [hetag, hsent, h]
  | empty r s _ _ => exact hcache r _ rfl
  | updated r s storage _ _ _ => exact hcache r _ rfl

/-! ## Coherence and what a server's 304 then means -/

/-- The ETags of the replies identify their bodies. -/
def TagsIdentify (J : JsonLib) (bodyOf : Bytes → Bytes) (as : List (Context × HttpReply)) : Prop :=
  ∀ a ∈ as, ∀ r s, accepted J a.2 = some (r, s) → ∀ e, r.etag = some e → r.body = bodyOf e

/-- "Not modified" changes no flag. -/
theorem notModified_snapshot {ctx : Context} {r : HttpResponse} (hr : r.status = 304)
    (hstep : fetchStep J P c (ctx, .http r) = some c') :
    c'.flagStore.snapshot = c.flagStore.snapshot := by
  have hnone : accepted J (.http r) = none := by
    have hok : isOkStatus r.status = false := by rw [hr]; decide
    simp [accepted, hok]
  obtain ⟨f, events, -, hfetched⟩ := fetchStep_fetched hstep
  have hfetched : Fetched J P c f (.http r) c' events := hfetched
  cases hfetched with
  | rejected _ _ _ _ => rfl
  | empty r' s h _ => cases hnone.symm.trans h
  | updated r' s _ h _ _ => cases hnone.symm.trans h

/-- **ETag coherence, exactly.**  Along a run of a constructed client every conditional request
    carries the ETag of the toggles in the store if and only if every reply keeps the pairing.
    In that case, with a server whose ETags identify its bodies, a 304 to a request with the
    current ETag means that the snapshot is what the current body decodes to. -/
theorem etag_coherent_iff (J : JsonLib) (P : StorageProvider σ) (config : ClientConfig)
    (storage : σ) (c₀ c : UnleashClient σ) (as : List (Context × HttpReply))
    (hmake : make P config storage = some c₀)
    (hrun : Machine.run (fetchStep J P) c₀ as = some c) :
    ((∀ bs d, bs <+: as → Machine.run (fetchStep J P) c₀ bs = some d → Coherent J d bs) ↔
      Machine.Meets (fetchStep J P) (KeepsPairing J) c₀ as) ∧
    (Machine.Meets (fetchStep J P) (KeepsPairing J) c₀ as → NoIfNoneMatch config →
      ∀ bodyOf, TagsIdentify J bodyOf as →
      ∀ current ctx r c', c.ifNoneMatch = some current → r.status = 304 →
        fetchStep J P c (ctx, .http r) = some c' →
        decodeClientFeaturesResponse J (bodyOf current) = .ok c'.flagStore.snapshot) := by
  have hpaired : Paired J c₀ [] := make_paired hmake
  constructor
  · exact Machine.always_iff_meets (I := fun c as => Paired J c as) hpaired hpaired.coherent
      (fun bs d a e _ hd ha he => paired_step hd ha he)
      (fun bs d a e _ hd he => ⟨keepsPairing_of_coherent hd he, fun ha =>
        (paired_step hd ha he).coherent⟩) hrun
  · intro hmeets hconfig bodyOf hbodies current ctx r c' hcurrent hstatus hstep
    have hfinal : Paired J c as :=
      Machine.run_history (I := fun d bs => Machine.Meets (fetchStep J P) (KeepsPairing J) c₀ bs →
        Paired J d bs) (fun _ => hpaired)
        (fun bs d a e hd ih he hm => by
          obtain ⟨hbs, ha⟩ := (Machine.meets_snoc hd).mp hm
          exact paired_step (ih hbs) ha he) hrun hmeets
    have hheader : c.ifNoneMatch = c.cachedEtag :=
      Machine.run_inv (I := fun d => d.ifNoneMatch = d.cachedEtag)
        (fun d a e hd he => ifNoneMatch_step hd he)
        ((make_ifNoneMatch hconfig hmake).trans hpaired.etag.symm) hrun
    obtain ⟨r₀, s₀, hlast, hetag, hsnapshot⟩ :=
      hfinal.coherent current (hheader.symm.trans hcurrent) hcurrent
    obtain ⟨b, hb, hacc⟩ := lastStored_mem hlast
    obtain ⟨-, -, hdecode⟩ := accepted_some hacc
    rw [notModified_snapshot hstatus hstep, hsnapshot, ← hbodies b hb r₀ s₀ hacc current hetag]
    exact hdecode

/-! ## A tagged flag, and then no flag -/

/-- The first of the two replies alone. -/
def oneTagged : List (Context × HttpReply) :=
  [(plainContext, okReply oneToggleText (bytes "e1"))]

theorem make_freshClient : make localStorageProvider
    (ClientConfig.make (bytes "u") (bytes "k") (bytes "app") []) () = some freshClient := rfl

set_option maxRecDepth 8000 in
theorem accepted_oneTagged {r : HttpResponse} {s : ToggleSet}
    (h : accepted JsonText.compact (okReply oneToggleText (bytes "e1")) = some (r, s)) :
    s = oneToggleSet ∧ r.body = oneToggleText := by
  have hacc : (accepted JsonText.compact (okReply oneToggleText (bytes "e1"))).map
      (fun p => (p.2, p.1.body)) = some (oneToggleSet, oneToggleText) := rfl
  rw [h, Option.map_some] at hacc
  have hpair := Option.some.inj hacc
  exact ⟨congrArg Prod.fst hpair, congrArg Prod.snd hpair⟩

set_option maxRecDepth 8000 in
/-- One tagged reply keeps the pairing, and a 304 after it means its body. -/
theorem etag_coherent_iff_oneTagged :
    ∃ c c' : UnleashClient Unit,
      Machine.run (fetchStep JsonText.compact localStorageProvider) freshClient oneTagged = some c ∧
      c.ifNoneMatch = some (bytes "e1") ∧
      (∀ bs d, bs <+: oneTagged →
        Machine.run (fetchStep JsonText.compact localStorageProvider) freshClient bs = some d →
        Coherent JsonText.compact d bs) ∧
      decodeClientFeaturesResponse JsonText.compact oneToggleText =
        .ok c'.flagStore.snapshot := by
  have hmeets : Machine.Meets (fetchStep JsonText.compact localStorageProvider)
      (KeepsPairing JsonText.compact) freshClient oneTagged := by
    refine ⟨fun r s hacc => ⟨fun hsize => ?_, fun _ => Or.inr rfl⟩, trivial⟩
    rw [(accepted_oneTagged hacc).1] at hsize
    exact absurd hsize (by decide)
  have htags : TagsIdentify JsonText.compact (fun _ => oneToggleText) oneTagged := by
    intro a ha r s hacc e _
    rw [List.mem_singleton.mp ha] at hacc
    exact (accepted_oneTagged hacc).2
  have hiff := etag_coherent_iff JsonText.compact localStorageProvider
    (ClientConfig.make (bytes "u") (bytes "k") (bytes "app") []) () freshClient _ oneTagged
    make_freshClient rfl
  exact ⟨_, _, rfl, rfl, hiff.1.mpr hmeets,
    hiff.2 hmeets ⟨by decide, nofun⟩ (fun _ => oneToggleText) htags
    (bytes "e1") plainContext { status := 304 } _ rfl rfl rfl⟩

set_option maxRecDepth 8000 in
/-- After the second reply the next request carries the ETag `e2`, and the store holds the flag of
    the reply tagged `e1`. -/
theorem etag_without_toggles :
    ∃ c, Machine.run (fetchStep JsonText.compact localStorageProvider) freshClient oneThenNone =
        some c ∧ ¬ Coherent JsonText.compact c oneThenNone := by
  refine ⟨_, rfl, fun h => ?_⟩
  obtain ⟨r, s, hlast, hetag, -⟩ := h (bytes "e2") rfl rfl
  have hown : (lastStored JsonText.compact oneThenNone).bind (fun p => p.1.etag) =
      some (bytes "e1") := rfl
  rw [hlast] at hown
  exact absurd (hetag.symm.trans hown) (by decide)

end UnleashClient

end Unleash
