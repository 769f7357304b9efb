/-
  THE OUTCOME OF A FETCH, for every fetcher and every reply.

  `fetch` has seven returns.  Its results are of three kinds, told apart by the two optional
  fields: toggles and no error, neither, an error and no toggles.  For each kind this module says
  which replies lead there, in terms of the reply alone (`outcome`):

      updated s  — a status of the 200s, and the body decodes to a set with a toggle in it
      unchanged  — status 304, or a status of the 200s and the body decodes to the empty set
      failed     — anything else

  The cached ETag and the header made from it are written on the way to the first two only, and
  not for a 304 (`fetch_outcome`).
-/
import UnleashSdk.FlagUpdates

set_option linter.unusedVariables false

namespace Unleash

/-! ## The three kinds of results -/

namespace FetchResult

/-- Success with toggles. -/
def IsUpdated (r : FetchResult) : Prop := r.error = none ∧ r.toggles.isSome = true

/-- Success without toggles. -/
def IsUnchanged (r : FetchResult) : Prop := r.error = none ∧ r.toggles = none

/-- Failure: an error, and no toggles. -/
def IsFailed (r : FetchResult) : Prop := r.error.isSome = true ∧ r.toggles = none

variable {r : FetchResult}

theorem IsUpdated.not_unchanged (h : r.IsUpdated) : ¬ r.IsUnchanged := fun h' => by
  have hsome := h.2
  rw [h'.2] at hsome
  cases hsome

theorem IsUpdated.not_failed (h : r.IsUpdated) : ¬ r.IsFailed := fun h' => by
  have hsome := h'.1
  rw [h.1] at hsome
  cases hsome

theorem IsUnchanged.not_failed (h : r.IsUnchanged) : ¬ r.IsFailed := fun h' => by
  have hsome := h'.1
  rw [h.1] at hsome
  cases hsome

end FetchResult

/-- The reply is an HTTP response with a status of the 200s whose body decodes to `s`. -/
def OkWith (J : JsonLib) (resp : HttpReply) (s : ToggleSet) : Prop :=
  ∃ r, resp = .http r ∧ (200 ≤ r.status ∧ r.status < 300) ∧
    decodeClientFeaturesResponse J r.body = .ok s

/-- The reply says that nothing was modified. -/
def NotModified (resp : HttpReply) : Prop := ∃ r, resp = .http r ∧ r.status = 304

theorem okWith_iff_accepted {J : JsonLib} {resp : HttpReply} {s : ToggleSet} :
    OkWith J resp s ↔ ∃ r, accepted J resp = some (r, s) := by
  constructor
  · rintro ⟨r, rfl, hrange, hdecode⟩
    exact ⟨r, by simp only [accepted, isOkStatus_iff.mpr hrange, if_true, hdecode]⟩
  · rintro ⟨r, h⟩
    obtain ⟨hresp, hok, hdecode⟩ := accepted_some h
    exact ⟨r, hresp, isOkStatus_iff.mp hok, hdecode⟩

/-- A reply brings one set at most. -/
theorem OkWith.unique {J : JsonLib} {resp : HttpReply} {s s' : ToggleSet} (h : OkWith J resp s)
    (h' : OkWith J resp s') : s = s' := by
  obtain ⟨r, rfl, -, hs⟩ := h
  obtain ⟨r', hr', -, hs'⟩ := h'
  cases hr'
  exact Except.ok.inj (hs.symm.trans hs')

theorem OkWith.not_notModified {J : JsonLib} {resp : HttpReply} {s : ToggleSet}
    (h : OkWith J resp s) : ¬ NotModified resp := by
  obtain ⟨r, rfl, hrange, -⟩ := h
  rintro ⟨r', hr', hstatus⟩
  cases hr'
  exact (isOkStatus_narrow (isOkStatus_iff.mpr hrange)).2.1 hstatus

/-! ## What the reply decides -/

namespace ToggleFetcher

variable {J : JsonLib} {f : ToggleFetcher} {resp : HttpReply}

/-- A "not modified" yields neither toggles nor an error; its status is passed on. -/
theorem handle_notModified (h : NotModified resp) :
    f.handle J resp = ({ status := 304 }, f) := by
  obtain ⟨r, rfl, hstatus⟩ := h
  have hcheck : checkReply (.http r) = .ok r := if_neg (by rw [hstatus]; decide)
  unfold handle
  rw [hcheck]
  simp only [hstatus]
  rfl

/-- Any other reply that is not accepted is an error, and changes nothing. -/
theorem handle_failed (hok : ∀ s, ¬ OkWith J resp s) (hno : ¬ NotModified resp) :
    (f.handle J resp).1.IsFailed ∧ (f.handle J resp).2 = f := by
  have hacc : accepted J resp = none := by
    cases h : accepted J resp with
    | none => rfl
    | some p => exact absurd (okWith_iff_accepted.mpr ⟨p.1, h⟩) (hok p.2)
  obtain ⟨hframe, htoggles, -⟩ := f.handle_rejected hacc
  refine ⟨⟨?_, htoggles⟩, hframe⟩
  unfold handle
  split
  · rfl
  · rename_i r hcheck
    obtain ⟨rfl, -⟩ := checkReply_ok hcheck
    simp only
    split
    · rename_i hstatus
      exact absurd ⟨r, rfl, hstatus⟩ hno
    · split
      · rename_i hstatus
        split
        · rfl
        · rename_i s hdecode
          exact absurd ⟨r, rfl, isOkStatus_iff.mp hstatus, hdecode⟩ (hok s)
      · rfl

/-- An accepted reply passes its status on; its toggles are in the result if it has any. -/
theorem handle_ok {s : ToggleSet} (h : OkWith J resp s) :
    (f.handle J resp).1.error = none ∧
      (f.handle J resp).1.toggles = (if s.size ≠ 0 then some s else none) ∧
      200 ≤ (f.handle J resp).1.status ∧ (f.handle J resp).1.status < 300 := by
  obtain ⟨r, hacc⟩ := okWith_iff_accepted.mp h
  obtain ⟨-, hok, -⟩ := accepted_some hacc
  rw [f.handle_accepted hacc]
  exact ⟨rfl, rfl, (isOkStatus_narrow hok).2.2.2⟩

/-! ## The outcome -/

/-- The result of a fetch is of exactly one kind, and the reply decides of which.  `frame` and
    `next`: after a failure or a "not modified" the fetcher's ETag and headers are what they were,
    and so are those of the next request. -/
structure Outcome (J : JsonLib) (f : ToggleFetcher) (resp : HttpReply) (result : FetchResult)
    (f' : ToggleFetcher) : Prop where
  one : (result.IsUpdated ∧ ¬ result.IsUnchanged ∧ ¬ result.IsFailed) ∨
    (¬ result.IsUpdated ∧ result.IsUnchanged ∧ ¬ result.IsFailed) ∨
    (¬ result.IsUpdated ∧ ¬ result.IsUnchanged ∧ result.IsFailed)
  updated : result.IsUpdated ↔ ∃ s, OkWith J resp s ∧ s.size ≠ 0
  toggles : ∀ s, result.toggles = some s ↔ OkWith J resp s ∧ s.size ≠ 0
  unchanged : result.IsUnchanged ↔ NotModified resp ∨ ∃ s, OkWith J resp s ∧ s.size = 0
  failed : result.IsFailed ↔ (∀ s, ¬ OkWith J resp s) ∧ ¬ NotModified resp
  updatedStatus : result.IsUpdated → 200 ≤ result.status ∧ result.status < 300
  unchangedStatus : result.IsUnchanged →
    result.status = 304 ∨ 200 ≤ result.status ∧ result.status < 300
  frame : result.IsFailed ∨ NotModified resp →
    f'.etag = f.etag ∧ f'.httpRequest.headers = f.httpRequest.headers
  next : result.IsFailed ∨ NotModified resp → ∀ ctx g, f'.prepare J ctx = some g →
    g.httpRequest.headers = f.httpRequest.headers

/-- A set with toggles. -/
theorem outcome_updated {s : ToggleSet} (hs : OkWith J resp s) (hsize : s.size ≠ 0) :
    Outcome J f resp (f.handle J resp).1 (f.handle J resp).2 := by
  obtain ⟨herr, htoggles, hstatus⟩ := f.handle_ok hs
  rw [if_pos hsize] at htoggles
  have hup : (f.handle J resp).1.IsUpdated := ⟨herr, by rw [htoggles]; rfl⟩
  have hkeep : ¬ ((f.handle J resp).1.IsFailed ∨ NotModified resp) :=
    not_or.mpr ⟨hup.not_failed, hs.not_notModified⟩
  refine ⟨Or.inl ⟨hup, hup.not_unchanged, hup.not_failed⟩, iff_of_true hup ⟨s, hs, hsize⟩,
    fun s' => ⟨fun h => ?_, fun h => ?_⟩, iff_of_false hup.not_unchanged ?_,
    iff_of_false hup.not_failed fun h => h.1 s hs, fun _ => hstatus, fun _ => Or.inr hstatus,
    fun h => absurd h hkeep, fun h => absurd h hkeep⟩
  · rw [htoggles] at h
    rw [← Option.some.inj h]
    exact ⟨hs, hsize⟩
  · rw [htoggles, hs.unique h.1]
  · rintro (hno | ⟨s', hs', hempty⟩)
    · exact hs.not_notModified hno
    · rw [hs.unique hs'] at hsize
      exact hsize hempty

/-- The empty set, or a "not modified". -/
theorem outcome_unchanged (hun : (f.handle J resp).1.IsUnchanged)
    (hreply : NotModified resp ∨ ∃ s, OkWith J resp s ∧ s.size = 0)
    (hstatus : (f.handle J resp).1.status = 304 ∨
      200 ≤ (f.handle J resp).1.status ∧ (f.handle J resp).1.status < 300)
    (hframe : NotModified resp → (f.handle J resp).2 = f) :
    Outcome J f resp (f.handle J resp).1 (f.handle J resp).2 := by
  have hup : ¬ (f.handle J resp).1.IsUpdated := fun h => h.not_unchanged hun
  have hnone : ∀ s, ¬ (OkWith J resp s ∧ s.size ≠ 0) := by
    rintro s ⟨hs, hsize⟩
    rcases hreply with hno | ⟨s', hs', hempty⟩
    · exact hs.not_notModified hno
    · rw [hs.unique hs'] at hsize
      exact hsize hempty
  have hkeep : (f.handle J resp).1.IsFailed ∨ NotModified resp → (f.handle J resp).2 = f :=
    fun h => hframe (h.resolve_left hun.not_failed)
  refine ⟨Or.inr (Or.inl ⟨hup, hun, hun.not_failed⟩),
    iff_of_false hup fun ⟨s, hs⟩ => hnone s hs,
    fun s => iff_of_false (by rw [hun.2]; simp) (hnone s), iff_of_true hun hreply,
    iff_of_false hun.not_failed ?_, fun h => absurd h hup, fun _ => hstatus, fun h => ?_,
    fun h ctx g hg => ?_⟩
  · rintro ⟨hok, hno⟩
    rcases hreply with h | ⟨s, hs, -⟩
    · exact hno h
    · exact hok s hs
  · rw [hkeep h]
    exact ⟨rfl, rfl⟩
  · rw [hkeep h] at hg
    exact (prepare_frame hg).2.1

/-- Any other reply. -/
theorem outcome_failed (hok : ∀ s, ¬ OkWith J resp s) (hno : ¬ NotModified resp) :
    Outcome J f resp (f.handle J resp).1 (f.handle J resp).2 := by
  obtain ⟨hfail, hframe⟩ := f.handle_failed hok hno
  have hup : ¬ (f.handle J resp).1.IsUpdated := fun h => h.not_failed hfail
  have hun : ¬ (f.handle J resp).1.IsUnchanged := fun h => h.not_failed hfail
  refine ⟨Or.inr (Or.inr ⟨hup, hun, hfail⟩), iff_of_false hup fun ⟨s, hs, _⟩ => hok s hs,
    fun s => iff_of_false (by rw [hfail.2]; simp) fun h => hok s h.1, iff_of_false hun ?_,
    iff_of_true hfail ⟨hok, hno⟩, fun h => absurd h hup, fun h => absurd h hun, fun _ => ?_,
    fun _ ctx g hg => ?_⟩
  · rintro (h | ⟨s, hs, -⟩)
    · exact hno h
    · exact hok s hs
  · rw [hframe]
    exact ⟨rfl, rfl⟩
  · rw [hframe] at hg
    exact (prepare_frame hg).2.1

theorem handle_outcome (J : JsonLib) (f : ToggleFetcher) (resp : HttpReply) :
    Outcome J f resp (f.handle J resp).1 (f.handle J resp).2 := by
  by_cases hno : NotModified resp
  · have hresult := f.handle_notModified (J := J) hno
    exact outcome_unchanged (by rw [hresult]; exact ⟨rfl, rfl⟩) (Or.inl hno)
      (Or.inl (by rw [hresult])) fun _ => by rw [hresult]
  by_cases hok : ∃ s, OkWith J resp s
  · obtain ⟨s, hs⟩ := hok
    by_cases hsize : s.size = 0
    · obtain ⟨herr, htoggles, hstatus⟩ := f.handle_ok hs
      rw [if_neg (by simpa using hsize)] at htoggles
      exact outcome_unchanged ⟨herr, htoggles⟩ (Or.inr ⟨s, hs, hsize⟩) (Or.inr hstatus)
        fun h => absurd h hno
    · exact outcome_updated hs hsize
  · exact outcome_failed (not_exists.mp hok) hno

/-- Writing the context into the request keeps the ETag and the headers: an outcome of the reply
    is one of the whole fetch. -/
theorem Outcome.of_prepared {g : ToggleFetcher} {result : FetchResult} {f' : ToggleFetcher}
    (h : Outcome J g resp result f') (hetag : g.etag = f.etag)
    (hheaders : g.httpRequest.headers = f.httpRequest.headers) : Outcome J f resp result f' :=
  ⟨h.one, h.updated, h.toggles, h.unchanged, h.failed, h.updatedStatus, h.unchangedStatus,
    fun hk => ⟨(h.frame hk).1.trans hetag, (h.frame hk).2.trans hheaders⟩,
    fun hk ctx k hg => (h.next hk ctx k hg).trans hheaders⟩

/-- **The outcome of a fetch.**  With a context of UTF-8 strings a fetch returns, whatever the
    fetcher and the reply; the result is of exactly one kind, which the reply decides, and after a
    failure or a "not modified" the ETag and all headers are what they were. -/
theorem fetch_outcome (J : JsonLib) (f : ToggleFetcher) (ctx : Context) (hctx : ctx.utf8 = true)
    (resp : HttpReply) :
    ∃ result f', f.fetch J ctx resp = some (result, f') ∧ Outcome J f resp result f' := by
  have hsome := f.prepare_isSome J ctx
  rw [hctx, Bool.or_true] at hsome
  obtain ⟨g, hg⟩ := Option.isSome_iff_exists.mp hsome
  obtain ⟨hetag, hheaders, -⟩ := prepare_frame hg
  refine ⟨_, _, ?_, (handle_outcome J g resp).of_prepared hetag hheaders⟩
  rw [fetch, hg]

/-- A reply with a new ETag whose body does not decode. -/
def badBody : HttpReply :=
  .http { status := 200, body := bytes "\x7b"
          headers := (∅ : KeyMap Bytes Bytes).insert (bytes "etag") (bytes "e2") }

theorem fetch_outcome_badBody :
    ∃ result f', UnleashClient.freshClient.toggleFetcher.fetch JsonText.compact
        UnleashClient.plainContext badBody = some (result, f') ∧
      Outcome JsonText.compact UnleashClient.freshClient.toggleFetcher badBody result f' :=
  fetch_outcome JsonText.compact _ UnleashClient.plainContext (by decide) badBody

end ToggleFetcher

end Unleash
