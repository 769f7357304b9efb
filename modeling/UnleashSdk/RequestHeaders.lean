/-
  THE HEADERS OF THE TWO SENDERS.

  The toggle fetcher and the metric sender build their headers from one configuration, each with
  its own list of writes; custom headers come last in both and override.  The lists differ in the
  order of two writes, which does not matter, and in one key, which does:

      fetcher    'unleash-connection-id'   ↦  the connection id        (quotes and all)
      sender      unleash-connection-id    ↦  the connection id

  So the two agree on every other name (`builtIn_agree`), and on these two exactly if something
  that both write under the same key overrides them: the client key or a custom header.
-/
import UnleashSdk.Fetcher

set_option linter.unusedVariables false

namespace Unleash

/-! ## The metric sender -/

/-- The request of a metric sender for this configuration. -/
def MetricSender.initializeHttpRequest (config : ClientConfig) : HttpRequest :=
  let headers : KeyMap Bytes Bytes := ∅
  let headers := headers.insert (bytes "accept") (bytes "application/json")
  let headers := headers.insert (bytes "unleash-connection-id") config.connectionId
  let headers := headers.insert (keysToLowerCase config.headerName) config.clientKey
  let headers := headers.insert (bytes "unleash-sdk") sdkVersion
  let headers := headers.insert (bytes "user-agent") agentVersion
  -- the request is always a POST
  let headers := headers.insert (bytes "content-type") (bytes "application/json")
  let headers := headers.insert (bytes "unleash-appname") config.appName
  { url := config.url ++ bytes "/client/metrics", usePOSTrequests := true,
    headers := addCustomHeaders headers config.customHeaders,
    timeoutMs := config.timeOutQueryMS }

/-! ## Custom headers -/

/-- The value of the last custom header with this name. -/
def customHeader (custom : KeyMap Bytes Bytes) (name : Bytes) : Option Bytes :=
  ((custom.entries.filter fun e => !e.1.isEmpty && keysToLowerCase e.1 = name).getLast?).map
    Sigma.snd

/-- Custom headers override. -/
theorem lookup_addCustomHeaders (headers custom : KeyMap Bytes Bytes) (name : Bytes) :
    (addCustomHeaders headers custom).lookup name =
      (customHeader custom name).or (headers.lookup name) := by
  unfold addCustomHeaders customHeader
  induction custom.entries using List.reverseRecOn with
  | nil => rfl
  | append_singleton es e ih =>
    rw [List.foldl_append, List.filter_append, List.getLast?_append, List.foldl_cons,
      List.foldl_nil]
    by_cases hempty : e.1.isEmpty = true
    · rw [if_pos hempty, List.filter_cons_of_neg (by simp [hempty])]
      exact ih
    · rw [if_neg hempty, KeyMap.lookup_insert]
      by_cases hname : keysToLowerCase e.1 = name
      · rw [if_pos hname.symm, List.filter_cons_of_pos (by simp [hempty, hname])]
        rfl
      · rw [if_neg (Ne.symm hname), List.filter_cons_of_neg (by simp [hname])]
        exact ih

theorem customHeader_eq_none (custom : KeyMap Bytes Bytes) (name : Bytes) :
    customHeader custom name = none ↔
      ∀ e ∈ custom.entries, e.1 ≠ [] → keysToLowerCase e.1 ≠ name := by
  rw [customHeader, Option.map_eq_none_iff, List.getLast?_eq_none_iff, List.filter_eq_nil_iff]
  simp

/-! ## Built-in headers -/

/-- The fetcher's headers, the custom ones apart; the last write comes first. -/
def fetcherHeader (config : ClientConfig) (name : Bytes) : Option Bytes :=
  if name = bytes "content-type" ∧ config.usePostRequests = true then
    some (bytes "application/json")
  else if name = bytes "unleash-appname" then some config.appName
  else if name = bytes "user-agent" then some agentVersion
  else if name = bytes "unleash-sdk" then some sdkVersion
  else if name = keysToLowerCase config.headerName then some config.clientKey
  else if name = bytes "'unleash-connection-id'" then some config.connectionId
  else if name = bytes "accept" then some (bytes "application/json")
  else none

/-- The sender's. -/
def senderHeader (config : ClientConfig) (name : Bytes) : Option Bytes :=
  if name = bytes "unleash-appname" then some config.appName
  else if name = bytes "content-type" then some (bytes "application/json")
  else if name = bytes "user-agent" then some agentVersion
  else if name = bytes "unleash-sdk" then some sdkVersion
  else if name = keysToLowerCase config.headerName then some config.clientKey
  else if name = bytes "unleash-connection-id" then some config.connectionId
  else if name = bytes "accept" then some (bytes "application/json")
  else none

theorem lookup_makeFrontendRequest (config : ClientConfig) (name : Bytes) :
    (makeFrontendRequest config []).headers.lookup name =
      (customHeader config.customHeaders name).or (fetcherHeader config name) := by
  unfold makeFrontendRequest fetcherHeader
  simp only [lookup_addCustomHeaders, List.isEmpty_nil, if_true]
  cases config.usePostRequests with
  | true => simp only [if_true, KeyMap.lookup_insert, AList.lookup_empty, and_true]
  | false =>
    simp only [Bool.false_eq_true, if_false, KeyMap.lookup_insert, AList.lookup_empty, and_false]

theorem lookup_initializeHttpRequest (config : ClientConfig) (name : Bytes) :
    (MetricSender.initializeHttpRequest config).headers.lookup name =
      (customHeader config.customHeaders name).or (senderHeader config name) := by
  unfold MetricSender.initializeHttpRequest senderHeader
  simp only [lookup_addCustomHeaders, KeyMap.lookup_insert, AList.lookup_empty]

/-! ## Agreement -/

/-- The key of the fetcher and that of the sender. -/
def quotedConnectionId : Bytes := bytes "'unleash-connection-id'"
def connectionIdHeader : Bytes := bytes "unleash-connection-id"

/-- The client key or a custom header is written under this name. -/
def Overridden (config : ClientConfig) (name : Bytes) : Prop :=
  keysToLowerCase config.headerName = name ∨
  ∃ e ∈ config.customHeaders.entries, e.1 ≠ [] ∧ keysToLowerCase e.1 = name

/-- Both requests have the same headers; the content type need only be the same if both have a
    body. -/
def SameHeaders (config : ClientConfig) : Prop :=
  (∀ name, name ≠ bytes "content-type" →
    (makeFrontendRequest config []).headers.lookup name =
      (MetricSender.initializeHttpRequest config).headers.lookup name) ∧
  (config.usePostRequests = true →
    (makeFrontendRequest config []).headers.lookup (bytes "content-type") =
      (MetricSender.initializeHttpRequest config).headers.lookup (bytes "content-type"))

/-- The lists of writes agree on every name but the two keys. -/
theorem builtIn_agree (config : ClientConfig) {name : Bytes}
    (hquoted : name ≠ quotedConnectionId) (hid : name ≠ connectionIdHeader)
    (htype : name = bytes "content-type" → config.usePostRequests = true) :
    fetcherHeader config name = senderHeader config name := by
  have hne : bytes "unleash-appname" ≠ bytes "content-type" := by decide
  unfold quotedConnectionId at hquoted
  unfold connectionIdHeader at hid
  unfold fetcherHeader senderHeader
  by_cases hname : name = bytes "content-type"
  · rw [if_pos ⟨hname, htype hname⟩, if_neg (by rw [hname]; exact Ne.symm hne), if_pos hname]
  · rw [if_neg (fun h => hname h.1), if_neg hname, if_neg hquoted, if_neg hid]

/-- Under a name that only one of them writes, they agree exactly if the client key is there. -/
theorem ite_agree {c : Prop} [Decidable c] {key value : Bytes} :
    (if c then some key else some value) = (if c then some key else none) ↔ c := by
  by_cases h : c
  · simp [h]
  · simp [h]

theorem builtIn_quoted (config : ClientConfig) :
    fetcherHeader config quotedConnectionId = senderHeader config quotedConnectionId ↔
      keysToLowerCase config.headerName = quotedConnectionId := by
  have hfetcher : fetcherHeader config quotedConnectionId =
      if quotedConnectionId = keysToLowerCase config.headerName then some config.clientKey
      else some config.connectionId := by
    unfold fetcherHeader
    rw [if_neg fun h => absurd h.1 (by decide), if_neg (by decide), if_neg (by decide),
      if_neg (by decide),
      if_pos (show quotedConnectionId = bytes "'unleash-connection-id'" from rfl)]
  have hsender : senderHeader config quotedConnectionId =
      if quotedConnectionId = keysToLowerCase config.headerName then some config.clientKey
      else none := by
    unfold senderHeader
    rw [if_neg (by decide), if_neg (by decide), if_neg (by decide), if_neg (by decide),
      if_neg (show quotedConnectionId ≠ bytes "unleash-connection-id" by decide),
      if_neg (show quotedConnectionId ≠ bytes "accept" by decide)]
  rw [hfetcher, hsender, ite_agree, eq_comm]

theorem builtIn_connectionId (config : ClientConfig) :
    fetcherHeader config connectionIdHeader = senderHeader config connectionIdHeader ↔
      keysToLowerCase config.headerName = connectionIdHeader := by
  have hfetcher : fetcherHeader config connectionIdHeader =
      if connectionIdHeader = keysToLowerCase config.headerName then some config.clientKey
      else none := by
    unfold fetcherHeader
    rw [if_neg fun h => absurd h.1 (by decide), if_neg (by decide), if_neg (by decide),
      if_neg (by decide),
      if_neg (show connectionIdHeader ≠ bytes "'unleash-connection-id'" by decide),
      if_neg (show connectionIdHeader ≠ bytes "accept" by decide)]
  have hsender : senderHeader config connectionIdHeader =
      if connectionIdHeader = keysToLowerCase config.headerName then some config.clientKey
      else some config.connectionId := by
    unfold senderHeader
    rw [if_neg (by decide), if_neg (by decide), if_neg (by decide), if_neg (by decide),
      if_pos (show connectionIdHeader = bytes "unleash-connection-id" from rfl)]
  rw [hfetcher, hsender, eq_comm, ite_agree, eq_comm]

/-- A header is the same in both requests if a custom one overrides it, or if it was. -/
theorem lookup_eq_iff (config : ClientConfig) (name : Bytes) :
    (makeFrontendRequest config []).headers.lookup name =
        (MetricSender.initializeHttpRequest config).headers.lookup name ↔
      customHeader config.customHeaders name ≠ none ∨
        fetcherHeader config name = senderHeader config name := by
  rw [lookup_makeFrontendRequest, lookup_initializeHttpRequest]
  cases customHeader config.customHeaders name with
  | none => simp
  | some value => simp

theorem overridden_iff (config : ClientConfig) (name : Bytes) :
    Overridden config name ↔ customHeader config.customHeaders name ≠ none ∨
      keysToLowerCase config.headerName = name := by
  rw [Ne, customHeader_eq_none, Overridden, or_comm]
  simp

/-- **The two senders.**  Their headers are the same exactly if the client key or a custom header
    is written under both keys of the connection id, the fetcher's with quotes and the
    sender's. -/
theorem same_headers_iff (config : ClientConfig) :
    SameHeaders config ↔
      Overridden config quotedConnectionId ∧ Overridden config connectionIdHeader := by
  have hquoted : quotedConnectionId ≠ bytes "content-type" := by decide
  have hid : connectionIdHeader ≠ bytes "content-type" := by decide
  rw [overridden_iff, overridden_iff, ← builtIn_quoted, ← builtIn_connectionId, ← lookup_eq_iff,
    ← lookup_eq_iff]
  constructor
  · rintro ⟨hsame, -⟩
    exact ⟨hsame _ hquoted, hsame _ hid⟩
  · rintro ⟨hsameQuoted, hsameId⟩
    refine ⟨fun name htype => ?_, fun hpost => ?_⟩
    · by_cases h₁ : name = quotedConnectionId
      · rw [h₁]
        exact hsameQuoted
      by_cases h₂ : name = connectionIdHeader
      · rw [h₂]
        exact hsameId
      exact (lookup_eq_iff config name).mpr
        (Or.inr (builtIn_agree config h₁ h₂ fun h => absurd h htype))
    · exact (lookup_eq_iff config _).mpr
        (Or.inr (builtIn_agree config hquoted.symm hid.symm fun _ => hpost))

/-- The configuration of the README. -/
def readmeConfig : ClientConfig :=
  ClientConfig.make (bytes "http://localhost:4242/api/frontend") (bytes "key") (bytes "app")
    (bytes "id")

/-- The sender of this configuration identifies its connection and the fetcher does not, or under
    a name of its own. -/
theorem readmeConfig_headers_differ :
    ¬ SameHeaders readmeConfig ∧
    (makeFrontendRequest readmeConfig []).headers.lookup connectionIdHeader = none ∧
    (makeFrontendRequest readmeConfig []).headers.lookup quotedConnectionId = some (bytes "id") ∧
    (MetricSender.initializeHttpRequest readmeConfig).headers.lookup connectionIdHeader =
      some (bytes "id") := by
  have hfetcher :
      (makeFrontendRequest readmeConfig []).headers.lookup connectionIdHeader = none := by
    rw [lookup_makeFrontendRequest]
    decide
  have hsender : (MetricSender.initializeHttpRequest readmeConfig).headers.lookup
      connectionIdHeader = some (bytes "id") := by
    rw [lookup_initializeHttpRequest]
    decide
  refine ⟨fun h => ?_, hfetcher, ?_, hsender⟩
  · have hsame := h.1 connectionIdHeader (by decide)
    rw [hfetcher, hsender] at hsame
    cases hsame
  · rw [lookup_makeFrontendRequest]
    decide

end Unleash
