/-
  THE CLIENT'S CONFIGURATION.

  The fields of a `ClientConfig` with the defaults of the source.  An empty application name is
  replaced by the default one when a configuration is made, so `ClientConfig` carries that as a
  field.
-/
import UnleashSdk.Context
import UnleashSdk.Domain
import UnleashSdk.Lib.KeyMap

set_option linter.unusedVariables false

namespace Unleash

/-- `utils::defaultHeadeName` and `utils::defaultInstanceId`. -/
def defaultHeadeName : Bytes := bytes "authorization"
def defaultInstanceId : Bytes := bytes "cppApplication"

/-- Toggles that the application supplies, under keys of its choice. -/
structure Bootstrap where
  map : KeyMap Bytes Toggle

structure ClientConfig where
  url : Bytes
  clientKey : Bytes
  appName : Bytes
  connectionId : Bytes
  refreshInterval : Int64 := 15
  metricsInterval : Int64 := 60
  metricsIntervalInitial : Int64 := 0
  bootstrap : Option Bootstrap := none
  bootstrapOverride : Bool := true
  headerName : Bytes := defaultHeadeName
  customHeaders : KeyMap Bytes Bytes := ∅
  impressionDataAll : Bool := false
  usePostRequests : Bool := false
  instanceId : Bytes := defaultInstanceId
  timeOutQueryMS : Int64 := 5000
  appName_ne_nil : appName ≠ []

namespace ClientConfig

/-- The constructor; `connectionId` is the identifier that `uuidv4Generator` draws. -/
def make (url clientKey appName connectionId : Bytes) : ClientConfig where
  url := url
  clientKey := clientKey
  appName := if appName.isEmpty then defaultAppName else appName
  connectionId := connectionId
  appName_ne_nil := by
    split
    · decide
    · rename_i h
      simpa using h

def isRefreshEnabled (c : ClientConfig) : Bool := 0 < c.refreshInterval

def isMetricsEnabled (c : ClientConfig) : Bool := 0 < c.metricsInterval

def isValid (c : ClientConfig) : Bool :=
  if c.url.isEmpty || c.clientKey.isEmpty || c.refreshInterval < 0 || c.metricsInterval < 0 ||
      c.metricsIntervalInitial < 0 then
    false
  else true

/-- The toggles of a bootstrap that overrides, if it has any. -/
def overridingBootstrap (c : ClientConfig) : Option ToggleSet :=
  match c.bootstrap with
  | none => none
  | some b =>
    if c.bootstrapOverride && !b.map.entries.isEmpty then some (ToggleSet.ofMap b.map) else none

end ClientConfig

end Unleash
