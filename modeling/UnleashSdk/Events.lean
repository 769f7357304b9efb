/-
  THE EVENTS of a client, with what each carries to its callback.
-/
import UnleashSdk.Context

set_option linter.unusedVariables false

namespace Unleash

structure ClientError where
  message : Bytes
  details : Bytes

structure ClientImpression where
  ctx : Context
  flagName : Bytes
  enabled : Bool
  eventType : Bytes
  impressionData : Bool
  variant : Bytes := []

/-- The kinds of events, one callback slot for each. -/
inductive EventKind where
  | init
  | error
  | ready
  | update
  | impression
  deriving DecidableEq

/-- An event with the argument of its callback. -/
inductive ClientEvent where
  | init
  | error (err : ClientError)
  | ready
  | update
  | impression (event : ClientImpression)

def ClientEvent.kind : ClientEvent → EventKind
  | .init => .init
  | .error _ => .error
  | .ready => .ready
  | .update => .update
  | .impression _ => .impression

end Unleash
