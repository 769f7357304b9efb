/-
  THE TRANSPORT: what an HTTP client hands back.

  A call of the client returns a pointer to a response of one of several classes, or no pointer
  at all: `HttpReply`.  The toggle fetcher and the metric sender start by sorting such a reply in
  the same way and with the same error texts; that part is `checkReply`.
-/
import Mathlib.Data.List.AList
import UnleashSdk.Lib.Decimal
import UnleashSdk.Lib.KeyMap

set_option linter.unusedVariables false

namespace Unleash

open Decimal (printInt)

/-- The error codes of the transport. -/
inductive ComErrorEnum where
  | typeMismatch
  | variableMismatch
  | networkError
  | initializationError
  deriving DecidableEq

/-- The number of an error code. -/
def ComErrorEnum.toInt : ComErrorEnum → Int
  | .typeMismatch => 0
  | .variableMismatch => 1
  | .networkError => 2
  | .initializationError => 3

/-- A response of an HTTP server; its status is a C++ `long`. -/
structure HttpResponse where
  status : Int64 := 0
  headers : KeyMap Bytes Bytes := ∅
  body : Bytes := []
  errorMessage : Bytes := []

/-- What a request comes back with: no pointer, an `ErrorResponse`, an `HttpResponse`, or a
    response of some other class. -/
inductive HttpReply where
  | null
  | error (code : ComErrorEnum) (message : Bytes)
  | http (response : HttpResponse)
  | other

/-- Bounds of the statuses that mean success, and the status of "not modified". -/
def httpStatusOkLower : Int64 := 200
def httpStatusOkUpper : Int64 := 300
def httpStatusNoUpdate : Int64 := 304

/-- A status that means success. -/
def isOkStatus (status : Int64) : Bool :=
  httpStatusOkLower ≤ status && status < httpStatusOkUpper

theorem isOkStatus_iff {status : Int64} :
    isOkStatus status = true ↔ 200 ≤ status ∧ status < 300 := by
  rw [isOkStatus, Bool.and_eq_true, decide_eq_true_eq, decide_eq_true_eq]
  exact Iff.rfl

/-- A reply without a usable HTTP response fails with a status and a text. -/
def checkReply (resp : HttpReply) : Except (Int32 × Bytes) HttpResponse :=
  match resp with
  | .null => .error (-1, bytes "Error: null response from HttpClient")
  | .error code message =>
    .error (-1, bytes "Request failed with code error <" ++ printInt code.toInt ++
      bytes "> and message:\n " ++ message)
  | .other => .error (-1, bytes "Error: The resulting response is not of type: HttpResponse.")
  | .http httpResponse =>
    if httpResponse.status = 0 then
      .error (httpResponse.status.toInt32,
        bytes "Transport error (status=0). Network failure / DNS / connection refused / etc.")
    else .ok httpResponse

theorem checkReply_ok {resp : HttpReply} {r : HttpResponse} (h : checkReply resp = .ok r) :
    resp = .http r ∧ r.status ≠ 0 := by
  unfold checkReply at h
  split at h
  · nomatch h
  · nomatch h
  · nomatch h
  · split at h
    · nomatch h
    · rename_i hne
      cases h
      exact ⟨rfl, hne⟩

end Unleash
