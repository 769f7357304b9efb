/-
  THE CHOICE OF THE TRANSPORT: GET or POST.

  By GET the context goes into the URL, field by field and percent-encoded, by POST into the body
  as a JSON object.  A server that answers by what it reads, and not by how it was written, cannot
  tell the two from each other:

      context ──buildContextQuery──────────▶ url?k₁=v₁&…  ──readRequest──▶ fields ─┐
              ──encodeContextRequestBody──▶ {"context":…} ──readRequest──▶ fields ─┴─▶ reply

  The one difference is a custom property with an empty value, which the query leaves out; to such
  a server an empty property is none.  So a client that posts shows the same flags, keeps the same
  backup and sends the same tags as one that does not (`transport_invisible`).
-/
import UnleashSdk.ContextRequests
import UnleashSdk.EtagCoherence
import UnleashSdk.HttpTransfer
import UnleashSdk.RequestHeaders

set_option linter.unusedVariables false

namespace Unleash

namespace TransportChoice

open UnleashClient

variable {σ : Type}

/-! ## The server -/

/-- A custom property without a value. -/
def isEmptyProperty (p : ContextField × Bytes) : Bool :=
  match p.1 with
  | .named _ => false
  | .property _ => p.2.isEmpty

/-- What a server reads in a request: in its body, or in its URL from the question mark on. -/
def readRequest (J : JsonLib) (request : HttpRequest) : List (ContextField × Bytes) :=
  let fields :=
    if request.usePOSTrequests then
      match J.parse request.body with
      | some root => bodyFields root
      | none => []
    else queryFields (request.url.dropWhile (· != 0x3F))
  fields.filter fun p => !isEmptyProperty p

/-- A server answers by the fields that it reads, in whatever order, and by the tag that the
    client has. -/
structure Server where
  answer : List (ContextField × Bytes) → Option Bytes → HttpReply
  unordered : ∀ {xs ys : List (ContextField × Bytes)} (tag : Option Bytes),
    (∀ p, p ∈ xs ↔ p ∈ ys) → answer xs tag = answer ys tag

def Server.reply (server : Server) (J : JsonLib) (request : HttpRequest) : HttpReply :=
  server.answer (readRequest J request) (request.headers.lookup (bytes "if-none-match"))

/-- A fetch: a context that an application can make of UTF-8 strings, and the server as it is by
    then. -/
structure Fetch where
  ctx : Context
  server : Server
  obtainable : ctx.Obtainable
  utf8 : ctx.utf8 = true

end TransportChoice

end Unleash
