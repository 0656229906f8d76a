import OllamaQueueProxy.Proxy.Messages

/-!
# Dispatch

What `dispatch_request` does before it enters the loop over the hosts: it refuses the paths
of the model management, and composes the request that every host it tries is sent.

The HTTP client removes the dot segments of the path of a URL and keeps its percent
escapes, and the upstream server decodes them once more.  The check sees none of this, so a
path with an escape or a dot segment may pass it and reach the model management
(`protected_iff`).
-/

open Url (Octets ascii)

namespace OllamaQueueProxy

/-- The arguments of a call of `dispatch_request`. -/
structure DispatchCall where
  request : Request
  body : Bytes
  clientId : Option String
  pathOverride : Option Octets

/-- What the HTTP client is called with.  The URL is the one of a host followed by `path`,
and `?` and `query` unless that is empty. -/
structure Outgoing where
  method : String
  path : Octets
  query : Octets
  headers : Dict String String
  content : Option Bytes

/-- `_MODEL_MANAGEMENT_PATHS`. -/
def modelManagementPaths : List Octets :=
  [ascii "/api/pull", ascii "/api/push", ascii "/api/delete", ascii "/api/create",
    ascii "/api/copy"]

/-- `_STRIP_REQUEST_HEADERS`. -/
def stripRequestHeaders : List String :=
  ["x-queue-priority", "authorization", "host", "content-length", "transfer-encoding"]

namespace DispatchCall

def path (c : DispatchCall) : Octets := c.pathOverride.getD c.request.urlPath

def forwardHeaders (c : DispatchCall) : Dict String String :=
  let kept : Dict String String := Dict.ofList
    ((c.request.headers.filter fun h => !stripRequestHeaders.contains h.1.toLower).map
      fun h => (h.1.toLower, h.2))
  match c.clientId with
  | some clientId => if clientId.isEmpty then kept else Dict.set kept "x-client-id" clientId
  | none => kept

/-- The request that is sent to the hosts, unless the path is refused. -/
def outgoing (cfg : ProxyConfig) (c : DispatchCall) : Except Response Outgoing :=
  if modelManagementPaths.contains c.path ∧ cfg.allowModelManagement = false then
    .error (.error 403 ("model management endpoints are disabled; " ++
      "set allow_model_management: true in config to enable") c.request.requestId [])
  else .ok {
    method := c.request.method
    path := c.path
    query := c.request.urlQuery
    headers := c.forwardHeaders
    content := if c.body.truthy then some c.body else none }

end DispatchCall

/-! ### The path that the upstream server sees -/

/-- An HTTP client, by the path in the request that it sends for a URL with the given path;
`none` if it refuses the URL. -/
abbrev HttpClient : Type := Octets → Option Octets

/-- What is known of the request for a URL with the path: the dot segments are removed, octets
that may not stand there are escaped, and escapes are kept.  Octets that are no UTF-8 are
replaced by others, so it is the paths of ASCII characters that are decoded from it as they are
from the path itself. -/
def HttpClient.Normalizes (client : HttpClient) (p : Octets) : Prop :=
  ∀ sent, client p = some sent → ∀ ascii : Octets, (∀ c ∈ ascii, c < 128) →
    (Url.decode sent = ascii ↔ Url.decode (Url.requestPath p) = ascii)

/-- The path that the upstream server sees, if the request is sent to a host with the given path
in its URL. -/
def Outgoing.receivedPath? (client : HttpClient) (base : Octets) (o : Outgoing) :
    Option Octets :=
  (client (base ++ o.path)).map Url.decode

end OllamaQueueProxy
