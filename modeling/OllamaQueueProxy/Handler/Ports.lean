import OllamaQueueProxy.Handler.Auth
import OllamaQueueProxy.Handler.Enqueue

/-!
# The ports

The handlers of the two kinds of ports: `proxy_handler` on the main port, which
authenticates the request, and `injection_handler` on the port of a listener, which stands
for a fixed key.  `ports` are the applications that `run` serves.  Their handlers are those of
catch-all routes, which come after the routes for fixed paths.
-/

open Url (Octets ascii)
open Json (Text text)

namespace OllamaQueueProxy

/-! ### The response of the compatibility layer -/

/-- The elements over which `enumerate` runs for the value of `embeddings`; `none` if it
raises `TypeError`. -/
def embeddingsOf? (fields : Fields) : Option (List Json) :=
  match Dict.get? fields (text "embeddings") with
  | none => some []
  | some j =>
      if j.truthy = false then some []
      else match j with
        | .array elements => some elements
        | .string s => some (s.map fun c => .string [c])
        | .object entries => some (entries.map fun e => .string e.1)
        | _ => none

/-- An element of `data`. -/
def wrapEmbedding (index : ℕ) (embedding : Json) : Json :=
  .object [(text "object", .string (text "embedding")), (text "embedding", embedding),
    (text "index", .number (.ofNat index))]

/-- `wrap_response`; `none` if it raises an exception. -/
def wrapResponse : Json → Option Json
  | .object fields => (embeddingsOf? fields).map fun embeddings => .object [
      (text "object", .string (text "list")),
      (text "data", .array (embeddings.mapIdx wrapEmbedding)),
      (text "model", (Dict.get? fields (text "model")).getD (.string [])),
      (text "usage", .object [(text "prompt_tokens", .number (.ofNat 0)),
        (text "total_tokens", .number (.ofNat 0))])]
  | _ => none

/-- Successful JSON responses are wrapped, others are passed through. -/
def wrapOutcome : Outcome → Outcome
  | .raised => .raised
  | .response r => match r.content with
    | .json content =>
        if r.statusCode = 200 then match wrapResponse content with
          | some wrapped => .response ⟨200, .json wrapped, []⟩
          | none => .raised
        else .response r
    | .stream => .response r

theorem wrapOutcome_of_ne {r : Response} (h : r.statusCode ≠ 200) :
  wrapOutcome (.response r) = .response r
  := by
  unfold wrapOutcome
  dsimp only
  split
  · rw [if_neg h]
  · rfl

/-! ### The handlers -/

variable (digest : Text → Text)

/-- The answer while the application shuts down. -/
def shuttingDown (r : Request) : Outcome :=
  .response (.error 503 "proxy is shutting down" r.requestId [])

/-- The client that a request on the main port is attributed to. -/
def resolveClientId (cfg : AuthConfig) (r : Request) : Option ApiKeyConfig → Option String
  | some keyCfg => if cfg.enabled then some keyCfg.clientId else r.getClientId
  | none => r.getClientId

/-- The part of `proxy_handler` after the authentication. -/
def proxyAuthenticated (cfg : Config) (r : Request) (keyCfg : Option ApiKeyConfig) :
    Handler Outcome :=
  let clientId := resolveClientId cfg.auth r keyCfg
  let tier := AuthManager.enforcePriorityCeiling r.parsePriority keyCfg
  match r.nativePath with
  | some nativePath => do
      let outcome ← enqueueRequest digest cfg r clientId tier (some nativePath) keyCfg
      return wrapOutcome outcome
  | none => enqueueRequest digest cfg r clientId tier none keyCfg

def proxyHandler (cfg : Config) (r : Request) : Handler Outcome := do
  if ← ask .shuttingDown then return shuttingDown r
  else match ← (AuthManager.new cfg.auth).authenticate r with
    | .raised => return .raised
    | .refused response => return .response response
    | .passed keyCfg => proxyAuthenticated digest cfg r keyCfg

/-- The tier of a request on the port of a listener. -/
def injectionTier (r : Request) (keyCfg : ApiKeyConfig) : Tier :=
  if keyCfg.maxPriority < r.parsePriority then keyCfg.maxPriority else r.parsePriority

def injectionHandler (cfg : Config) (injectAs : String) (keyCfg : ApiKeyConfig) (r : Request) :
    Handler Outcome := do
  if !(← ask .sharedState) then
    return .response ⟨503, .json (.object [(text "error",
      .string (text "proxy is starting up, retry shortly"))]), []⟩
  else if ← ask .shuttingDown then return shuttingDown r
  else enqueueRequest digest cfg r (some injectAs) (injectionTier r keyCfg) none (some keyCfg)

/-! ### The applications -/

/-- An application that serves a port. -/
inductive Port where
  | main
  /-- The application of a listener, with the key for which it stands. -/
  | injection (injectAs : String) (keyCfg : ApiKeyConfig)

/-- The application made for a listener, if its key is known. -/
def Config.injectionPort? (cfg : Config) (l : InjectionListenerConfig) : Option Port :=
  (cfg.auth.keyOf? l.injectAs).map fun keyCfg => .injection l.injectAs keyCfg

/-- The applications that `run` serves. -/
def Config.ports (cfg : Config) : List Port :=
  .main :: cfg.listeners.filterMap cfg.injectionPort?

/-- A route for a path, and the methods it is for. -/
structure FixedRoute where
  methods : List String
  path : Octets

/-- The route answers the request. -/
def FixedRoute.answers (route : FixedRoute) (r : Request) : Bool :=
  route.methods.contains r.method && r.matchedPath == route.path

/-- The routes that `FastAPI` adds to every application. -/
def documentationRoutes : List FixedRoute :=
  ["/openapi.json", "/docs", "/docs/oauth2-redirect", "/redoc"].map fun path =>
    ⟨["GET", "HEAD"], ascii path⟩

/-- The routes that show something of the application to requests with the scope `read`. -/
def inspectionRoutes : List FixedRoute :=
  ["/queue/status", "/queue/summary", "/metrics", "/dashboard"].map fun path =>
    ⟨["GET"], ascii path⟩

/-- The routes of `queue_router`. -/
def queueRoutes : List FixedRoute :=
  ["/queue/pause", "/queue/resume", "/queue/drain", "/queue/flush"].map fun path =>
    ⟨["POST"], ascii path⟩

/-- The routes that come before the catch-all one of a port. -/
def Port.fixedRoutes : Port → List FixedRoute
  | .main => documentationRoutes ++ ⟨["GET"], ascii "/health"⟩ :: inspectionRoutes ++ queueRoutes
  | .injection _ _ => documentationRoutes

/-- The methods of the catch-all routes. -/
def catchAllMethods : List String := ["GET", "POST", "PUT", "DELETE", "PATCH", "HEAD", "OPTIONS"]

/-- The request reaches the catch-all route of the port. -/
def Port.catches (port : Port) (r : Request) : Bool :=
  catchAllMethods.contains r.method && r.isMatched && !port.fixedRoutes.any (·.answers r)

/-- The handler of the catch-all route of a port. -/
def handle (cfg : Config) : Port → Request → Handler Outcome
  | .main, r => proxyHandler digest cfg r
  | .injection injectAs keyCfg, r => injectionHandler digest cfg injectAs keyCfg r

theorem keyOf?_eq_some {cfg : AuthConfig} {clientId : String} {k : ApiKeyConfig}
    (h : cfg.keyOf? clientId = some k) :
  k ∈ cfg.keys ∧ k.clientId = clientId
  := by
  constructor
  · exact List.mem_reverse.mp (List.mem_of_find?_eq_some h)
  · simpa using List.find?_some h

/-- With an accepted configuration, every listener is served. -/
theorem exists_injectionPort (cfg : Config) {l : InjectionListenerConfig}
    (h : l ∈ cfg.listeners) :
  ∃ k ∈ cfg.auth.keys, k.clientId = l.injectAs ∧ .injection l.injectAs k ∈ cfg.ports
  := by
  obtain ⟨k₀, hk₀, hclient⟩ := cfg.injectAsRefs l h
  have hsome : (cfg.auth.keyOf? l.injectAs).isSome = true := by
    rw [AuthConfig.keyOf?, List.find?_isSome]
    exact ⟨k₀, List.mem_reverse.mpr hk₀, by simpa using hclient⟩
  obtain ⟨k, hk⟩ := Option.isSome_iff_exists.mp hsome
  obtain ⟨hmem, hclient'⟩ := keyOf?_eq_some hk
  use k, hmem, hclient'
  apply List.mem_cons_of_mem
  apply List.mem_filterMap.mpr
  exact ⟨l, h, by rw [Config.injectionPort?, hk]; rfl⟩

/-- The application of an injection port was made for a listener. -/
theorem exists_listener {cfg : Config} {injectAs : String} {k : ApiKeyConfig}
    (h : .injection injectAs k ∈ cfg.ports) :
  ∃ l ∈ cfg.listeners, cfg.auth.keyOf? l.injectAs = some k ∧ l.injectAs = injectAs
  := by
  obtain hmain | hlistener := List.mem_cons.mp h
  · cases hmain
  · obtain ⟨l, hl, hport⟩ := List.mem_filterMap.mp hlistener
    obtain ⟨k', hk', hsame⟩ := Option.map_eq_some_iff.mp hport
    obtain ⟨rfl, rfl⟩ : l.injectAs = injectAs ∧ k' = k := by simpa using hsame
    exact ⟨l, hl, hk', rfl⟩

end OllamaQueueProxy
