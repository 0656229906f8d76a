import OllamaQueueProxy.Cache.Key
import OllamaQueueProxy.Library.Unicode

/-!
# The way of a request

`_enqueue_request`, which both kinds of ports share: it refuses keys without the scope
`inference`, buffers the body, answers from the embedding cache or enqueues an item and
awaits its future.
-/

open Url (Octets ascii)
open Json (Text text)

namespace OllamaQueueProxy

/-! ### The body -/

/-- Whether the character is white space for `int`. -/
def isSpace (c : Char) : Bool :=
  c.toNat = 32 || (9 ≤ c.toNat && c.toNat ≤ 13) || c.toNat = 133 || c.toNat = 160

/-- Digits with single underscores between them, after digits of the value `acc`. -/
def parseDigits? (acc : ℕ) (afterDigit : Bool) : List Char → Option ℕ
  | [] => if afterDigit then some acc else none
  | c :: cs =>
      if c = '_' then if afterDigit then parseDigits? acc false cs else none
      else if c.isDigit then parseDigits? (10 * acc + (c.toNat - 48)) true cs
      else none

/-- `int` for a string of Latin-1 characters, as the values of headers are. -/
def parseInt? (s : String) : Option ℤ :=
  if maxDigits < (s.toList.filter Char.isDigit).length then none
  else match ((s.toList.dropWhile isSpace).reverse.dropWhile isSpace).reverse with
  | '-' :: digits => (parseDigits? 0 false digits).map fun n => -(n : ℤ)
  | '+' :: digits => (parseDigits? 0 false digits).map fun n => (n : ℤ)
  | digits => (parseDigits? 0 false digits).map fun n => (n : ℤ)

/-- The chunks of a body do not exceed a limit, after chunks of a total length. -/
def chunksFit (maxBytes : ℤ) (total : ℕ) : List ℕ → Bool
  | [] => true
  | chunk :: chunks =>
      if maxBytes < total + chunk then false else chunksFit maxBytes (total + chunk) chunks

/-- The size of a body of `max_mb`. -/
def maxBytes (maxMb : ℤ) : ℤ := maxMb * 1024 * 1024

/-- `read_body`. -/
def readBody (r : Request) (maxMb : ℤ) : Except Response Bytes :=
  let tooLarge : Response := .error 413 "request body too large" r.requestId []
  let contentLength := (r.header? "content-length").bind parseInt?
  if contentLength.any fun n => maxBytes maxMb < n then .error tooLarge
  else if chunksFit (maxBytes maxMb) 0 r.chunks then .ok r.body
  else .error tooLarge

theorem readBody_eq_ok {r : Request} {maxMb : ℤ} {body : Bytes}
    (hread : readBody r maxMb = .ok body) :
  body = r.body
  := by
  simp only [readBody] at hread
  split_ifs at hread
  exact (Except.ok.inj hread).symm

theorem statusCode_readBody {r : Request} {maxMb : ℤ} {response : Response}
    (hread : readBody r maxMb = .error response) :
  response.statusCode = 413
  := by
  simp only [readBody] at hread
  split_ifs at hread
  all_goals
    obtain rfl := Except.error.inj hread
    rfl

/-- `_KEEP_ALIVE_PATHS`. -/
def keepAlivePaths : List Octets :=
  [ascii "/api/generate", ascii "/api/chat", ascii "/api/embed", ascii "/api/embeddings"]

/-- `_inject_keep_alive`. -/
def injectKeepAlive (body : Bytes) (cfg : KeepAliveConfig) (maxMb : ℤ) : Bytes :=
  if maxBytes maxMb < body.length then body
  else match body.json with
    | some (.object fields) =>
        if cfg.override = true ∨ Dict.get? fields (text "keep_alive") = none then
          .dumps Json.escapeAscii (.object
            (Dict.set fields (text "keep_alive") (.string (text cfg.default))))
        else .dumps Json.escapeAscii (.object fields)
    | _ => body

/-! ### The cache -/

/-- What `_enqueue_request` keeps of a request whose answer may be cached. -/
structure CacheEntry where
  path : Octets
  fields : Fields
  model : Json

/-- The entry of a request, if the cache is enabled and its path is cacheable.  A body that
is no JSON counts as an empty object. -/
def toCache? (cfg : EmbeddingCacheConfig) (path : Octets) (body : Bytes) :
    Option CacheEntry :=
  if cfg.enabled && cacheablePaths.contains path then
    match body.json.getD (.object []) with
    | .object fields => some ⟨path, fields, cacheModel body⟩
    | _ => none
  else none

/-- The statistics of the client are updated, if it is known. -/
def count (stat : ClientStat) : Option String → Handler Unit
  | some clientId => if clientId.isEmpty then return () else ask (.count stat clientId)
  | none => return ()

variable (digest : Text → Text) (cfg : EmbeddingCacheConfig)

def lookup (entry : Option CacheEntry) (clientId : Option String) : Handler (Option Bytes) :=
  match entry with
  | some e => EmbeddingCache.get digest cfg e.path e.fields e.model clientId
  | none => return none

/-- The answer from the cache.  An exception is raised by `json.loads` if it is no JSON, and by
`JSONResponse` if it cannot be rendered. -/
def cacheHit (cached : Bytes) : Outcome :=
  match cached.json with
  | some content =>
      if content.render?.isSome then .response ⟨200, .json content, [("X-Cache", "HIT")]⟩
      else .raised
  | none => .raised

/-- A successful answer with JSON content is stored. -/
def store (entry : Option CacheEntry) (response : Response) : Handler Unit :=
  match entry, response.content with
  | some e, .json content =>
      if response.statusCode = 200 then
        EmbeddingCache.set digest cfg e.path e.fields e.model (.dumps Json.escape content)
      else return ()
  | _, _ => return ()

/-! ### The queue -/

/-- `scope_denied`. -/
def scopeDenied (r : Request) (required : String) : Response :=
  .error 403 (required ++ " permission required") r.requestId []

/-- The answer to a request that `enqueue` refused. -/
def refusal (r : Request) (clientId : Option String) : EnqueueError → Handler Outcome
  | .queueFull tier statusCode => do
      let retryAfter ← ask (.retryAfter tier)
      count .rejected clientId
      return .response (.error statusCode "queue full" r.requestId
        [("Retry-After", toString retryAfter)])
  | .queueOverCapacity tier statusCode => do
      let retryAfter ← ask (.retryAfter tier)
      count .rejected clientId
      return .response (.error statusCode "queue over capacity (bytes)" r.requestId
        [("Retry-After", toString retryAfter)])
  | .queuePaused tier =>
      return .response (.error 503 ("queue tier '" ++ tier.name ++ "' is paused") r.requestId [])
  | .zeroDivision => return .raised

/-- The answer to a request whose future has an exception. -/
def failure (r : Request) : FutureException Unit → Response
  | .requestExpired _ requestId => .error 503 "request expired in queue" requestId []
  | .queueFlushed _ | .dispatch _ => .error 503 "upstream error" r.requestId []

/-- The headers that tell how long the request waited. -/
def Response.setWait (response : Response) (waitMs : ℤ) (position : ℕ) : Response :=
  let response := response.setHeader "X-Queue-Wait-Time" (toString waitMs)
  if 0 < waitMs ∧ 1 < position then
    response.setHeader "X-Queue-Position" (toString position)
  else response

theorem Response.statusCode_setWait (response : Response) (waitMs : ℤ) (position : ℕ) :
  (response.setWait waitMs position).statusCode = response.statusCode
  := by
  unfold setWait
  dsimp only
  split <;> rfl

theorem Response.content_setWait (response : Response) (waitMs : ℤ) (position : ℕ) :
  (response.setWait waitMs position).content = response.content
  := by
  unfold setWait
  dsimp only
  split <;> rfl

/-- The call is enqueued as an item of the tier, and its answer is stored and passed on. -/
def submit (tier : Tier) (call : DispatchCall) (entry : Option CacheEntry) :
    Handler Outcome := do
  let enqueueTime ← ask .monotonic
  let future ← ask .createFuture
  let item : QueueItem DispatchCall := {
    tier := tier
    enqueueTime := enqueueTime
    requestId := call.request.requestId
    future := future
    dispatchFn := call
    position := 0
    nbytes := call.body.length }
  match ← ask (.enqueue item) with
  | .error e => refusal call.request call.clientId e
  | .ok position =>
      match ← ask (.await item) with
      | .error e => return .response (failure call.request e)
      | .ok response =>
          let now ← ask .monotonic
          count .processed call.clientId
          store digest cfg entry response
          return .response (response.setWait ⌊(now - enqueueTime) * 1000⌋ position)

/-! ### What is called besides -/

section

open Program (Calls calls_pure calls_perform)

variable {P : Op → Prop} {digest cfg}

theorem count_calls {stat : ClientStat} (h : ∀ c, P (.count stat c)) (clientId : Option String) :
  Calls P (count stat clientId)
  := by
  unfold count
  split
  · split
    · apply calls_pure
    · exact calls_perform (h _)
  · apply calls_pure

theorem refusal_calls (hretry : ∀ tier, P (.retryAfter tier))
    (hcount : ∀ c, P (.count .rejected c)) (r : Request) (clientId : Option String)
    (e : EnqueueError) :
  Calls P (refusal r clientId e)
  := by
  cases e with
  | queueFull | queueOverCapacity =>
      refine Calls.bind (calls_perform (hretry _)) ?_
      intro retryAfter
      apply Calls.bind (count_calls hcount _)
      intro _
      apply calls_pure
  | queuePaused | zeroDivision => apply calls_pure

/-- Only a successful answer with JSON content is stored, under the key of the entry. -/
theorem store_calls {entry : Option CacheEntry} {response : Response}
    (h : ∀ e ∈ entry, ∀ key j,
      EmbeddingCache.buildKey? digest cfg e.path e.fields e.model = some key →
      response.statusCode = 200 → response.content = .json j →
      P (.cacheSet key (.dumps Json.escape j))) :
  Calls P (store digest cfg entry response)
  := by
  unfold store EmbeddingCache.set
  split
  · rename_i e j hjson
    split
    · rename_i hsuccess
      split
      · apply calls_pure
      · split
        · apply calls_pure
        · rename_i key hkey
          apply Calls.bind (calls_perform (h e rfl key j hkey hsuccess hjson))
          intro stored
          cases stored <;> apply calls_pure
    · apply calls_pure
  · apply calls_pure

end

/-- `_METADATA_FAST_PATH`. -/
def metadataFastPath : List Octets :=
  [ascii "/api/tags", ascii "/api/version", ascii "/api/ps", ascii "/api/show", ascii "/"]

/-- A call that is made past the queue. -/
def dispatchDirectly (call : DispatchCall) : Handler Outcome := do
  match ← ask (.dispatch call) with
  | some response => return .response response
  | none => return .raised

/-- The call is answered from the cache or submitted to the queue. -/
def lookupOrSubmit (tier : Tier) (call : DispatchCall) : Handler Outcome := do
  let entry := toCache? cfg call.path call.body
  match ← lookup digest cfg entry call.clientId with
  | some cached =>
      count .processed call.clientId
      return cacheHit cached
  | none => submit digest cfg tier call entry

/-- The body that is sent for a path. -/
def outgoingBody (cfg : Config) (path : Octets) (body : Bytes) : Bytes :=
  if keepAlivePaths.contains path then
    injectKeepAlive body cfg.keepAlive cfg.proxy.maxRequestBodyMb
  else body

/-- `_enqueue_request`. -/
def enqueueRequest (cfg : Config) (r : Request) (clientId : Option String) (tier : Tier)
    (pathOverride : Option Octets) (keyCfg : Option ApiKeyConfig) : Handler Outcome :=
  if keyCfg.any fun k => !k.allows .inference then
    return .response (scopeDenied r "inference")
  else match readBody r cfg.proxy.maxRequestBodyMb with
    | .error response => return .response response
    | .ok body =>
        let path := pathOverride.getD r.urlPath
        if metadataFastPath.contains path then
          dispatchDirectly ⟨r, body, clientId, pathOverride⟩
        else lookupOrSubmit digest cfg.embeddingCache tier
          ⟨r, outgoingBody cfg path body, clientId, pathOverride⟩

/-- A request that passes the check of the scope has a key that allows it, or no key. -/
theorem allows_of_not_denied {keyCfg : Option ApiKeyConfig} {required : Scope}
    (h : ¬ (keyCfg.any fun k => !k.allows required) = true) :
  ∀ k ∈ keyCfg, k.allows required = true
  := by
  intro k hk
  by_contra hdenied
  apply h
  rw [Option.mem_def.mp hk]
  simpa using hdenied

end OllamaQueueProxy
