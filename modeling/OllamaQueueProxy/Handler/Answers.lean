import OllamaQueueProxy.Handler.Authorisation

/-!
# The sources of answers

What a handler answers comes from the request it handles: it is an error in the name of that
request, the value that the cache gave for its key, the response to a call for it, or what became
of the item that was enqueued for it (`handle_sourced`).
-/

open Program (Event Sat sat_bind sat_extends)
open Json (Text text)

namespace OllamaQueueProxy

/-- Where an answer comes from that a handler gives after a history. -/
inductive Sourced (digest : Text → Text) (cfg : EmbeddingCacheConfig) (r : Request)
    (h : List (Event Op.Answer)) : Outcome → Prop where
  | raised : Sourced digest cfg r h .raised
  /-- An error in the name of the request. -/
  | error (statusCode : ℕ) (message : String) (headers : Dict String String) :
      Sourced digest cfg r h (.response (.error statusCode message r.requestId headers))
  /-- The port is served before the application has started. -/
  | startingUp : Sourced digest cfg r h (.response ⟨503, .json (.object [(text "error",
      .string (text "proxy is starting up, retry shortly"))]), []⟩)
  /-- The value that the cache gave for the key of the request. -/
  | cached {call : DispatchCall} {entry : CacheEntry} {key : Text} {bytes : Bytes}
      (hcall : call.request = r) (hentry : toCache? cfg call.path call.body = some entry)
      (hkey : EmbeddingCache.buildKey? digest cfg entry.path entry.fields entry.model = some key)
      (hget : ⟨.cacheGet key call.clientId, .ok (some bytes)⟩ ∈ h) :
      Sourced digest cfg r h (cacheHit bytes)
  /-- The response to a call past the queue. -/
  | dispatched {call : DispatchCall} {response : Response} (hcall : call.request = r)
      (hdispatch : ⟨.dispatch call, some response⟩ ∈ h) :
      Sourced digest cfg r h (.response response)
  /-- The response with which the item was answered. -/
  | queued {item : QueueItem DispatchCall} {position : ℕ} {response : Response}
      (hrequest : item.dispatchFn.request = r)
      (hitem : ⟨.enqueue item, .ok position⟩ ∈ h) (hawait : ⟨.await item, .ok response⟩ ∈ h)
      (waitMs : ℤ) : Sourced digest cfg r h (.response (response.setWait waitMs position))
  /-- The exception with which the item was answered. -/
  | failed {item : QueueItem DispatchCall} {position : ℕ} {e : FutureException Unit}
      (hid : item.requestId = r.requestId)
      (hitem : ⟨.enqueue item, .ok position⟩ ∈ h) (hawait : ⟨.await item, .error e⟩ ∈ h) :
      Sourced digest cfg r h (.response (failure r e))
  /-- The answer in the format of the compatibility layer. -/
  | wrapped {outcome : Outcome} (hsourced : Sourced digest cfg r h outcome) :
      Sourced digest cfg r h (wrapOutcome outcome)

variable {digest : Text → Text} {h : List (Event Op.Answer)} {r : Request}

/-- The program gives answers of the request. -/
abbrev Answering (digest : Text → Text) (cfg : EmbeddingCacheConfig) (r : Request)
    (h : List (Event Op.Answer)) (p : Handler Outcome) : Prop :=
  Sat anyAnswer (fun _ _ => True) (fun h' outcome => Sourced digest cfg r h' outcome) h p

variable {cfg : EmbeddingCacheConfig}

/-- What precedes an answer does not matter, but it only adds to the history. -/
theorem Answering.bind {β : Type} (p : Handler β) {f : β → Handler Outcome}
    (hf : ∀ h' b, h <+: h' → Answering digest cfg r h' (f b)) :
  Answering digest cfg r h (p >>= f)
  := by
  rw [Answering, sat_bind]
  exact (sat_extends p).mono id fun hextends => hf _ _ hextends

theorem refusal_sourced (clientId : Option String) (e : EnqueueError) :
  Answering digest cfg r h (refusal r clientId e)
  := by
  cases e with
  | queueFull | queueOverCapacity =>
      refine Answering.bind _ fun h' retryAfter _ => ?_
      refine Answering.bind _ fun h' _ _ => ?_
      exact .error _ _ _
  | queuePaused => exact Sourced.error _ _ _
  | zeroDivision => exact Sourced.raised

theorem submit_sourced (tier : Tier) (call : DispatchCall) (entry : Option CacheEntry) :
  Answering digest cfg call.request h (submit digest cfg tier call entry)
  := by
  refine ⟨trivial, fun enqueueTime _ => ⟨trivial, fun future _ => ⟨trivial, fun result _ => ?_⟩⟩⟩
  cases result with
  | error e => exact refusal_sourced _ e
  | ok position =>
      refine ⟨trivial, fun answer _ => ?_⟩
      cases answer with
      | error e =>
          exact .failed rfl (List.mem_append_left _ List.mem_concat_self) List.mem_concat_self
      | ok response =>
          refine Answering.bind (ask .monotonic) fun h₁ now hnow => ?_
          refine Answering.bind _ fun h₂ _ hcount => ?_
          refine Answering.bind _ fun h₃ _ hstore => ?_
          have hsubset := ((hnow.trans hcount).trans hstore).subset
          refine .queued rfl (hsubset ?_) (hsubset List.mem_concat_self) _
          exact List.mem_append_left _ List.mem_concat_self

/-- What a lookup finds was stored under the key of the entry. -/
theorem lookup_sat (entry : Option CacheEntry) (clientId : Option String) :
  Sat anyAnswer (fun _ _ => True) (fun h' cached => ∀ bytes, cached = some bytes →
    ∃ e key, entry = some e
      ∧ EmbeddingCache.buildKey? digest cfg e.path e.fields e.model = some key
      ∧ ⟨.cacheGet key clientId, .ok (some bytes)⟩ ∈ h') h
    (lookup digest cfg entry clientId)
  := by
  cases entry with
  | none =>
      intro bytes heq
      cases heq
  | some e =>
      simp only [lookup, EmbeddingCache.get]
      cases hkey : EmbeddingCache.buildKey? digest cfg e.path e.fields e.model with
      | none =>
          intro bytes heq
          cases heq
      | some key =>
          refine ⟨trivial, fun value _ => ?_⟩
          cases value with
          | error =>
              intro bytes heq
              cases heq
          | ok cached =>
              rintro bytes rfl
              exact ⟨e, key, rfl, hkey, List.mem_concat_self⟩

theorem lookupOrSubmit_sourced (tier : Tier) (call : DispatchCall) :
  Answering digest cfg call.request h (lookupOrSubmit digest cfg tier call)
  := by
  unfold lookupOrSubmit
  rw [Answering, sat_bind]
  apply (lookup_sat (toCache? cfg call.path call.body) call.clientId).mono id
  intro h' cached hcached
  cases cached with
  | none => exact submit_sourced tier call _
  | some bytes =>
      obtain ⟨e, key, hentry, hkey, hget⟩ := hcached bytes rfl
      refine Answering.bind (count .processed call.clientId) fun h'' _ hextends => ?_
      exact .cached rfl hentry hkey (hextends.subset hget)

theorem dispatchDirectly_sourced (call : DispatchCall) :
  Answering digest cfg call.request h (dispatchDirectly call)
  := by
  refine ⟨trivial, fun result _ => ?_⟩
  cases result with
  | none => exact .raised
  | some response => exact .dispatched rfl List.mem_concat_self

theorem readBody_sourced {maxMb : ℤ} {response : Response}
    (hread : readBody r maxMb = .error response) :
  Sourced digest cfg r h (.response response)
  := by
  simp only [readBody] at hread
  split_ifs at hread
  all_goals
    obtain rfl := Except.error.inj hread
    exact .error _ _ _

theorem enqueueRequest_sourced (cfg : Config) (clientId : Option String) (tier : Tier)
    (pathOverride : Option Url.Octets) (keyCfg : Option ApiKeyConfig) :
  Answering digest cfg.embeddingCache r h
    (enqueueRequest digest cfg r clientId tier pathOverride keyCfg)
  := by
  unfold enqueueRequest
  split
  · exact Sourced.error _ _ _
  · split
    · rename_i hread
      exact readBody_sourced hread
    · dsimp only
      split
      · exact dispatchDirectly_sourced ⟨r, _, clientId, pathOverride⟩
      · exact lookupOrSubmit_sourced tier ⟨r, _, clientId, pathOverride⟩

theorem unauthorized_sourced (message : String) :
  Sat anyAnswer (fun _ _ => True) (fun h' result => ∀ response, result = .refused response →
    Sourced digest cfg r h' (.response response)) h (AuthManager.unauthorized message r)
  := by
  refine ⟨trivial, fun _ _ => ?_⟩
  intro response heq
  cases heq
  exact .error _ _ _

/-- A request that is not authenticated is refused in its own name. -/
theorem authenticate_sourced (a : AuthManager) :
  Sat anyAnswer (fun _ _ => True) (fun h' result => ∀ response, result = .refused response →
    Sourced digest cfg r h' (.response response)) h (a.authenticate r)
  := by
  by_cases henabled : a.config.enabled = true
  · rw [AuthManager.authenticate_eq henabled]
    refine ⟨trivial, fun x _ => ⟨trivial, fun _ _ => ?_⟩⟩
    split
    · intro response heq
      cases heq
      exact .error _ _ _
    · unfold AuthManager.checkKey
      split
      · exact unauthorized_sourced _
      · split
        · intro response heq
          cases heq
        · exact unauthorized_sourced _
        · refine ⟨trivial, fun _ _ => ?_⟩
          intro response heq
          cases heq
  · rw [AuthManager.authenticate, if_pos (by simpa using henabled)]
    intro response heq
    cases heq

theorem proxyHandler_sourced (cfg : Config) (r : Request) :
  Answering digest cfg.embeddingCache r [] (proxyHandler digest cfg r)
  := by
  refine ⟨trivial, fun shutting _ => ?_⟩
  cases shutting with
  | true => exact .error _ _ _
  | false =>
      change Sat _ _ _ _ ((AuthManager.new cfg.auth).authenticate r >>= _)
      rw [sat_bind]
      apply Sat.mono (authenticate_sourced _) id
      intro h' result hresult
      cases result with
      | raised => exact .raised
      | refused response => exact hresult response rfl
      | passed keyCfg =>
          simp only [proxyAuthenticated]
          split
          · rw [sat_bind]
            exact (enqueueRequest_sourced cfg _ _ _ keyCfg).mono id .wrapped
          · exact enqueueRequest_sourced cfg _ _ _ keyCfg

theorem injectionHandler_sourced (cfg : Config) (injectAs : String) (k : ApiKeyConfig)
    (r : Request) :
  Answering digest cfg.embeddingCache r [] (injectionHandler digest cfg injectAs k r)
  := by
  refine ⟨trivial, fun shared _ => ?_⟩
  cases shared with
  | false => exact .startingUp
  | true =>
      refine ⟨trivial, fun shutting _ => ?_⟩
      cases shutting with
      | true => exact .error _ _ _
      | false => exact enqueueRequest_sourced cfg _ _ _ _

/-- What the handler of a port answers comes from the request. -/
theorem handle_sourced (cfg : Config) (port : Port) (r : Request) :
  Answering digest cfg.embeddingCache r [] (handle digest cfg port r)
  := by
  cases port with
  | main => exact proxyHandler_sourced cfg r
  | injection injectAs k => exact injectionHandler_sourced cfg injectAs k r

end OllamaQueueProxy
