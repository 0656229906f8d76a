import OllamaQueueProxy.Cache.Upstream

/-!
# The answers of the handlers

When what the cache holds under the key of a request is the upstream answer to the request,
a handler answers a request, if it does so with the status 200, with its upstream answer, and
what it stores under the key is that answer as well (`handle_answers`).
-/

open Program (Event Sat Calls calls_pure calls_perform)
open Url (Octets)
open Json (Text)

namespace OllamaQueueProxy

/-- The answer to a request that `enqueue` refused has one of the status codes for it. -/
def EnqueueError.Unsuccessful : EnqueueError → Prop
  | .queueFull _ statusCode | .queueOverCapacity _ statusCode =>
      ∃ code : OverflowStatusCode, statusCode = code.toNat
  | _ => True

/-- The upstream server answers as `up` says. -/
def UpstreamAnswers (up : Upstream) : (op : Op) → op.Answer → Prop
  | .enqueue _, .error e => e.Unsuccessful
  | .await item, .ok response =>
      response.statusCode = 200 → response.content = up.content item.dispatchFn
  | .dispatch call, some response =>
      response.statusCode = 200 → response.content = up.content call
  | _, _ => True

/-- The cache answers with JSON that is the content. -/
def CacheAnswers (content : Content) : (op : Op) → op.Answer → Prop
  | .cacheGet _ _, .ok (some b) => ∃ j, b.json = some j ∧ content = .json j
  | _, _ => True

/-- The answers to the operations of a handler whose upstream answer is `content`. -/
def Admits (up : Upstream) (content : Content) (op : Op) (r : op.Answer) : Prop :=
  UpstreamAnswers up op r ∧ CacheAnswers content op r

/-- The cache is used under the key only, and only `content` is stored. -/
def UsesCache (key : Option Text) (content : Content) : Op → Prop
  | .cacheGet key' _ => key = some key'
  | .cacheSet key' b => key = some key' ∧ ∃ j, b.json = some j ∧ content = .json j
  | _ => True

/-- An answer with the status 200 has the content. -/
def Answers (content? : Option Content) : Outcome → Prop
  | .response r => r.statusCode = 200 → some r.content = content?
  | .raised => True

variable {digest : Text → Text} {up : Upstream} {content : Content} {key : Option Text}
variable {h : List (Event Op.Answer)}

theorem unsuccessful_statusCode (code : OverflowStatusCode) :
  code.toNat ≠ 200
  := by
  cases code <;> decide

/-- After the statistics are updated, a program goes on as before. -/
theorem sat_count_bind {stat : ClientStat} {clientId : Option String} {p : Handler Outcome}
    {post : List (Event Op.Answer) → Outcome → Prop}
    (hp : ∀ h, Sat (Admits up content) (fun _ op => UsesCache key content op) post h p) :
  Sat (Admits up content) (fun _ op => UsesCache key content op) post h
    (do count stat clientId; p)
  := by
  rw [Program.sat_bind]
  have hcount : Calls (UsesCache key content) (count stat clientId) :=
    count_calls (fun _ => trivial) clientId
  apply Sat.mono (hcount.sat fun _ _ hop => hop) id
  intro h' _ _
  apply hp

theorem store_usesCache {cfg : EmbeddingCacheConfig} {entry : Option CacheEntry}
    {response : Response}
    (hkey : ∀ e ∈ entry, EmbeddingCache.buildKey? digest cfg e.path e.fields e.model = key)
    (hresponse : response.statusCode = 200 → response.content = content) :
  Calls (UsesCache key content) (store digest cfg entry response)
  := by
  apply store_calls
  intro e he key' j hkey' hsuccess hjson
  exact ⟨(hkey e he).symm.trans hkey', j, rfl, by rw [← hresponse hsuccess, hjson]⟩

theorem refusal_answers (r : Request) (clientId : Option String) {e : EnqueueError}
    (he : e.Unsuccessful) :
  Sat (Admits up content) (fun _ op => UsesCache key content op)
    (fun _ outcome => Answers (some content) outcome) h (refusal r clientId e)
  := by
  cases e with
  | queueFull tier statusCode | queueOverCapacity tier statusCode =>
      obtain ⟨code, rfl⟩ := he
      apply Program.sat_perform_bind.mpr
      use trivial
      intro retryAfter _
      apply sat_count_bind
      intro h' hsuccess
      cases unsuccessful_statusCode code hsuccess
  | queuePaused tier =>
      intro hsuccess
      cases hsuccess
  | zeroDivision => trivial

theorem statusCode_failure (r : Request) (e : FutureException Unit) :
  (failure r e).statusCode = 503
  := by
  cases e <;> rfl

theorem submit_answers {cfg : EmbeddingCacheConfig} (tier : Tier) (call : DispatchCall)
    {entry : Option CacheEntry}
    (hkey : ∀ e ∈ entry, EmbeddingCache.buildKey? digest cfg e.path e.fields e.model = key)
    (hcall : up.content call = content) :
  Sat (Admits up content) (fun _ op => UsesCache key content op)
    (fun _ outcome => Answers (some content) outcome) h (submit digest cfg tier call entry)
  := by
  apply Program.sat_perform_bind.mpr
  use trivial
  intro enqueueTime _
  apply Program.sat_perform_bind.mpr
  use trivial
  intro future _
  apply Program.sat_perform_bind.mpr
  use trivial
  intro result hresult
  cases result with
  | error e => exact refusal_answers _ _ hresult.1
  | ok position =>
      apply Program.sat_perform_bind.mpr
      use trivial
      intro result hresult
      cases result with
      | error e =>
          intro hsuccess
          rw [statusCode_failure] at hsuccess
          cases hsuccess
      | ok response =>
          have hcontent : response.statusCode = 200 → response.content = content := by
            intro hsuccess
            rw [hresult.1 hsuccess, hcall]
          apply Program.sat_perform_bind.mpr
          use trivial
          intro now _
          apply sat_count_bind
          intro h'
          rw [Program.sat_bind]
          apply Sat.mono ((store_usesCache hkey hcontent).sat fun _ _ hop => hop) id
          intro h'' _ _ hsuccess
          rw [Response.statusCode_setWait] at hsuccess
          rw [Response.content_setWait, hcontent hsuccess]

theorem dispatchDirectly_answers (call : DispatchCall) (hcall : up.content call = content) :
  Sat (Admits up content) (fun _ op => UsesCache key content op)
    (fun _ outcome => Answers (some content) outcome) h (dispatchDirectly call)
  := by
  apply Program.sat_perform_bind.mpr
  use trivial
  intro result hresult
  cases result with
  | none => trivial
  | some response =>
      intro hsuccess
      rw [hresult.1 hsuccess, hcall]

/-- The cache is asked for the key of the entry, and what it holds is the content. -/
theorem lookup_answers {cfg : EmbeddingCacheConfig} {entry : Option CacheEntry}
    (clientId : Option String)
    (hkey : ∀ e ∈ entry, EmbeddingCache.buildKey? digest cfg e.path e.fields e.model = key) :
  Sat (Admits up content) (fun _ op => UsesCache key content op)
    (fun _ cached => ∀ b ∈ cached, ∃ j, b.json = some j ∧ content = .json j) h
    (lookup digest cfg entry clientId)
  := by
  have hnone : ∀ b ∈ (none : Option Bytes), ∃ j, b.json = some j ∧ content = .json j := by
    intro b hb
    cases hb
  unfold lookup EmbeddingCache.get
  split
  · rename_i e
    rw [hkey e rfl]
    split
    · exact hnone
    · apply Program.sat_perform_bind.mpr
      use rfl
      intro r hr
      cases r with
      | error e => exact hnone
      | ok cached =>
          intro b hb
          obtain rfl := Option.mem_def.mp hb
          exact hr.2
  · exact hnone

theorem lookupOrSubmit_answers {cfg : EmbeddingCacheConfig} (tier : Tier) (call : DispatchCall)
    (hkey : entryKey? digest cfg call.path call.body = key) (hcall : up.content call = content) :
  Sat (Admits up content) (fun _ op => UsesCache key content op)
    (fun _ outcome => Answers (some content) outcome) h (lookupOrSubmit digest cfg tier call)
  := by
  have hentry : ∀ e ∈ toCache? cfg call.path call.body,
      EmbeddingCache.buildKey? digest cfg e.path e.fields e.model = key := by
    intro e he
    rw [← hkey, entryKey?, Option.mem_def.mp he, Option.bind_some]
  unfold lookupOrSubmit
  rw [Program.sat_bind]
  apply (lookup_answers call.clientId hentry).mono id
  intro h' cached hcached
  cases cached with
  | none => exact submit_answers tier call hentry hcall
  | some b =>
      apply sat_count_bind
      intro h''
      obtain ⟨j, hb, rfl⟩ := hcached b rfl
      rw [Program.sat_pure, cacheHit, hb]
      dsimp only
      split
      · intro _
        rfl
      · trivial

/-- `_enqueue_request` answers with the content of the path and the body. -/
theorem enqueueRequest_answers (cfg : Config) (r : Request) (clientId : Option String)
    (tier : Tier) (pathOverride : Option Octets) (keyCfg : Option ApiKeyConfig)
    (hkey : entryKey? digest cfg.embeddingCache (pathOverride.getD r.urlPath) r.body = key)
    (hcontent : up (pathOverride.getD r.urlPath) (relevant r.body) = content) :
  Sat (Admits up content) (fun _ op => UsesCache key content op)
    (fun _ outcome => Answers (some content) outcome) h
    (enqueueRequest digest cfg r clientId tier pathOverride keyCfg)
  := by
  unfold enqueueRequest
  split
  · intro hsuccess
    cases hsuccess
  · split
    · rename_i response hread
      intro hsuccess
      rw [statusCode_readBody hread] at hsuccess
      cases hsuccess
    · rename_i body hread
      obtain rfl := readBody_eq_ok hread
      dsimp only
      split
      · exact dispatchDirectly_answers ⟨r, r.body, clientId, pathOverride⟩ hcontent
      · apply lookupOrSubmit_answers
        · rw [← hkey]
          exact entryKey?_outgoingBody digest cfg (pathOverride.getD r.urlPath) r.body
        · rw [← hcontent]
          change up _ (relevant (outgoingBody cfg _ r.body)) = _
          rw [relevant_outgoingBody]
          rfl

/-! ### The ports -/

theorem wrapOutcome_answers {outcome : Outcome} (houtcome : Answers (some content) outcome) :
  Answers (wrapContent? content) (wrapOutcome outcome)
  := by
  cases outcome with
  | raised => trivial
  | response r =>
      obtain ⟨statusCode, c, headers⟩ := r
      by_cases hsuccess : statusCode = 200
      · obtain rfl := Option.some.inj (houtcome hsuccess)
        cases c with
        | stream =>
            intro _
            rfl
        | json j =>
            simp only [wrapOutcome, if_pos hsuccess, wrapContent?]
            cases hwrapped : wrapResponse j with
            | none => trivial
            | some wrapped =>
                intro _
                rfl
      · cases c with
        | stream =>
            intro hsuccess'
            cases hsuccess hsuccess'
        | json j =>
            simp only [wrapOutcome, if_neg hsuccess]
            intro hsuccess'
            cases hsuccess hsuccess'

theorem usesCache_of_ofAuth {op : Op} (h : op.ofAuth = true) :
  UsesCache key content op
  := by
  cases op with
  | cacheGet | cacheSet => cases h
  | _ => trivial

theorem proxyAuthenticated_answers (digest : Text → Text) (cfg : Config) (up : Upstream)
    (r : Request) (keyCfg : Option ApiKeyConfig) :
  Sat (Admits up (Arrival.content up ⟨.main, r⟩))
    (fun _ op => UsesCache (Arrival.key? digest cfg.embeddingCache ⟨.main, r⟩)
      (Arrival.content up ⟨.main, r⟩) op)
    (fun _ outcome => Answers (Arrival.answerContent? up ⟨.main, r⟩) outcome) h
    (proxyAuthenticated digest cfg r keyCfg)
  := by
  simp only [proxyAuthenticated, Arrival.answerContent?, Arrival.content, Arrival.key?,
    Arrival.path, Arrival.pathOverride]
  cases r.nativePath with
  | some nativePath =>
      dsimp only
      rw [Program.sat_bind]
      apply (enqueueRequest_answers cfg r _ _ (some nativePath) keyCfg rfl rfl).mono id
      intro h' outcome houtcome
      exact wrapOutcome_answers houtcome
  | none => exact enqueueRequest_answers cfg r _ _ none keyCfg rfl rfl

/-- The content with which a handler answers a request is the one of the upstream answer to
it, and the cache is used for nothing else. -/
theorem handle_answers (digest : Text → Text) (cfg : Config) (up : Upstream) (a : Arrival) :
  Sat (Admits up (a.content up))
    (fun _ op => UsesCache (a.key? digest cfg.embeddingCache) (a.content up) op)
    (fun _ outcome => Answers (a.answerContent? up) outcome) []
    (handle digest cfg a.port a.request)
  := by
  obtain ⟨port, r⟩ := a
  cases port with
  | main =>
      apply Program.sat_perform_bind.mpr
      use trivial
      intro shutting _
      split
      · intro hsuccess
        cases hsuccess
      · rw [Program.sat_bind]
        apply (authenticate_refuses _ r).mono usesCache_of_ofAuth
        intro h result hrefuses
        cases result with
        | raised => trivial
        | refused response =>
            intro hsuccess
            cases hrefuses hsuccess
        | passed keyCfg => exact proxyAuthenticated_answers digest cfg up r keyCfg
  | injection injectAs keyCfg =>
      apply Program.sat_perform_bind.mpr
      use trivial
      intro serving _
      split
      · intro hsuccess
        cases hsuccess
      · apply Program.sat_perform_bind.mpr
        use trivial
        intro shutting _
        split
        · intro hsuccess
          cases hsuccess
        · exact enqueueRequest_answers cfg r _ _ none _ rfl rfl

end OllamaQueueProxy
