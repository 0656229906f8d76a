import OllamaQueueProxy.Handler.Agreement
import OllamaQueueProxy.Handler.Likeness
import OllamaQueueProxy.Proxy.Headers

/-!
# Attribution

With authentication enabled, a request on the main port is attributed to the client of its
key.  The header `X-Client-ID` of the request then has no influence, unless the `client_id` of
the key is empty: the handler treats it as if there were no client and leaves the header as the
caller sent it.  Requests that differ in that header only are handled alike exactly when the
key under which the request is passed on, if there is one, has a client (`isolated_iff`).
-/

open Program (Event Reaches Related Sat)
open Json (Text)

namespace OllamaQueueProxy

variable (digest : Text → Text)

/-- The header `X-Client-ID` of the request has no influence on the main port, none of the
headers in the strip set is sent to a host on any port, and the header `Authorization` has no
influence on what is sent. -/
structure Isolated (cfg : Config) (r : Request) : Prop where
  clientId : ∀ headers,
    headersExcept "x-client-id" headers = headersExcept "x-client-id" r.headers →
    Related (Op.Alike anyAnswer cfg.proxy) Eq (proxyHandler digest cfg r)
      (proxyHandler digest cfg (r.withHeaders headers))
  stripped : ∀ c : DispatchCall, c.request = r → ∀ e ∈ c.forwardHeaders,
    e.1.toLower ∉ stripRequestHeaders
  authorization : ∀ c : DispatchCall, c.request = r → ∀ headers,
    headersExcept "authorization" headers = headersExcept "authorization" r.headers →
    (c.withHeaders headers).forwardHeaders = c.forwardHeaders

/-- The request passes the authentication as the one of the key, when no failures are
recorded. -/
def PassesAs (cfg : AuthConfig) (r : Request) (k : ApiKeyConfig) : Prop :=
  0 < cfg.rateLimit.maxFailures ∧ ∃ provided,
    bearerKey? ((r.header? "authorization").getD "") = some provided
      ∧ (AuthManager.new cfg).lookupKey provided = some (some k)

/-- The path of the request is one of the model management, which is disabled. -/
def Managed (cfg : Config) (r : Request) : Prop :=
  modelManagementPaths.contains (r.nativePath.getD r.urlPath) = true
    ∧ cfg.proxy.allowModelManagement = false

/-- The key under which the request is passed on to a host, if there is one, has a client. -/
def Attributed (cfg : Config) (r : Request) : Prop :=
  ∀ k, PassesAs cfg.auth r k → ¬ TurnedAway cfg r k → ¬ Managed cfg r → k.clientId ≠ ""

variable {digest} {cfg : Config} {r : Request} {k : ApiKeyConfig}
variable {headers : Dict String String}

/-! ### Requests of a client -/

theorem PassesAs.withHeaders {cfg : AuthConfig} (hk : PassesAs cfg r k)
    (h : headersExcept "x-client-id" headers = headersExcept "x-client-id" r.headers) :
  PassesAs cfg (r.withHeaders headers) k
  := by
  unfold PassesAs
  rwa [header?_withHeaders h (by decide +kernel)]

theorem readBody_withHeaders {maxMb : ℤ}
    (h : headersExcept "x-client-id" headers = headersExcept "x-client-id" r.headers) :
  readBody (r.withHeaders headers) maxMb = readBody r maxMb
  := by
  unfold readBody
  rw [header?_withHeaders h (by decide +kernel)]
  rfl

/-- With authentication enabled, only requests of a key pass. -/
theorem authenticate_passesAs (henabled : cfg.auth.enabled = true) (r : Request) :
  Sat anyAnswer (fun _ _ => True)
    (fun _ result => ∀ keyCfg, result = .passed keyCfg →
      ∃ k, keyCfg = some k ∧ PassesAs cfg.auth r k) []
    ((AuthManager.new cfg.auth).authenticate r)
  := by
  have hunauthorized (message : String) (h : List (Event Op.Answer)) :
      Sat anyAnswer (fun _ _ => True) (fun _ result => ∀ keyCfg, result = .passed keyCfg →
        ∃ k, keyCfg = some k ∧ PassesAs cfg.auth r k) h
        (AuthManager.unauthorized message r) := by
    refine ⟨trivial, ?_⟩
    intro _ _ keyCfg hpassed
    cases hpassed
  rw [AuthManager.authenticate_eq henabled]
  refine ⟨trivial, fun x _ => ⟨trivial, fun _ _ => ?_⟩⟩
  split
  · intro keyCfg hpassed
    cases hpassed
  · rename_i hlimit
    have hpositive : 0 < cfg.auth.rateLimit.maxFailures := by
      have hlt := lt_of_not_ge hlimit
      change _ < cfg.auth.rateLimit.maxFailures at hlt
      omega
    unfold AuthManager.checkKey
    split
    · apply hunauthorized
    · rename_i provided hbearer
      split
      · intro keyCfg hpassed
        cases hpassed
      · apply hunauthorized
      · rename_i k hk
        refine ⟨trivial, ?_⟩
        intro _ _ keyCfg hpassed
        obtain rfl := AuthResult.passed.inj hpassed
        exact ⟨k, rfl, hpositive, provided, hbearer, hk⟩

/-- Calls for the request with another header `X-Client-ID` are alike, if they are made for a
client or refused. -/
theorem alike_withHeaders
    (h : headersExcept "x-client-id" headers = headersExcept "x-client-id" r.headers)
    (hclient : ¬ Managed cfg r → k.clientId ≠ "") (body : Bytes) :
  DispatchCall.Alike cfg.proxy ⟨r, body, some k.clientId, r.nativePath⟩
    ⟨r.withHeaders headers, body, some k.clientId, r.nativePath⟩
  := by
  refine .of_headers rfl rfl rfl rfl rfl rfl ?_
  intro hsent name
  have hne : k.clientId.isEmpty = false := by
    simpa using hclient hsent
  symm
  exact DispatchCall.get?_forwardHeaders_withHeaders
    (c := ⟨r, body, some k.clientId, r.nativePath⟩) rfl hne h

theorem proxyAuthenticated_related (henabled : cfg.auth.enabled = true)
    (h : headersExcept "x-client-id" headers = headersExcept "x-client-id" r.headers)
    (hclient : ¬ TurnedAway cfg r k → ¬ Managed cfg r → k.clientId ≠ "") :
  Related (Op.Alike anyAnswer cfg.proxy) Eq (proxyAuthenticated digest cfg r (some k))
    (proxyAuthenticated digest cfg (r.withHeaders headers) (some k))
  := by
  have hpriority : (r.withHeaders headers).parsePriority = r.parsePriority := by
    rw [Request.parsePriority, header?_withHeaders h (by decide +kernel), Request.parsePriority]
  have hrequest (tier : Tier) : Related (Op.Alike anyAnswer cfg.proxy) Eq
      (enqueueRequest digest cfg r (some k.clientId) tier r.nativePath (some k))
      (enqueueRequest digest cfg (r.withHeaders headers) (some k.clientId) tier r.nativePath
        (some k)) := by
    refine enqueueRequest_related tier rfl (readBody_withHeaders h).symm rfl ?_
    rintro hscope ⟨body, hbody⟩
    apply alike_withHeaders h
    apply hclient
    rintro (hdenied | ⟨response, hrefused⟩)
    · rw [hscope k rfl] at hdenied
      cases hdenied
    · rw [hbody] at hrefused
      cases hrefused
  have hnative : (r.withHeaders headers).nativePath = r.nativePath := rfl
  simp only [proxyAuthenticated, resolveClientId, henabled, if_true, hpriority, hnative]
  cases hpath : r.nativePath with
  | none =>
      rw [hpath] at hrequest
      apply hrequest
  | some nativePath =>
      rw [hpath] at hrequest
      apply Related.bind (hrequest _)
      rintro outcome _ rfl
      exact .pure rfl

/-- Requests that differ in the header `X-Client-ID` only are handled alike if they are
attributed to the client of a key. -/
theorem related_of_attributed (henabled : cfg.auth.enabled = true) (hclient : Attributed cfg r)
    (h : headersExcept "x-client-id" headers = headersExcept "x-client-id" r.headers) :
  Related (Op.Alike anyAnswer cfg.proxy) Eq (proxyHandler digest cfg r)
    (proxyHandler digest cfg (r.withHeaders headers))
  := by
  have hheader : (r.withHeaders headers).header? "authorization" = r.header? "authorization" :=
    header?_withHeaders h (by decide +kernel)
  have hauth := authenticate_congr (AuthManager.new cfg.auth) hheader rfl rfl
  apply Related.bind (.perform (.same .shuttingDown))
  rintro shutting _ ⟨rfl, -⟩
  split
  · exact .pure rfl
  · rw [hauth]
    apply Related.bind (.of_sat (authenticate_passesAs henabled r) fun op => .same op)
    rintro result _ ⟨rfl, hpasses⟩
    cases result with
    | raised => exact .pure rfl
    | refused response => exact .pure rfl
    | passed keyCfg =>
        obtain ⟨k, rfl, hk⟩ := hpasses keyCfg rfl
        exact proxyAuthenticated_related henabled h (hclient k hk)

/-! ### Requests of an empty client -/

/-- The call that a program makes first, when no failures are recorded and the cache holds
nothing. -/
def firstCall? {α : Type} : Handler α → Option DispatchCall
  | .call (.enqueue item) _ => some item.dispatchFn
  | .call (.dispatch call) _ => some call
  | .call .shuttingDown next => firstCall? (next false)
  | .call (.failures _) next => firstCall? (next ([], 0))
  | .call (.setFailures _ _) next => firstCall? (next ())
  | .call (.clearFailures _) next => firstCall? (next ())
  | .call (.cacheGet _ _) next => firstCall? (next (.ok none))
  | .call .monotonic next => firstCall? (next 0)
  | .call .createFuture next => firstCall? (next 0)
  | _ => none

theorem firstCall?_bind {α β : Type} {p : Handler α} {f : α → Handler β} {call : DispatchCall}
    (h : firstCall? p = some call) :
  firstCall? (p >>= f) = some call
  := by
  change firstCall? (p.bind f) = some call
  induction p with
  | pure a => cases h
  | call op next ih =>
      cases op with
      | enqueue | dispatch => exact h
      | shuttingDown | failures | setFailures | clearFailures | cacheGet | monotonic
      | createFuture => exact ih _ h
      | _ => cases h

/-- Programs that are alike make calls first that are alike. -/
theorem firstCall?_related {α β : Type} {post : α → β → Prop} {p : Handler α} {q : Handler β}
    {c : DispatchCall} (h : Related (Op.Alike anyAnswer cfg.proxy) post p q)
    (hcall : firstCall? p = some c) :
  ∃ c', firstCall? q = some c' ∧ c.Alike cfg.proxy c'
  := by
  induction h with
  | pure => cases hcall
  | @call op _ _ _ _ hrel _ ih =>
      cases hrel with
      | same =>
          cases op with
          | enqueue item => exact ⟨c, hcall, .of_headers rfl rfl rfl rfl rfl rfl fun _ _ => rfl⟩
          | dispatch call => exact ⟨c, hcall, .of_headers rfl rfl rfl rfl rfl rfl fun _ _ => rfl⟩
          | shuttingDown | failures | setFailures | clearFailures | cacheGet | monotonic
          | createFuture => exact ih _ _ ⟨rfl, trivial⟩ hcall
          | _ => cases hcall
      | enqueue hitem =>
          obtain rfl := Option.some.inj hcall
          exact ⟨_, rfl, hitem.dispatchFn⟩
      | await => cases hcall
      | dispatch halike =>
          obtain rfl := Option.some.inj hcall
          exact ⟨_, rfl, halike⟩

theorem firstCall?_lookupOrSubmit (cfg : EmbeddingCacheConfig) (tier : Tier)
    (call : DispatchCall) :
  firstCall? (lookupOrSubmit digest cfg tier call) = some call
  := by
  simp only [lookupOrSubmit, lookup, EmbeddingCache.get]
  split
  · split <;> rfl
  · rfl

theorem firstCall?_enqueueRequest (digest : Text → Text) (clientId : Option String) (tier : Tier)
    (pathOverride : Option Url.Octets) (hserved : ¬ TurnedAway cfg r k) :
  ∃ body, firstCall? (enqueueRequest digest cfg r clientId tier pathOverride (some k))
    = some ⟨r, body, clientId, pathOverride⟩
  := by
  rw [TurnedAway, not_or, not_exists] at hserved
  obtain ⟨hscope, hread⟩ := hserved
  have hallows : k.allows .inference = true := by simpa using hscope
  cases hbody : readBody r cfg.proxy.maxRequestBodyMb with
  | error response => cases hread response hbody
  | ok body =>
      simp only [enqueueRequest, Option.any_some, hallows, Bool.not_true, Bool.false_eq_true,
        if_false, hbody]
      split
      · exact ⟨body, rfl⟩
      · exact ⟨_, firstCall?_lookupOrSubmit _ _ _⟩

theorem firstCall?_authenticate {α : Type} {f : AuthResult → Handler α}
    (henabled : cfg.auth.enabled = true) (hk : PassesAs cfg.auth r k) :
  firstCall? ((AuthManager.new cfg.auth).authenticate r >>= f)
    = firstCall? (f (.passed (some k)))
  := by
  obtain ⟨hpositive, provided, hbearer, hlookup⟩ := hk
  have hfew : ¬ cfg.auth.rateLimit.maxFailures
      ≤ (AuthManager.recentFailures cfg.auth [] 0).length := not_le_of_gt hpositive
  rw [AuthManager.authenticate_eq henabled]
  change firstCall? (Program.bind (if cfg.auth.rateLimit.maxFailures
    ≤ (AuthManager.recentFailures cfg.auth [] 0).length then _ else _) f) = _
  rw [if_neg hfew, AuthManager.checkKey, hbearer]
  dsimp only
  rw [hlookup]
  rfl

/-- A request that passes and is not turned away leads to a call in the name of the client of
its key. -/
theorem firstCall?_proxyHandler (digest : Text → Text) (henabled : cfg.auth.enabled = true)
    (hk : PassesAs cfg.auth r k) (hserved : ¬ TurnedAway cfg r k) :
  ∃ body, firstCall? (proxyHandler digest cfg r)
    = some ⟨r, body, some k.clientId, r.nativePath⟩
  := by
  have hauth : firstCall? (proxyHandler digest cfg r)
      = firstCall? (proxyAuthenticated digest cfg r (some k)) :=
    firstCall?_authenticate henabled hk
  have hresolve : resolveClientId cfg.auth r (some k) = some k.clientId := if_pos henabled
  rw [hauth]
  unfold proxyAuthenticated
  rw [hresolve]
  dsimp only
  cases hpath : r.nativePath with
  | none => exact firstCall?_enqueueRequest digest _ _ _ hserved
  | some nativePath =>
      obtain ⟨body, hcall⟩ := firstCall?_enqueueRequest digest (some k.clientId)
        (AuthManager.enforcePriorityCeiling r.parsePriority (some k)) (some nativePath) hserved
      exact ⟨body, firstCall?_bind hcall⟩

/-- For a key with an empty client, the header `X-Client-ID` is forwarded as the caller sent
it. -/
theorem not_isolated_of_empty (digest : Text → Text) (henabled : cfg.auth.enabled = true)
    (hk : PassesAs cfg.auth r k) (hserved : ¬ TurnedAway cfg r k) (hsent : ¬ Managed cfg r)
    (hempty : k.clientId = "") :
  ¬ Isolated digest cfg r
  := by
  intro hisolated
  obtain ⟨headers, hsame, hdiffer⟩ := exists_otherHeaders r.headers
  obtain ⟨body, hcall⟩ := firstCall?_proxyHandler digest henabled hk hserved
  obtain ⟨body', hcall'⟩ : ∃ body', firstCall? (proxyHandler digest cfg (r.withHeaders headers))
      = some ⟨r.withHeaders headers, body', some k.clientId, r.nativePath⟩ := by
    apply firstCall?_proxyHandler digest henabled (hk.withHeaders hsame)
    rwa [TurnedAway, readBody_withHeaders hsame]
  obtain ⟨c', hc', halike⟩ := firstCall?_related (hisolated.clientId headers hsame) hcall
  obtain rfl := Option.some.inj (hc'.symm.trans hcall')
  have hnone : (some k.clientId).all String.isEmpty = true := by
    rw [hempty]
    rfl
  have hforwarded := halike.forwardHeaders hsent "x-client-id"
  rw [DispatchCall.forwardHeaders_of_empty hnone, DispatchCall.forwardHeaders_of_empty hnone]
    at hforwarded
  exact hdiffer hforwarded.symm

/-- With authentication enabled, the header `X-Client-ID` of a request has no influence exactly
if the key under which the request is passed on, if there is one, has a client. -/
theorem isolated_iff (digest : Text → Text) (cfg : Config) (r : Request)
    (henabled : cfg.auth.enabled = true) :
  Isolated digest cfg r ↔ Attributed cfg r
  := by
  constructor
  · intro hisolated k hk hserved hsent hempty
    exact not_isolated_of_empty digest henabled hk hserved hsent hempty hisolated
  · intro hclient
    constructor
    · intro headers h
      exact related_of_attributed henabled hclient h
    · intro c _ e he
      exact DispatchCall.forwardHeaders_stripped he
    · rintro c rfl headers h
      exact DispatchCall.forwardHeaders_withHeaders (by decide) h

/-- A chat request of a client is isolated. -/
theorem chat_isolated :
  Isolated id listenerConfig (keyedRequest "/api/chat")
  := by
  apply (isolated_iff id listenerConfig _ rfl).mpr
  rintro k ⟨-, provided, -, hlookup⟩ _ _
  obtain rfl : k = listenerKey := by
    simpa [listenerConfig, AuthConfig.ofKey, listenerKey] using (mem_of_lookupKey hlookup).1
  decide

/-- A configuration with a key whose client is empty. -/
def anonymousConfig : Config where
  proxy := ⟨false, 50⟩
  auth := {
    enabled := true
    keys := [⟨"secret", "", .normal, .inference, 0⟩]
    rateLimit := ⟨10, 60⟩
    keysRequiredWhenEnabled := fun _ => List.cons_ne_nil _ _ }
  listeners := []
  embeddingCache := ⟨false, 32768, "oqp:embed:"⟩
  keepAlive := ⟨"5m", false⟩
  injectAsRefs := by simp

/-- The header `X-Client-ID` of a chat request with that key is forwarded. -/
theorem not_isolated :
  ¬ Isolated id anonymousConfig (keyedRequest "/api/chat")
  := by
  have hbearer : bearerKey? (((keyedRequest "/api/chat").header? "authorization").getD "")
      = some "secret" := by
    apply bearerKey?_eq_some_iff.mpr
    rfl
  have hlookup : (AuthManager.new anonymousConfig.auth).lookupKey "secret"
      = some (some ⟨"secret", "", .normal, .inference, 0⟩) := by
    have hsame : compareDigest "secret" "secret" = some true := by decide
    change lookupKeyIn "secret" [("secret", ⟨"secret", "", .normal, .inference, 0⟩)] = _
    rw [lookupKeyIn, hsame]
  apply not_isolated_of_empty id rfl ⟨by decide, "secret", hbearer, hlookup⟩
  · rintro (hdenied | ⟨response, hread⟩)
    · cases hdenied
    · cases hread
  · rintro ⟨hmanaged, -⟩
    revert hmanaged
    decide
  · rfl

end OllamaQueueProxy
