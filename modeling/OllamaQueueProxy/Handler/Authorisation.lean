import OllamaQueueProxy.Handler.Ports

/-!
# Authorisation

Whenever the handler of a port calls `dispatch_request`, enqueues an item or looks into the
embedding cache, it does so for a caller that may: on the main port with authentication
disabled, for anyone; otherwise in the name of a configured key, whose scope includes
inference and whose ceiling bounds the tier.  On the main port that key was presented in
the `Authorization` header from an address that was not throttled
(`access_authorised`).
-/

open Program (Event Reaches Sat Calls calls_pure calls_perform)
open Json (Text text)

namespace OllamaQueueProxy

/-- Any answer may come. -/
abbrev anyAnswer : (op : Op) → op.Answer → Prop := fun _ _ => True

/-- The failures that were recorded for the address of the client, when the handler looked
at them, were below the limit. -/
def Unthrottled (cfg : AuthConfig) (r : Request) (h : List (Event Op.Answer)) : Prop :=
  ∃ failures now, ⟨.failures (AuthManager.clientIp r), (failures, now)⟩ ∈ h
    ∧ (AuthManager.recentFailures cfg failures now).length < cfg.rateLimit.maxFailures

/-- The request was authenticated, with the key if there is one. -/
def Authenticated (cfg : AuthConfig) (r : Request) (h : List (Event Op.Answer)) :
    Option ApiKeyConfig → Prop
  | none => cfg.enabled = false
  | some k => cfg.enabled = true ∧ k ∈ cfg.keys ∧ Unthrottled cfg r h
      ∧ r.header? "authorization" = some ("Bearer " ++ k.key)

/-- The key permits access in the name of a client, at a tier if there is one. -/
structure Permits (k : ApiKeyConfig) (clientId : Option String) (tier : Option Tier) :
    Prop where
  scope : k.allows .inference = true
  client : clientId = some k.clientId
  ceiling : ∀ t ∈ tier, t ≤ k.maxPriority

/-- Access to the upstream hosts or to the cache is authorised, after the history `h`. -/
inductive Authorised (cfg : Config) (r : Request) (h : List (Event Op.Answer))
    (clientId : Option String) (tier : Option Tier) : Port → Prop where
  | open (hdisabled : cfg.auth.enabled = false) : Authorised cfg r h clientId tier .main
  | key (k : ApiKeyConfig) (hauth : Authenticated cfg.auth r h (some k))
      (hpermits : Permits k clientId tier) : Authorised cfg r h clientId tier .main
  | listener (l : InjectionListenerConfig) (hl : l ∈ cfg.listeners) (k : ApiKeyConfig)
      (hk : cfg.auth.keyOf? l.injectAs = some k) (hpermits : Permits k clientId tier) :
      Authorised cfg r h clientId tier (.injection l.injectAs k)

/-! ### The way of a request -/

/-- The operation gives access only in the name of the client and at the tier, and only if
the scope of the key includes inference. -/
def AccessAs (keyCfg : Option ApiKeyConfig) (clientId : Option String) (tier : Tier)
    (op : Op) : Prop :=
  ∀ c t, op.access? = some (c, t) →
    (∀ k ∈ keyCfg, k.allows .inference = true) ∧ c = clientId ∧ ∀ u ∈ t, u = tier

/-- The operation gives no access. -/
def Op.Silent (op : Op) : Prop := op.access? = none

theorem Op.Silent.accessAs {op : Op} (h : op.Silent) (keyCfg : Option ApiKeyConfig)
    (clientId : Option String) (tier : Tier) :
  AccessAs keyCfg clientId tier op
  := by
  intro c t haccess
  rw [h] at haccess
  cases haccess

theorem ask_silent {op : Op} (h : op.access? = none) :
  Calls Op.Silent (ask op)
  := calls_perform h

variable (digest : Text → Text)

section

variable {keyCfg : Option ApiKeyConfig} {tier : Tier} {call : DispatchCall}

variable {P : Op → Prop}

/-- Apart from the item, what is called to submit a call gives no access. -/
theorem submit_calls (cfg : EmbeddingCacheConfig) (entry : Option CacheEntry)
    (hsilent : ∀ op : Op, op.Silent → P op)
    (henqueue : ∀ item : QueueItem DispatchCall, item.tier = tier → item.dispatchFn = call →
      item.nbytes = call.body.length → P (.enqueue item)) :
  Calls P (submit digest cfg tier call entry)
  := by
  have hsilently {α : Type} {p : Handler α} (hp : Calls Op.Silent p) : Calls P p :=
    hp.mono hsilent
  refine Calls.bind (hsilently (ask_silent rfl)) ?_
  intro enqueueTime
  refine Calls.bind (hsilently (ask_silent rfl)) ?_
  intro future
  apply Calls.bind
  · apply calls_perform (henqueue _ rfl rfl rfl)
  · intro result
    cases result with
    | error e => exact hsilently (refusal_calls (fun _ => rfl) (fun _ => rfl) _ _ e)
    | ok position =>
        refine Calls.bind (hsilently (ask_silent rfl)) ?_
        intro result
        cases result with
        | error e => apply calls_pure
        | ok response =>
            apply hsilently
            refine Calls.bind (ask_silent rfl) ?_
            intro now
            apply Calls.bind (count_calls (fun _ => rfl) _)
            intro _
            apply Calls.bind (store_calls fun _ _ _ _ _ _ _ => rfl)
            intro _
            apply calls_pure

theorem lookup_calls (cfg : EmbeddingCacheConfig) (entry : Option CacheEntry)
    (clientId : Option String) (hget : ∀ key, P (.cacheGet key clientId)) :
  Calls P (lookup digest cfg entry clientId)
  := by
  unfold lookup EmbeddingCache.get
  split
  · split
    · apply calls_pure
    · apply Calls.bind (calls_perform (hget _))
      intro value
      cases value <;> apply calls_pure
  · apply calls_pure

/-- Apart from the item and the lookup, what is called gives no access. -/
theorem lookupOrSubmit_calls (cfg : EmbeddingCacheConfig) (hsilent : ∀ op : Op, op.Silent → P op)
    (hget : ∀ key, P (.cacheGet key call.clientId))
    (henqueue : ∀ item : QueueItem DispatchCall, item.tier = tier → item.dispatchFn = call →
      item.nbytes = call.body.length → P (.enqueue item)) :
  Calls P (lookupOrSubmit digest cfg tier call)
  := by
  apply Calls.bind (lookup_calls digest cfg _ _ hget)
  intro cached
  cases cached with
  | some bytes =>
      apply Calls.mono _ hsilent
      apply Calls.bind (count_calls (fun _ => rfl) _)
      intro _
      apply calls_pure
  | none => exact submit_calls digest cfg _ hsilent henqueue

theorem lookupOrSubmit_accessAs (cfg : EmbeddingCacheConfig) (call : DispatchCall)
    (hscope : ∀ k ∈ keyCfg, k.allows .inference = true) :
  Calls (AccessAs keyCfg call.clientId tier) (lookupOrSubmit digest cfg tier call)
  := by
  apply lookupOrSubmit_calls
  · intro op hsilent
    exact hsilent.accessAs keyCfg call.clientId tier
  · intro key c t haccess
    obtain ⟨rfl, rfl⟩ : call.clientId = c ∧ none = t := by simpa [Op.access?] using haccess
    exact ⟨hscope, rfl, by simp⟩
  · rintro item rfl rfl _ c t haccess
    obtain ⟨rfl, rfl⟩ : item.dispatchFn.clientId = c ∧ some item.tier = t := by
      simpa [Op.access?] using haccess
    exact ⟨hscope, rfl, by simp⟩

theorem dispatchDirectly_accessAs (call : DispatchCall)
    (hscope : ∀ k ∈ keyCfg, k.allows .inference = true) :
  Calls (AccessAs keyCfg call.clientId tier) (dispatchDirectly call)
  := by
  apply Calls.bind
  · apply calls_perform
    intro c t haccess
    obtain ⟨rfl, rfl⟩ : call.clientId = c ∧ none = t := by simpa [Op.access?] using haccess
    exact ⟨hscope, rfl, by simp⟩
  · intro result
    cases result with
    | some response => apply calls_pure
    | none => apply calls_pure

end

/-- A request that passes the check of the scope gives access in the name of its client and
at its tier. -/
theorem enqueueRequest_accessAs (cfg : Config) (r : Request) (clientId : Option String)
    (tier : Tier) (pathOverride : Option Url.Octets) (keyCfg : Option ApiKeyConfig) :
  Calls (AccessAs keyCfg clientId tier)
    (enqueueRequest digest cfg r clientId tier pathOverride keyCfg)
  := by
  unfold enqueueRequest
  split
  · apply calls_pure
  · rename_i hallowed
    have hscope := allows_of_not_denied hallowed
    split
    · apply calls_pure
    · dsimp only
      split
      · exact dispatchDirectly_accessAs ⟨r, _, clientId, pathOverride⟩ hscope
      · exact lookupOrSubmit_accessAs digest _ ⟨r, _, clientId, pathOverride⟩ hscope

/-! ### Authentication -/

/-- The check of the rate limit succeeds only for addresses that are not throttled. -/
theorem isRateLimited_sat (cfg : AuthConfig) (r : Request) (h : List (Event Op.Answer)) :
  Sat anyAnswer (fun _ op => op.Silent)
    (fun h' limited => limited = false → Unthrottled cfg r h') h
    ((AuthManager.new cfg).isRateLimited (AuthManager.clientIp r))
  := by
  refine ⟨rfl, ?_⟩
  rintro ⟨failures, now⟩ _
  refine ⟨rfl, ?_⟩
  intro _ _ hlimited
  use failures, now
  constructor
  · simp
  · exact lt_of_not_ge (of_decide_eq_false hlimited)

theorem unauthorized_sat (cfg : AuthConfig) (message : String) (r : Request)
    (h : List (Event Op.Answer)) :
  Sat anyAnswer (fun _ op => op.Silent)
    (fun h' result => ∀ keyCfg, result = .passed keyCfg → Authenticated cfg r h' keyCfg) h
    (AuthManager.unauthorized message r)
  := by
  refine ⟨rfl, ?_⟩
  intro _ _ keyCfg hpassed
  cases hpassed

theorem Unthrottled.append {cfg : AuthConfig} {r : Request} {h : List (Event Op.Answer)}
    (hun : Unthrottled cfg r h) (es : List (Event Op.Answer)) :
  Unthrottled cfg r (h ++ es)
  := by
  obtain ⟨failures, now, hmem, hlt⟩ := hun
  exact ⟨failures, now, List.mem_append_left es hmem, hlt⟩

/-- `authenticate` gives no access, and lets a request pass only if it is authenticated. -/
theorem authenticate_sat (cfg : AuthConfig) (r : Request) (h : List (Event Op.Answer)) :
  Sat anyAnswer (fun _ op => op.Silent)
    (fun h' result => ∀ keyCfg, result = .passed keyCfg → Authenticated cfg r h' keyCfg) h
    ((AuthManager.new cfg).authenticate r)
  := by
  unfold AuthManager.authenticate
  split
  · rename_i hdisabled
    intro keyCfg hpassed
    obtain rfl := AuthResult.passed.inj hpassed
    exact hdisabled
  · rename_i henabled
    rw [Program.sat_bind]
    apply (isRateLimited_sat cfg r h).mono id
    intro h' limited hlimited
    split
    · intro keyCfg hpassed
      cases hpassed
    · rename_i hun
      split
      · apply unauthorized_sat
      · rename_i provided hbearer
        split
        · intro keyCfg hpassed
          cases hpassed
        · apply unauthorized_sat
        · rename_i k hk
          refine ⟨rfl, ?_⟩
          intro _ _ keyCfg hpassed
          obtain rfl := AuthResult.passed.inj hpassed
          obtain ⟨hmem, rfl⟩ := mem_of_lookupKey hk
          refine ⟨?_, hmem, ?_, bearerKey?_eq_some_iff.mp hbearer⟩
          · exact Bool.of_not_eq_false henabled
          · exact (hlimited (by simpa using hun)).append _

/-! ### The ports -/

theorem enforcePriorityCeiling_le (requested : Tier) (k : ApiKeyConfig) :
  AuthManager.enforcePriorityCeiling requested (some k) ≤ k.maxPriority
  := by
  simp only [AuthManager.enforcePriorityCeiling]
  split_ifs with hlt
  · apply le_refl
  · exact le_of_not_gt hlt

theorem injectionTier_le (r : Request) (k : ApiKeyConfig) :
  injectionTier r k ≤ k.maxPriority
  := by
  unfold injectionTier
  split_ifs with hlt
  · apply le_refl
  · exact le_of_not_gt hlt

/-- On the main port, access in the name of the resolved client and at the capped tier is
authorised. -/
theorem authorised_of_authenticated {cfg : Config} {r : Request}
    {h : List (Event Op.Answer)} {keyCfg : Option ApiKeyConfig}
    (hauth : Authenticated cfg.auth r h keyCfg) {op : Op} {c : Option String} {t : Option Tier}
    (has : AccessAs keyCfg (resolveClientId cfg.auth r keyCfg)
      (AuthManager.enforcePriorityCeiling r.parsePriority keyCfg) op)
    (haccess : op.access? = some (c, t)) :
  Authorised cfg r h c t .main
  := by
  obtain ⟨hscope, rfl, htier⟩ := has c t haccess
  cases keyCfg with
  | none => exact .open hauth
  | some k =>
      apply Authorised.key k hauth
      constructor
      · exact hscope k rfl
      · rw [resolveClientId, if_pos hauth.1]
      · intro u hu
        rw [htier u hu]
        apply enforcePriorityCeiling_le

theorem proxyAuthenticated_accessAs (cfg : Config) (r : Request)
    (keyCfg : Option ApiKeyConfig) :
  Calls (AccessAs keyCfg (resolveClientId cfg.auth r keyCfg)
      (AuthManager.enforcePriorityCeiling r.parsePriority keyCfg))
    (proxyAuthenticated digest cfg r keyCfg)
  := by
  simp only [proxyAuthenticated]
  split
  · apply Calls.bind (enqueueRequest_accessAs digest cfg r _ _ _ keyCfg)
    intro outcome
    apply calls_pure
  · apply enqueueRequest_accessAs

theorem Authenticated.append {cfg : AuthConfig} {r : Request} {h : List (Event Op.Answer)}
    {keyCfg : Option ApiKeyConfig} (hauth : Authenticated cfg r h keyCfg)
    (es : List (Event Op.Answer)) :
  Authenticated cfg r (h ++ es) keyCfg
  := by
  cases keyCfg with
  | none => exact hauth
  | some k => exact ⟨hauth.1, hauth.2.1, hauth.2.2.1.append es, hauth.2.2.2⟩

/-- The assertion that all access is authorised. -/
def AccessAuthorised (cfg : Config) (port : Port) (r : Request) (h : List (Event Op.Answer))
    (op : Op) : Prop :=
  ∀ c t, op.access? = some (c, t) → Authorised cfg r h c t port

theorem accessAuthorised_of_silent {op : Op} (hop : op.access? = none) (cfg : Config)
    (port : Port) (r : Request) (h : List (Event Op.Answer)) :
  AccessAuthorised cfg port r h op
  := by
  intro c t haccess
  rw [hop] at haccess
  cases haccess

theorem proxyHandler_sat (cfg : Config) (r : Request) :
  Sat anyAnswer (AccessAuthorised cfg .main r) (fun _ _ => True) [] (proxyHandler digest cfg r)
  := by
  apply Program.sat_perform_bind.mpr
  use accessAuthorised_of_silent rfl cfg .main r _
  intro shutting _
  split
  · trivial
  · rw [Program.sat_bind]
    apply (authenticate_sat cfg.auth r _).mono
    · intro h op hop
      exact accessAuthorised_of_silent hop cfg .main r h
    · intro h result hpassed
      cases result with
      | raised | refused response => trivial
      | passed keyCfg =>
          apply (proxyAuthenticated_accessAs digest cfg r keyCfg).sat
          intro es op has c t haccess
          exact authorised_of_authenticated ((hpassed keyCfg rfl).append es) has haccess

/-- On the port of a listener, access in the name of its key is authorised. -/
theorem authorised_of_injectionPort {cfg : Config} {r : Request} {h : List (Event Op.Answer)}
    {injectAs : String} {k : ApiKeyConfig} (hport : .injection injectAs k ∈ cfg.ports) {op : Op}
    {c : Option String} {t : Option Tier}
    (has : AccessAs (some k) (some injectAs) (injectionTier r k) op)
    (haccess : op.access? = some (c, t)) :
  Authorised cfg r h c t (.injection injectAs k)
  := by
  obtain ⟨hscope, rfl, htier⟩ := has c t haccess
  obtain ⟨l, hl, hk, rfl⟩ := exists_listener hport
  apply Authorised.listener l hl k hk
  constructor
  · exact hscope k rfl
  · rw [(keyOf?_eq_some hk).2]
  · intro u hu
    rw [htier u hu]
    apply injectionTier_le

theorem injectionHandler_sat (cfg : Config) {injectAs : String} {k : ApiKeyConfig}
    (hport : .injection injectAs k ∈ cfg.ports) (r : Request) :
  Sat anyAnswer (AccessAuthorised cfg (.injection injectAs k) r) (fun _ _ => True) []
    (injectionHandler digest cfg injectAs k r)
  := by
  apply Program.sat_perform_bind.mpr
  use accessAuthorised_of_silent rfl cfg _ r _
  intro serving _
  split
  · trivial
  · apply Program.sat_perform_bind.mpr
    use accessAuthorised_of_silent rfl cfg _ r _
    intro shutting _
    split
    · trivial
    · apply (enqueueRequest_accessAs digest cfg r _ _ _ _).sat
      intro es op has c t haccess
      exact authorised_of_injectionPort hport has haccess

/-- The handler of every port calls the operations that give access only when they are
authorised. -/
theorem handle_sat (cfg : Config) {port : Port} (hport : port ∈ cfg.ports) (r : Request) :
  Sat anyAnswer (AccessAuthorised cfg port r) (fun _ _ => True) [] (handle digest cfg port r)
  := by
  cases port with
  | main => exact proxyHandler_sat digest cfg r
  | injection injectAs k => exact injectionHandler_sat digest cfg hport r

/-- Whenever a handler gives access to the upstream hosts or to the cache, the access is
authorised, whatever the state of the application was at any point. -/
theorem access_authorised (cfg : Config) {port : Port} (hport : port ∈ cfg.ports)
    {r : Request} {es : List (Event Op.Answer)} {op : Op} {next : op.Answer → Handler Outcome}
    (hreaches : Reaches anyAnswer (handle digest cfg port r) es (.call op next))
    {clientId : Option String} {tier : Option Tier}
    (haccess : op.access? = some (clientId, tier)) :
  Authorised cfg r es clientId tier port
  := (handle_sat digest cfg hport r).called hreaches clientId tier haccess

/-- A configuration with authentication and one key. -/
def sampleConfig : Config :=
  .withoutListeners ⟨false, 50⟩ (.ofKey ⟨"secret", "chat", .normal, .inference, 0⟩)
    ⟨false, 32768, "oqp:embed:"⟩ ⟨"5m", false⟩

/-- A request with the key, which asks for a priority above its ceiling and in the name of
another client. -/
def sampleRequest : Request where
  method := "POST"
  target := Url.ascii "/api/chat"
  queryString := []
  headers := [("authorization", "Bearer secret"), ("x-queue-priority", "high"),
    ("x-client-id", "other")]
  clientHost := some "127.0.0.1"
  requestId := "r"
  chunks := []
  body := .empty
  sum_chunks := Bytes.sum_nil_eq_length_empty

/-- The replies up to the point at which the item is enqueued. -/
def sampleReplies : List Reply :=
  [.flag false, .failures [] 0, .done, .done, .time 1, .future 0]

/-- The access that a program is about to get, if any. -/
def nextAccess? : Handler Outcome → Option (Option String × Option Tier)
  | .call op _ => op.access?
  | .pure _ => none

/-- The request is enqueued in the name of the client of the key and at its ceiling, and
this is authorised. -/
theorem sample_authorised :
  ∃ es, Authorised sampleConfig sampleRequest es (some "chat") (some .normal) .main
  := by
  have haccess : ((Program.run Op.read? (handle id sampleConfig .main sampleRequest)
      sampleReplies).bind fun result => nextAccess? result.2)
        = some (some "chat", some .normal) := by
    decide +kernel
  obtain ⟨⟨es, q⟩, hrun, hnext⟩ := Option.bind_eq_some_iff.mp haccess
  cases q with
  | pure outcome => cases hnext
  | call op next =>
      use es
      exact access_authorised id sampleConfig List.mem_cons_self
        (Program.reaches_of_run hrun fun _ => trivial) hnext

end OllamaQueueProxy
