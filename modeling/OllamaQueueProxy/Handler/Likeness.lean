import OllamaQueueProxy.Handler.Ports
import OllamaQueueProxy.Library.Relation

/-!
# Likeness of requests

Two calls of `dispatch_request` are alike if they are made in the name of the same client and
the hosts are sent the same request.  Handlers are alike if they call the same operations, up
to calls that are alike: nothing else in the application can tell them apart.
`_enqueue_request` is alike for requests that differ only in what is not sent upstream
(`enqueueRequest_related`).
-/

open Program (Related)
open Json (Text)
open Url (Octets)

namespace OllamaQueueProxy

/-! ### Calls -/

/-- The requests to a host are the same; the order of headers does not count. -/
structure Outgoing.Same (o o' : Outgoing) : Prop where
  method : o.method = o'.method
  path : o.path = o'.path
  query : o.query = o'.query
  headers : ∀ name, Dict.get? o.headers name = Dict.get? o'.headers name
  content : o.content = o'.content

/-- Both calls are refused with the same answer, or the same is sent to the hosts. -/
def SameOutgoing : Except Response Outgoing → Except Response Outgoing → Prop
  | .error e, .error e' => e = e'
  | .ok o, .ok o' => o.Same o'
  | _, _ => False

/-- The calls cannot be told apart. -/
structure DispatchCall.Alike (cfg : ProxyConfig) (c c' : DispatchCall) : Prop where
  clientId : c.clientId = c'.clientId
  body : c.body = c'.body
  path : c.path = c'.path
  requestId : c.request.requestId = c'.request.requestId
  outgoing : SameOutgoing (c.outgoing cfg) (c'.outgoing cfg)

/-- The call is refused for its path. -/
abbrev DispatchCall.Refused (cfg : ProxyConfig) (c : DispatchCall) : Prop :=
  modelManagementPaths.contains c.path = true ∧ cfg.allowModelManagement = false

/-- Calls with the same path and body are alike if what they take from their requests is the
same, and the headers are the same that they forward unless they are refused. -/
theorem DispatchCall.Alike.of_headers {cfg : ProxyConfig} {c c' : DispatchCall}
    (hclient : c.clientId = c'.clientId) (hbody : c.body = c'.body) (hpath : c.path = c'.path)
    (hid : c.request.requestId = c'.request.requestId)
    (hmethod : c.request.method = c'.request.method)
    (hquery : c.request.urlQuery = c'.request.urlQuery)
    (hheaders : ¬ c.Refused cfg → ∀ name,
      Dict.get? c.forwardHeaders name = Dict.get? c'.forwardHeaders name) :
  c.Alike cfg c'
  := by
  refine ⟨hclient, hbody, hpath, hid, ?_⟩
  unfold DispatchCall.outgoing
  rw [← hpath, ← hid, ← hmethod, ← hquery, ← hbody]
  by_cases hrefused : c.Refused cfg
  · rw [if_pos hrefused, if_pos hrefused]
    rfl
  · rw [if_neg hrefused, if_neg hrefused]
    exact ⟨rfl, rfl, rfl, hheaders hrefused, rfl⟩

/-- Calls that are alike forward the same headers, unless they are refused. -/
theorem DispatchCall.Alike.forwardHeaders {cfg : ProxyConfig} {c c' : DispatchCall}
    (h : c.Alike cfg c') (hsent : ¬ c.Refused cfg) (name : String) :
  Dict.get? c.forwardHeaders name = Dict.get? c'.forwardHeaders name
  := by
  have houtgoing := h.outgoing
  unfold DispatchCall.outgoing at houtgoing
  rw [← h.path, if_neg hsent, if_neg hsent] at houtgoing
  exact houtgoing.headers name

/-- The items are the same up to their calls, which are alike. -/
structure AlikeItems (cfg : ProxyConfig) (item item' : QueueItem DispatchCall) : Prop where
  dispatchFn : item.dispatchFn.Alike cfg item'.dispatchFn
  rest : { item with dispatchFn := item'.dispatchFn } = item'

/-- The operations are the same up to calls that are alike; they are compared for the same
answers. -/
inductive Op.Alike (admits : (op : Op) → op.Answer → Prop) (cfg : ProxyConfig) :
    (op op' : Op) → (op.Answer → op'.Answer → Prop) → Prop where
  | same (op : Op) : Op.Alike admits cfg op op fun r s => r = s ∧ admits op r
  | enqueue {item item' : QueueItem DispatchCall} (h : AlikeItems cfg item item') :
      Op.Alike admits cfg (.enqueue item) (.enqueue item') fun r s =>
        r = s ∧ admits (.enqueue item) r
  | await {item item' : QueueItem DispatchCall} (h : AlikeItems cfg item item') :
      Op.Alike admits cfg (.await item) (.await item') fun r s =>
        r = s ∧ admits (.await item) r
  | dispatch {c c' : DispatchCall} (h : c.Alike cfg c') :
      Op.Alike admits cfg (.dispatch c) (.dispatch c') fun r s =>
        r = s ∧ admits (.dispatch c) r

variable {admits : (op : Op) → op.Answer → Prop} {cfg : ProxyConfig} {α : Type}

theorem related_refl (p : Handler α) :
  Related (Op.Alike admits cfg) Eq p p
  := .refl (fun op => ⟨admits op, .same op⟩) p

/-! ### The way of a request -/

theorem refusal_congr {r r' : Request} (h : r.requestId = r'.requestId) :
  refusal r = refusal r'
  := by
  funext clientId e
  cases e <;> simp only [refusal, h]

theorem failure_congr {r r' : Request} (h : r.requestId = r'.requestId) :
  failure r = failure r'
  := by
  funext e
  cases e <;> simp only [failure, h]

variable {digest : Text → Text} {c c' : DispatchCall}

theorem submit_related (h : c.Alike cfg c') (ecfg : EmbeddingCacheConfig) (tier : Tier)
    (entry : Option CacheEntry) :
  Related (Op.Alike admits cfg) Eq (submit digest ecfg tier c entry)
    (submit digest ecfg tier c' entry)
  := by
  apply Related.bind (.perform (.same .monotonic))
  rintro enqueueTime _ ⟨rfl, -⟩
  apply Related.bind (.perform (.same .createFuture))
  rintro future _ ⟨rfl, -⟩
  have hitem : AlikeItems cfg
      ⟨tier, enqueueTime, c.request.requestId, future, c, 0, c.body.length⟩
      ⟨tier, enqueueTime, c'.request.requestId, future, c', 0, c'.body.length⟩ :=
    ⟨h, by rw [h.requestId, h.body]⟩
  apply Related.bind (.perform (.enqueue hitem))
  rintro result _ ⟨rfl, -⟩
  cases result with
  | error e =>
      rw [refusal_congr h.requestId, h.clientId]
      apply related_refl
  | ok position =>
      apply Related.bind (.perform (.await hitem))
      rintro result _ ⟨rfl, -⟩
      rw [failure_congr h.requestId, h.clientId]
      cases result <;> apply related_refl

theorem dispatchDirectly_related (h : c.Alike cfg c') :
  Related (Op.Alike admits cfg) Eq (dispatchDirectly c) (dispatchDirectly c')
  := by
  apply Related.bind (.perform (.dispatch h))
  rintro result _ ⟨rfl, -⟩
  cases result <;> apply related_refl

theorem lookupOrSubmit_related (h : c.Alike cfg c') (ecfg : EmbeddingCacheConfig) (tier : Tier) :
  Related (Op.Alike admits cfg) Eq (lookupOrSubmit digest ecfg tier c)
    (lookupOrSubmit digest ecfg tier c')
  := by
  unfold lookupOrSubmit
  rw [h.path, h.body, h.clientId]
  apply Related.bind (related_refl _)
  rintro cached _ rfl
  cases cached with
  | some b => apply related_refl
  | none => exact submit_related h ecfg tier _

/-- `_enqueue_request` treats requests alike that have the same body and lead to calls that
are alike. -/
theorem enqueueRequest_related {cfg : Config} {r r' : Request} {clientId : Option String}
    {pathOverride pathOverride' : Option Octets} {keyCfg : Option ApiKeyConfig} (tier : Tier)
    (hid : r.requestId = r'.requestId)
    (hread : readBody r cfg.proxy.maxRequestBodyMb = readBody r' cfg.proxy.maxRequestBodyMb)
    (hpath : pathOverride.getD r.urlPath = pathOverride'.getD r'.urlPath)
    (hcall : (∀ k ∈ keyCfg, k.allows .inference = true) →
      (∃ body, readBody r cfg.proxy.maxRequestBodyMb = .ok body) → ∀ body,
      DispatchCall.Alike cfg.proxy ⟨r, body, clientId, pathOverride⟩
        ⟨r', body, clientId, pathOverride'⟩) :
  Related (Op.Alike admits cfg.proxy) Eq
    (enqueueRequest digest cfg r clientId tier pathOverride keyCfg)
    (enqueueRequest digest cfg r' clientId tier pathOverride' keyCfg)
  := by
  unfold enqueueRequest
  rw [← hread, ← hpath, scopeDenied, scopeDenied, ← hid]
  split
  · apply related_refl
  · rename_i hallowed
    have hscope := allows_of_not_denied hallowed
    split
    · apply related_refl
    · rename_i body hbody
      dsimp only
      split
      · exact dispatchDirectly_related (hcall hscope ⟨body, hbody⟩ _)
      · exact lookupOrSubmit_related (hcall hscope ⟨body, hbody⟩ _) _ _

/-! ### Authentication -/

/-- Only the header `Authorization`, the address and the identifier of a request matter to its
authentication. -/
theorem authenticate_congr (a : AuthManager) {r r' : Request}
    (hauthorization : r.header? "authorization" = r'.header? "authorization")
    (hhost : r.clientHost = r'.clientHost) (hid : r.requestId = r'.requestId) :
  a.authenticate r = a.authenticate r'
  := by
  have hip : AuthManager.clientIp r = AuthManager.clientIp r' := by
    rw [AuthManager.clientIp, hhost, AuthManager.clientIp]
  have hunauthorized (message : String) :
      AuthManager.unauthorized message r = AuthManager.unauthorized message r' := by
    rw [AuthManager.unauthorized, hip, hid, AuthManager.unauthorized]
  unfold AuthManager.authenticate
  rw [hip, hid, hauthorization]
  simp only [hunauthorized]

end OllamaQueueProxy
