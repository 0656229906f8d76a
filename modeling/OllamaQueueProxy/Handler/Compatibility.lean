import OllamaQueueProxy.Cache.Transparency
import OllamaQueueProxy.Handler.Likeness

/-!
# The compatibility layer

A request for `/v1/embeddings` on the main port has the same effects as one for `/api/embed`
that is the same otherwise, and what the handler makes of its outcome is what `wrapOutcome`
says (`proxyHandler_related`).  Answers without success are so the same.  A successful answer
is wrapped, but the headers that tell how the request was served are lost with it: the requests
are answered equivalently exactly if nothing is answered successfully (`equivalent_iff`).
-/

open Program (Event Reaches Related Sat Calls Corresponds calls_pure calls_perform)
open Json (Text text)
open Url (Octets ascii)

namespace OllamaQueueProxy

/-- The request for another target. -/
def Request.withTarget (r : Request) (target : Octets) : Request := { r with target := target }

/-- The request for `/v1/embeddings`. -/
def Request.toCompat (r : Request) : Request := r.withTarget (ascii "/v1/embeddings")

/-- The request for `/api/embed`. -/
def Request.toNative (r : Request) : Request := r.withTarget (ascii "/api/embed")

/-- The headers that tell how a request was served. -/
def visibilityHeaders : List String :=
  ["X-Queue-Wait-Time", "X-Queue-Position", "X-Failover-Host", "X-Cache"]

/-- The content has the form of OpenAI, with the vectors of the native one in their order, and
its model. -/
def Wraps (wrapped native : Content) : Prop :=
  ∃ fields entries vectors data, native = .json (.object fields)
    ∧ embeddingsOf? fields = some vectors ∧ wrapped = .json (.object entries)
    ∧ Dict.get? entries (text "object") = some (.string (text "list"))
    ∧ Dict.get? entries (text "data") = some (.array data)
    ∧ data.length = vectors.length
    ∧ (∀ i v, vectors[i]? = some v → data[i]? = some (wrapEmbedding i v))
    ∧ Dict.get? entries (text "model") = some ((Dict.get? fields (text "model")).getD (.string []))

/-- The outcome stands for the one of a native request: a successful answer is wrapped and
tells the same about how the request was served, and another outcome is the same. -/
def Translates (outcome : Outcome) : Outcome → Prop
  | .raised => outcome = .raised
  | .response native =>
      if native.statusCode = 200 then
        ∃ response, outcome = .response response ∧ response.statusCode = 200
          ∧ Wraps response.content native.content
          ∧ ∀ name ∈ visibilityHeaders,
            Dict.get? response.headers name = Dict.get? native.headers name
      else outcome = .response native

/-- The queue refuses requests with the status codes for that. -/
def QueueAnswers : (op : Op) → op.Answer → Prop
  | .enqueue _, .error e => e.Unsuccessful
  | _, _ => True

/-- The operation is answered successfully: with bytes from the cache that can be served, or
with a response with the status 200. -/
def Successful : Event Op.Answer → Prop
  | ⟨.cacheGet _ _, .ok (some b)⟩ => ∃ j, b.json = some j ∧ j.render?.isSome = true
  | ⟨.await _, .ok response⟩ => response.statusCode = 200
  | _ => False

variable (digest : Text → Text)

/-- When the request for `/api/embed` is answered by the events and with the outcome, the one
for `/v1/embeddings` may be answered by events that are alike, and the outcome of it stands for
the native one. -/
def Equivalent (cfg : Config) (r : Request) (es : List (Event Op.Answer)) (outcome : Outcome) :
    Prop :=
  ∃ es' outcome', Reaches QueueAnswers (proxyHandler digest cfg r.toCompat) es' (.pure outcome')
    ∧ List.Forall₂ (Corresponds (Op.Alike QueueAnswers cfg.proxy)) es' es
    ∧ Translates outcome' outcome

variable {digest} {cfg : Config} {r : Request}

/-! ### The wrapping -/

/-- What the compatibility layer answers wraps the native content. -/
theorem wraps_of_wrapResponse {native wrapped : Json} (h : wrapResponse native = some wrapped) :
  Wraps (.json wrapped) (.json native)
  := by
  cases native with
  | object fields =>
      obtain ⟨vectors, hvectors, rfl⟩ := Option.map_eq_some_iff.mp h
      refine ⟨fields, _, vectors, vectors.mapIdx wrapEmbedding, rfl, hvectors, rfl, rfl, rfl, ?_,
        ?_, rfl⟩
      · rw [List.length_mapIdx]
      · intro i v hv
        rw [List.getElem?_mapIdx, hv]
        rfl
  | _ => cases h

/-! ### The requests -/

/-- What follows the path in the URL. -/
def Request.urlRest (r : Request) : Octets :=
  if r.queryString.isEmpty then [] else Url.questionMark :: r.queryString

theorem relativeUrl_eq (r : Request) :
  r.relativeUrl = Url.removeUnsafe r.scopePath ++ Url.removeUnsafe r.urlRest
  := by
  unfold Request.relativeUrl Request.urlRest
  rw [← Url.removeUnsafe_append]
  split
  · rw [List.append_nil]
  · rfl

theorem pathOf_urlRest (r : Request) :
  Url.pathOf (Url.removeUnsafe r.urlRest) = []
  := by
  unfold Request.urlRest
  split <;> rfl

theorem scopePath_toNative (r : Request) :
  r.toNative.scopePath = ascii "/api/embed"
  := by
  change Url.decode (ascii "/api/embed") = _
  decide

theorem scopePath_toCompat (r : Request) :
  r.toCompat.scopePath = ascii "/v1/embeddings"
  := by
  change Url.decode (ascii "/v1/embeddings") = _
  decide

theorem removeUnsafe_toNative (r : Request) :
  Url.removeUnsafe r.toNative.scopePath = ascii "/api/embed"
  := by
  rw [scopePath_toNative]
  decide

theorem removeUnsafe_toCompat (r : Request) :
  Url.removeUnsafe r.toCompat.scopePath = ascii "/v1/embeddings"
  := by
  rw [scopePath_toCompat]
  decide

theorem urlPath_toNative (r : Request) :
  r.toNative.urlPath = ascii "/api/embed"
  := by
  rw [Request.urlPath, relativeUrl_eq, removeUnsafe_toNative,
    Url.pathOf_append _ (by decide +kernel), pathOf_urlRest, List.append_nil]

theorem urlQuery_toCompat (r : Request) :
  r.toCompat.urlQuery = r.toNative.urlQuery
  := by
  rw [Request.urlQuery, Request.urlQuery, relativeUrl_eq, relativeUrl_eq, removeUnsafe_toCompat,
    removeUnsafe_toNative, Url.queryOf_append _ (by decide +kernel),
    Url.queryOf_append _ (by decide +kernel)]
  rfl

theorem nativePath_toCompat (r : Request) :
  r.toCompat.nativePath = some (ascii "/api/embed")
  := by
  rw [Request.nativePath, Request.routePath, Request.matchedPath, scopePath_toCompat]
  decide

theorem nativePath_toNative (r : Request) :
  r.toNative.nativePath = none
  := by
  rw [Request.nativePath, Request.routePath, Request.matchedPath, scopePath_toNative]
  decide

/-! ### The effects -/

variable {admits : (op : Op) → op.Answer → Prop}

/-- The target of a request plays no part in its authentication, its body and its headers. -/
theorem authenticate_withTarget (a : AuthManager) (r : Request) (target : Octets) :
  a.authenticate (r.withTarget target) = a.authenticate r
  := authenticate_congr a rfl rfl rfl

theorem resolveClientId_withTarget (cfg : AuthConfig) (r : Request) (target : Octets)
    (keyCfg : Option ApiKeyConfig) :
  resolveClientId cfg (r.withTarget target) keyCfg = resolveClientId cfg r keyCfg
  := by
  cases keyCfg <;> rfl

theorem readBody_withTarget (r : Request) (target : Octets) (maxMb : ℤ) :
  readBody (r.withTarget target) maxMb = readBody r maxMb
  := rfl

theorem forwardHeaders_withTarget (r : Request) (target : Octets) (body : Bytes)
    (clientId : Option String) (path path' : Option Octets) :
  (DispatchCall.mk (r.withTarget target) body clientId path).forwardHeaders =
    (DispatchCall.mk r body clientId path').forwardHeaders
  := rfl

theorem alike_toCompat (r : Request) (body : Bytes) (clientId : Option String) :
  DispatchCall.Alike cfg.proxy ⟨r.toCompat, body, clientId, some (ascii "/api/embed")⟩
    ⟨r.toNative, body, clientId, none⟩
  := by
  refine .of_headers rfl rfl (urlPath_toNative r).symm rfl rfl (urlQuery_toCompat r) ?_
  intro _ name
  rw [Request.toCompat, Request.toNative, forwardHeaders_withTarget r _ body clientId _ none,
    forwardHeaders_withTarget r _ body clientId _ none]

/-- Both requests have the same effects, and the outcome of the native one is wrapped. -/
theorem proxyHandler_related (digest : Text → Text) (cfg : Config) (r : Request) :
  Related (Op.Alike admits cfg.proxy) (fun outcome native => outcome = wrapOutcome native)
    (proxyHandler digest cfg r.toCompat) (proxyHandler digest cfg r.toNative)
  := by
  apply Related.bind (.perform (.same .shuttingDown))
  rintro shutting _ ⟨rfl, -⟩
  split
  · have hstatus :
        (Response.error 503 "proxy is shutting down" r.requestId []).statusCode ≠ 200 := by
      intro hsuccess
      cases hsuccess
    exact .pure (wrapOutcome_of_ne hstatus).symm
  · have hauth : (AuthManager.new cfg.auth).authenticate r.toCompat
        = (AuthManager.new cfg.auth).authenticate r.toNative := by
      rw [Request.toCompat, Request.toNative, authenticate_withTarget, authenticate_withTarget]
    rw [hauth]
    apply Related.bind (.of_sat (h := []) (authenticate_refuses _ _) fun op => .same op)
    rintro result _ ⟨rfl, hrefuses⟩
    cases result with
    | raised => exact .pure rfl
    | refused response => exact .pure (wrapOutcome_of_ne hrefuses).symm
    | passed keyCfg =>
        have hclient : resolveClientId cfg.auth r.toCompat keyCfg
            = resolveClientId cfg.auth r.toNative keyCfg := by
          rw [Request.toCompat, Request.toNative, resolveClientId_withTarget,
            resolveClientId_withTarget]
        have hread : readBody r.toCompat cfg.proxy.maxRequestBodyMb
            = readBody r.toNative cfg.proxy.maxRequestBodyMb := by
          rw [Request.toCompat, Request.toNative, readBody_withTarget, readBody_withTarget]
        simp only [proxyAuthenticated, nativePath_toCompat, nativePath_toNative, hclient]
        apply Related.map_left
        · refine enqueueRequest_related _ rfl hread (urlPath_toNative r).symm ?_
          intro _ _ body
          apply alike_toCompat
        · rintro outcome _ rfl
          rfl

/-! ### Success -/

/-- The operation cannot be answered successfully. -/
def Op.plain : Op → Bool
  | .cacheGet _ _ | .await _ => false
  | _ => true

/-- No operation was answered successfully. -/
def Unanswered (h : List (Event Op.Answer)) : Prop := ∀ e ∈ h, ¬ Successful e

/-- The outcome of the history is a response with the status 200, with a header that tells how
it was served, if some operation was answered successfully, and none with that status
otherwise. -/
structure Reports (h : List (Event Op.Answer)) (outcome : Outcome) : Prop where
  success : ¬ Unanswered h → ∃ response, outcome = .response response
    ∧ response.statusCode = 200
    ∧ ∃ name ∈ visibilityHeaders, Dict.get? response.headers name ≠ none
  failure : Unanswered h → ∀ response, outcome = .response response → response.statusCode ≠ 200

variable {h : List (Event Op.Answer)} {α : Type}

theorem not_successful_of_plain {op : Op} {r : op.Answer} (hop : op.plain = true) :
  ¬ Successful ⟨op, r⟩
  := by
  cases op with
  | cacheGet | await => cases hop
  | _ => exact id

theorem plain_of_ofAuth {op : Op} (h : op.ofAuth = true) :
  op.plain = true
  := by
  cases op with
  | cacheGet | await => cases h
  | _ => rfl

theorem unanswered_append {e : Event Op.Answer} :
  Unanswered (h ++ [e]) ↔ Unanswered h ∧ ¬ Successful e
  := by
  rw [Unanswered, List.forall_mem_append, List.forall_mem_singleton]
  rfl

theorem unanswered_append_plain {op : Op} {r : op.Answer} (hop : op.plain = true) :
  Unanswered (h ++ [⟨op, r⟩]) ↔ Unanswered h
  := by
  rw [unanswered_append]
  exact and_iff_left (not_successful_of_plain hop)

/-- The operations of a plain program are not answered successfully. -/
theorem sat_bind_of_plain {β : Type} {p : Handler β} {f : β → Handler α}
    {post : List (Event Op.Answer) → α → Prop} {good : β → Prop}
    (hp : Sat QueueAnswers (fun _ op => op.plain = true) (fun _ b => good b) h p)
    (hf : ∀ h' b, good b → (Unanswered h' ↔ Unanswered h) →
      Sat QueueAnswers (fun _ _ => True) post h' (f b)) :
  Sat QueueAnswers (fun _ _ => True) post h (p >>= f)
  := by
  have hkept : Sat QueueAnswers (fun _ op => op.plain = true)
      (fun h' b => good b ∧ (Unanswered h' ↔ Unanswered h)) h p := by
    apply hp.and_stable Iff.rfl
    intro h' op r hsame hop
    rw [unanswered_append_plain hop, hsame]
  rw [Program.sat_bind]
  exact hkept.mono (fun _ => trivial) fun hb => hf _ _ hb.1 hb.2

theorem sat_plain_bind {β : Type} {p : Handler β} {f : β → Handler α}
    {post : List (Event Op.Answer) → α → Prop} (hp : Calls (fun op => op.plain = true) p)
    (hf : ∀ h' b, (Unanswered h' ↔ Unanswered h) →
      Sat QueueAnswers (fun _ _ => True) post h' (f b)) :
  Sat QueueAnswers (fun _ _ => True) post h (p >>= f)
  := sat_bind_of_plain (hp.sat fun _ _ hop => hop) fun h' b _ => hf h' b

/-- An answer without success after no successful operation. -/
theorem reports_of_ne {response : Response} (hh : Unanswered h) (hne : response.statusCode ≠ 200) :
  Reports h (.response response)
  := by
  constructor
  · intro hsome
    cases hsome hh
  · rintro _ response' hresponse
    obtain rfl := Outcome.response.inj hresponse
    exact hne

theorem reports_raised (hh : Unanswered h) :
  Reports h .raised
  := by
  constructor
  · intro hsome
    cases hsome hh
  · rintro _ response' hresponse
    cases hresponse

theorem refusal_reports (r : Request) (clientId : Option String) {e : EnqueueError}
    (he : e.Unsuccessful) (hh : Unanswered h) :
  Sat QueueAnswers (fun _ _ => True) Reports h (refusal r clientId e)
  := by
  cases e with
  | queueFull tier statusCode | queueOverCapacity tier statusCode =>
      obtain ⟨code, rfl⟩ := he
      apply sat_plain_bind (calls_perform rfl)
      intro h₁ retryAfter hsame
      apply sat_plain_bind (count_calls (fun _ => rfl) _)
      intro h₂ _ hsame'
      exact reports_of_ne (hsame'.mpr (hsame.mpr hh)) (unsuccessful_statusCode code)
  | queuePaused tier =>
      apply reports_of_ne hh
      intro hsuccess
      cases hsuccess
  | zeroDivision => exact reports_raised hh

/-- The answer to an item that was processed tells how long it waited. -/
theorem get?_setWait (response : Response) (waitMs : ℤ) (position : ℕ) :
  Dict.get? (response.setWait waitMs position).headers "X-Queue-Wait-Time"
    = some (toString waitMs)
  := by
  unfold Response.setWait Response.setHeader
  dsimp only
  split
  · rw [Dict.get?_set_of_ne _ (by decide), Dict.get?_set_self]
  · rw [Dict.get?_set_self]

theorem submit_reports (digest : Text → Text) (cfg : EmbeddingCacheConfig) (tier : Tier)
    (call : DispatchCall) (entry : Option CacheEntry) (hh : Unanswered h) :
  Sat QueueAnswers (fun _ _ => True) Reports h (submit digest cfg tier call entry)
  := by
  apply sat_plain_bind (calls_perform rfl)
  intro h₁ enqueueTime hsame₁
  apply sat_plain_bind (calls_perform rfl)
  intro h₂ future hsame₂
  have hh₂ : Unanswered h₂ := hsame₂.mpr (hsame₁.mpr hh)
  apply Program.sat_perform_bind.mpr
  use trivial
  intro result hresult
  have hh₃ := (unanswered_append_plain (r := result) rfl).mpr hh₂
  cases result with
  | error e => exact refusal_reports _ _ hresult hh₃
  | ok position =>
      apply Program.sat_perform_bind.mpr
      use trivial
      intro result _
      cases result with
      | error e =>
          apply reports_of_ne (unanswered_append.mpr ⟨hh₃, id⟩)
          rw [statusCode_failure]
          decide
      | ok response =>
          apply sat_plain_bind (calls_perform rfl)
          intro h₄ now hsame₄
          apply sat_plain_bind (count_calls (fun _ => rfl) _)
          intro h₅ _ hsame₅
          apply sat_plain_bind (store_calls fun _ _ _ _ _ _ _ => rfl)
          intro h₆ _ hsame₆
          have hiff : Unanswered h₆ ↔ response.statusCode ≠ 200 := by
            rw [hsame₆, hsame₅, hsame₄, unanswered_append]
            exact and_iff_right hh₃
          constructor
          · intro hsome
            refine ⟨_, rfl, ?_, "X-Queue-Wait-Time", by simp [visibilityHeaders], ?_⟩
            · rw [Response.statusCode_setWait]
              by_contra hne
              exact hsome (hiff.mpr hne)
            · rw [get?_setWait]
              exact Option.some_ne_none _
          · rintro hnone _ ⟨⟩
            rw [Response.statusCode_setWait]
            exact hiff.mp hnone

theorem cacheHit_reports {b : Bytes} (hiff : Unanswered h ↔ ¬ ∃ j, b.json = some j
    ∧ j.render?.isSome = true) :
  Reports h (cacheHit b)
  := by
  unfold cacheHit
  cases hjson : b.json with
  | none =>
      apply reports_raised
      rw [hiff, hjson]
      rintro ⟨j, hj, -⟩
      cases hj
  | some j =>
      dsimp only
      split
      · rename_i hrender
        constructor
        · intro _
          refine ⟨_, rfl, rfl, "X-Cache", by simp [visibilityHeaders], ?_⟩
          change Dict.get? [("X-Cache", "HIT")] "X-Cache" ≠ none
          decide
        · intro hnone
          exact absurd ⟨j, hjson, hrender⟩ (hiff.mp hnone)
      · rename_i hrender
        apply reports_raised
        rw [hiff, hjson]
        rintro ⟨j', hj', hrender'⟩
        obtain rfl := Option.some.inj hj'
        exact hrender hrender'

theorem lookupOrSubmit_reports (digest : Text → Text) (cfg : EmbeddingCacheConfig) (tier : Tier)
    (call : DispatchCall) (hh : Unanswered h) :
  Sat QueueAnswers (fun _ _ => True) Reports h (lookupOrSubmit digest cfg tier call)
  := by
  unfold lookupOrSubmit lookup EmbeddingCache.get
  dsimp only
  split
  · split
    · exact submit_reports _ _ _ _ _ hh
    · refine ⟨trivial, ?_⟩
      intro r _
      cases r with
      | error e => exact submit_reports _ _ _ _ _ (unanswered_append.mpr ⟨hh, id⟩)
      | ok value =>
          cases value with
          | none => exact submit_reports _ _ _ _ _ (unanswered_append.mpr ⟨hh, id⟩)
          | some b =>
              apply sat_plain_bind (count_calls (fun _ => rfl) _)
              intro h' _ hsame
              apply cacheHit_reports
              rw [hsame, unanswered_append]
              exact and_iff_right hh
  · exact submit_reports _ _ _ _ _ hh

theorem enqueueRequest_reports (digest : Text → Text) (cfg : Config) (clientId : Option String)
    (tier : Tier) (keyCfg : Option ApiKeyConfig) (hh : Unanswered h) :
  Sat QueueAnswers (fun _ _ => True) Reports h
    (enqueueRequest digest cfg r.toNative clientId tier none keyCfg)
  := by
  unfold enqueueRequest
  split
  · apply reports_of_ne hh
    intro hsuccess
    cases hsuccess
  · split
    · rename_i response hread
      apply reports_of_ne hh
      rw [statusCode_readBody hread]
      decide
    · have hpath : metadataFastPath.contains r.toNative.urlPath = false := by
        rw [urlPath_toNative]
        decide
      dsimp only
      rw [Option.getD_none, if_neg (by simpa using hpath)]
      exact lookupOrSubmit_reports _ _ _ _ hh

/-- The native request is answered with the status 200, and told how it was served, exactly if
some operation was answered successfully. -/
theorem proxyHandler_reports (digest : Text → Text) (cfg : Config) (r : Request) :
  Sat QueueAnswers (fun _ _ => True) Reports [] (proxyHandler digest cfg r.toNative)
  := by
  have hempty : Unanswered [] := by simp [Unanswered]
  apply sat_plain_bind (calls_perform rfl)
  intro h₁ shutting hsame₁
  have hh₁ := hsame₁.mpr hempty
  split
  · apply reports_of_ne hh₁
    intro hsuccess
    cases hsuccess
  · have hauth : Sat QueueAnswers (fun _ op => op.ofAuth = true)
        (fun _ result => RefusesWithError result) h₁
        ((AuthManager.new cfg.auth).authenticate r.toNative) :=
      authenticate_refuses _ _
    apply sat_bind_of_plain (hauth.mono plain_of_ofAuth id)
    intro h₂ result hrefuses hsame₂
    have hh₂ := hsame₂.mpr hh₁
    cases result with
    | raised => exact reports_raised hh₂
    | refused response => exact reports_of_ne hh₂ hrefuses
    | passed keyCfg =>
        simp only [proxyAuthenticated, nativePath_toNative]
        exact enqueueRequest_reports _ _ _ _ _ hh₂

/-! ### Equivalence -/

theorem queueAnswers_of_upstreamAnswers {up : Upstream} {op : Op} {r : op.Answer}
    (h : UpstreamAnswers up op r) :
  QueueAnswers op r
  := by
  cases op with
  | enqueue =>
      cases r with
      | error e => exact h
      | ok position => trivial
  | _ => trivial

theorem Op.Alike.exists_answer {cfg : ProxyConfig} {op op' : Op}
    {answers : op.Answer → op'.Answer → Prop} {s : op'.Answer}
    (h : Op.Alike QueueAnswers cfg op op' answers) (hs : QueueAnswers op' s) :
  ∃ r, QueueAnswers op r ∧ answers r s
  := by
  cases h with
  | same => exact ⟨s, hs, rfl, hs⟩
  | @enqueue item =>
      have hs' : QueueAnswers (.enqueue item) s := by
        cases s <;> exact hs
      exact ⟨s, hs', rfl, hs'⟩
  | await | dispatch => exact ⟨s, trivial, rfl, trivial⟩

theorem Op.Alike.unique {cfg : ProxyConfig} {op op' : Op}
    {answers answers' : op.Answer → op'.Answer → Prop} {r : op.Answer} {s : op'.Answer}
    (h : Op.Alike admits cfg op op' answers) (h' : Op.Alike admits cfg op op' answers')
    (hanswers : answers r s) :
  answers' r s
  := by
  cases h <;> cases h' <;> exact hanswers

/-- A successful native answer tells how it was served, which the wrapped one does not. -/
theorem not_equivalent_of_successful {es : List (Event Op.Answer)} {outcome : Outcome}
    (hrun : Reaches QueueAnswers (proxyHandler digest cfg r.toNative) es (.pure outcome))
    (hsome : ¬ Unanswered es) :
  ¬ Equivalent digest cfg r es outcome
  := by
  have hreports := (proxyHandler_reports digest cfg r).returned hrun fun _ hr => hr
  obtain ⟨native, rfl, hsuccess, name, hname, hheader⟩ := hreports.success hsome
  rintro ⟨es', outcome', hreaches, hmatch, htranslates⟩
  have hrelated := (proxyHandler_related digest cfg r).of_corresponds hreaches hrun hmatch
    Op.Alike.unique
  rw [Translates, if_pos hsuccess] at htranslates
  obtain ⟨response, rfl, -, ⟨fields, _, _, _, hnative, -⟩, hheaders⟩ := htranslates
  cases hrelated with
  | pure hwrapped =>
      rw [wrapOutcome, hnative] at hwrapped
      dsimp only at hwrapped
      rw [if_pos hsuccess] at hwrapped
      cases hwrap : wrapResponse (.object fields) with
      | none =>
          rw [hwrap] at hwrapped
          cases hwrapped
      | some wrapped =>
          rw [hwrap] at hwrapped
          obtain rfl := Outcome.response.inj hwrapped
          exact hheader (hheaders name hname).symm

/-- The requests for `/v1/embeddings` and `/api/embed` are answered equivalently exactly if no
operation is answered successfully. -/
theorem equivalent_iff (digest : Text → Text) (cfg : Config) (r : Request)
    {es : List (Event Op.Answer)} {outcome : Outcome}
    (hrun : Reaches QueueAnswers (proxyHandler digest cfg r.toNative) es (.pure outcome)) :
  Equivalent digest cfg r es outcome ↔ ∀ e ∈ es, ¬ Successful e
  := by
  constructor
  · intro hequivalent
    by_contra hsome
    exact not_equivalent_of_successful hrun hsome hequivalent
  · intro hnone
    have hreports := (proxyHandler_reports digest cfg r).returned hrun fun _ hr => hr
    obtain ⟨es', p, hreaches, hmatch, hrelated⟩ :=
      (proxyHandler_related digest cfg r).reaches hrun Op.Alike.exists_answer
    cases hrelated with
    | pure hwrapped =>
        refine ⟨es', _, hreaches, hmatch, ?_⟩
        rw [hwrapped]
        cases outcome with
        | raised => rfl
        | response native =>
            have hne := hreports.failure hnone native rfl
            rw [Translates, if_neg hne]
            exact wrapOutcome_of_ne hne

/-! ### A successful answer -/

open CachingProxy (sampleDigest sampleArrival sampleFields sampleUpstream sampleAnswers)

/-- Requests are answered equivalently while the application shuts down. -/
theorem equivalent_shuttingDown :
  Equivalent sampleDigest CachingProxy.sampleConfig (sampleArrival sampleFields).request
    [⟨.shuttingDown, true⟩] (shuttingDown (sampleArrival sampleFields).request.toNative)
  := by
  apply (equivalent_iff sampleDigest CachingProxy.sampleConfig _
    (.step trivial (.refl _))).mpr
  simp [Successful]

/-- Requests that are answered by the upstream server are not. -/
theorem not_equivalent :
  ∃ es outcome, Reaches QueueAnswers (proxyHandler sampleDigest CachingProxy.sampleConfig
      (sampleArrival sampleFields).request.toNative) es (.pure outcome)
    ∧ ¬ Equivalent sampleDigest CachingProxy.sampleConfig (sampleArrival sampleFields).request es
      outcome
  := by
  have hcheck : (Program.run (answer? sampleUpstream fun _ => none)
      (proxyHandler sampleDigest CachingProxy.sampleConfig
        (sampleArrival sampleFields).request.toNative) sampleAnswers).any
        (fun result => (CachingProxy.jsonAnswer? result.2).isSome) = true := by
    decide +kernel
  obtain ⟨⟨es, q⟩, hrun, hanswer⟩ := (Option.any_eq_true _ _).mp hcheck
  obtain ⟨j, hj⟩ := Option.isSome_iff_exists.mp hanswer
  obtain ⟨headers, rfl⟩ := CachingProxy.eq_of_jsonAnswer? hj
  have hreaches : Reaches QueueAnswers (proxyHandler sampleDigest CachingProxy.sampleConfig
      (sampleArrival sampleFields).request.toNative) es
      (.pure (.response ⟨200, .json j, headers⟩)) := by
    apply Program.reaches_of_run hrun
    intro op e r hr
    exact queueAnswers_of_upstreamAnswers (upstreamAnswers_of_answer? hr)
  refine ⟨es, _, hreaches, ?_⟩
  apply not_equivalent_of_successful hreaches
  intro hnone
  have hreports := (proxyHandler_reports _ _ _).returned hreaches fun _ hr => hr
  exact hreports.failure hnone _ rfl rfl

end OllamaQueueProxy
