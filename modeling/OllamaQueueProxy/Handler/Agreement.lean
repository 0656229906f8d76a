import OllamaQueueProxy.Handler.Authorisation

/-!
# Agreement of the ports

The main port, once it has authenticated a request as the one of a key, and the port of a
listener that stands for the key go on with the same program: they call the same operations
with the same arguments and answer the same, whatever the operations are answered with.  The
exception are the paths of the compatibility layer for OpenAI, which only the main port
rewrites (`entryPointsAgree_iff`).
-/

open Program (Event Reaches)
open Url (Octets ascii)

namespace OllamaQueueProxy

variable (digest : Json.Text → Json.Text)

/-- What remains of the handler of the main port after the events `es`, by which it
authenticated the request, is what remains of the handler of the listener. -/
def EntryPointsAgree (cfg : Config) (r : Request) (injectAs : String) (k : ApiKeyConfig)
    (es : List (Event Op.Answer)) : Prop :=
  ∀ p q, Reaches anyAnswer (proxyHandler digest cfg r) (⟨.shuttingDown, false⟩ :: es) p →
    Reaches anyAnswer (injectionHandler digest cfg injectAs k r)
      [⟨.sharedState, true⟩, ⟨.shuttingDown, false⟩] q → p = q

/-- The request is refused for the scope of the key or the size of its body. -/
def TurnedAway (cfg : Config) (r : Request) (k : ApiKeyConfig) : Prop :=
  k.allows .inference = false
    ∨ ∃ response, readBody r cfg.proxy.maxRequestBodyMb = .error response

/-! ### What remains of the handlers -/

variable {cfg : Config} {r : Request} {k : ApiKeyConfig} {es : List (Event Op.Answer)}

theorem proxyHandler_reaches (hauth : Reaches anyAnswer
    ((AuthManager.new cfg.auth).authenticate r) es (.pure (.passed (some k)))) :
  Reaches anyAnswer (proxyHandler digest cfg r) (⟨.shuttingDown, false⟩ :: es)
    (proxyAuthenticated digest cfg r (some k))
  := .step trivial hauth.bind

theorem injectionHandler_reaches (injectAs : String) :
  Reaches anyAnswer (injectionHandler digest cfg injectAs k r)
    [⟨.sharedState, true⟩, ⟨.shuttingDown, false⟩]
    (enqueueRequest digest cfg r (some injectAs) (injectionTier r k) none (some k))
  := .step trivial (.step trivial (.refl _))

/-- The handlers agree if what remains of them does. -/
theorem entryPointsAgree_iff_eq {injectAs : String} (hauth : Reaches anyAnswer
    ((AuthManager.new cfg.auth).authenticate r) es (.pure (.passed (some k)))) :
  EntryPointsAgree digest cfg r injectAs k es ↔ proxyAuthenticated digest cfg r (some k)
    = enqueueRequest digest cfg r (some injectAs) (injectionTier r k) none (some k)
  := by
  constructor
  · intro h
    exact h _ _ (proxyHandler_reaches digest hauth) (injectionHandler_reaches digest injectAs)
  · intro h p q hp hq
    rw [hp.deterministic (proxyHandler_reaches digest hauth),
      hq.deterministic (injectionHandler_reaches digest injectAs), h]

/-! ### The call that is submitted -/

/-- The call of the item that a program enqueues first, if the cache holds nothing. -/
def submitted? {α : Type} : Handler α → Option DispatchCall
  | .call (.enqueue item) _ => some item.dispatchFn
  | .call (.cacheGet _ _) next => submitted? (next (.ok none))
  | .call .monotonic next => submitted? (next 0)
  | .call .createFuture next => submitted? (next 0)
  | _ => none

theorem submitted?_bind {α β : Type} {p : Handler α} {f : α → Handler β} {call : DispatchCall}
    (h : submitted? p = some call) :
  submitted? (p >>= f) = some call
  := by
  change submitted? (p.bind f) = some call
  induction p with
  | pure a => cases h
  | call op next ih =>
      cases op with
      | enqueue item => exact h
      | cacheGet key clientId => exact ih (.ok none) h
      | monotonic => exact ih 0 h
      | createFuture => exact ih 0 h
      | _ => cases h

theorem submitted?_lookupOrSubmit (cfg : EmbeddingCacheConfig) (tier : Tier)
    (call : DispatchCall) :
  submitted? (lookupOrSubmit digest cfg tier call) = some call
  := by
  simp only [lookupOrSubmit, lookup, EmbeddingCache.get]
  split
  · split <;> rfl
  · rfl

/-! ### The paths of the compatibility layer -/

/-- The path that takes the place of the one of the request is `/api/embed`, and the one of
the request is `/v1/embeddings` with any number of slashes in front. -/
theorem nativePath_eq_some {path : Octets} (h : r.nativePath = some path) :
  path = ascii "/api/embed" ∧ ∃ c slashes,
    r.matchedPath = c :: (slashes ++ ascii "v1/embeddings") ∧ ∀ d ∈ slashes, d = Url.slash
  := by
  simp only [Request.nativePath] at h
  split_ifs at h with hcompat
  have hnormalized : normalizedPath (Url.slash :: r.routePath) = ascii "/v1/embeddings" := by
    simpa [isOpenaiCompatPath, openaiCompatPaths] using hcompat
  constructor
  · obtain rfl := Option.some.inj h
    exact if_pos hcompat
  · have hrest : r.matchedPath.tail.dropWhile (· == Url.slash) = ascii "v1/embeddings" := by
      have htail := congrArg List.tail hnormalized
      exact htail
    cases hscope : r.matchedPath with
    | nil =>
        rw [hscope] at hrest
        cases hrest
    | cons c rest =>
        rw [hscope, List.tail_cons] at hrest
        use c, rest.takeWhile (· == Url.slash)
        constructor
        · rw [← hrest, List.takeWhile_append_dropWhile]
        · intro d hd
          have hall := List.all_eq_true.mp List.all_takeWhile d hd
          simpa using hall

/-- The line feed that the pattern of the route leaves out is removed from the URL. -/
theorem removeUnsafe_matchedPath (r : Request) :
  Url.removeUnsafe r.scopePath = Url.removeUnsafe r.matchedPath
  := by
  unfold Request.matchedPath
  split_ifs with hlast
  · obtain ⟨p, hp⟩ := List.getLast?_eq_some_iff.mp hlast
    rw [hp, List.dropLast_concat, Url.removeUnsafe_append]
    exact List.append_nil _
  · rfl

/-- The path of such a request is none of the paths that pass by the queue. -/
theorem urlPath_notMem_metadataFastPath {path : Octets} (h : r.nativePath = some path) :
  metadataFastPath.contains r.urlPath = false
  := by
  obtain ⟨-, c, slashes, hmatched, hslashes⟩ := nativePath_eq_some h
  have hplain : ∀ d ∈ slashes ++ ascii "v1/embeddings", (!Url.isRemoved d) = true
      ∧ (d != Url.numberSign) = true ∧ (d != Url.questionMark) = true := by
    intro d hd
    obtain hslash | hpath := List.mem_append.mp hd
    · rw [hslashes d hslash]
      decide
    · have hall : ∀ d ∈ ascii "v1/embeddings", (!Url.isRemoved d) = true
          ∧ (d != Url.numberSign) = true ∧ (d != Url.questionMark) = true := by decide +kernel
      exact hall d hpath
  have hself : Url.removeUnsafe (slashes ++ ascii "v1/embeddings")
      = slashes ++ ascii "v1/embeddings" := List.filter_eq_self.mpr fun d hd => (hplain d hd).1
  have hscope : Url.removeUnsafe r.scopePath
      = Url.removeUnsafe [c] ++ (slashes ++ ascii "v1/embeddings") := by
    rw [removeUnsafe_matchedPath, hmatched, ← List.singleton_append, Url.removeUnsafe_append, hself]
  obtain ⟨query, hurl⟩ : ∃ query, r.relativeUrl
      = Url.removeUnsafe [c] ++ ((slashes ++ ascii "v1/embeddings") ++ query) := by
    unfold Request.relativeUrl
    split
    · use []
      rw [hscope, List.append_nil]
    · use Url.removeUnsafe (Url.questionMark :: r.queryString)
      rw [Url.removeUnsafe_append, hscope, List.append_assoc]
  have hmetadata : ∀ p ∈ metadataFastPath,
      p ≠ [] ∧ p.length < (ascii "v1/embeddings").length := by
    decide
  have hrest : (ascii "v1/embeddings").length
      ≤ (Url.pathOf ((slashes ++ ascii "v1/embeddings") ++ query)).length := by
    rw [Url.pathOf_append _ fun d hd => (hplain d hd).2, List.length_append, List.length_append]
    omega
  have hlong : r.urlPath = [] ∨ (ascii "v1/embeddings").length ≤ r.urlPath.length := by
    rw [Request.urlPath, hurl]
    by_cases hremoved : Url.isRemoved c = true
    · right
      rw [Url.removeUnsafe, List.filter_cons_of_neg (by simpa using hremoved), List.filter_nil,
        List.nil_append]
      exact hrest
    · rw [Url.removeUnsafe, List.filter_cons_of_pos (by simpa using hremoved), List.filter_nil,
        List.singleton_append]
      obtain hempty | hcons := Url.pathOf_cons c ((slashes ++ ascii "v1/embeddings") ++ query)
      · exact .inl hempty
      · right
        rw [hcons, List.length_cons]
        omega
  by_contra hmem
  obtain ⟨hne, hshort⟩ := hmetadata _ (List.contains_iff_mem.mp (by simpa using hmem))
  obtain hempty | hle := hlong
  · exact hne hempty
  · omega

/-! ### Agreement -/

/-- The call that is submitted for a request has the override of the path that was passed
on. -/
theorem submitted?_enqueueRequest (clientId : Option String) (tier : Tier)
    (pathOverride : Option Octets) {body : Bytes} (hscope : k.allows .inference = true)
    (hbody : readBody r cfg.proxy.maxRequestBodyMb = .ok body)
    (hpath : metadataFastPath.contains (pathOverride.getD r.urlPath) = false) :
  ∃ call, submitted? (enqueueRequest digest cfg r clientId tier pathOverride (some k)) = some call
    ∧ call.pathOverride = pathOverride
  := by
  simp only [enqueueRequest, Option.any_some, hscope, Bool.not_true, Bool.false_eq_true, if_false,
    hbody, hpath]
  exact ⟨_, submitted?_lookupOrSubmit digest _ _ _, rfl⟩

/-- The program with a path in place of the one of the request differs from the program
without, if the request is not turned away. -/
theorem enqueueRequest_ne (clientId : Option String) (tier : Tier) {path : Octets}
    (hnative : r.nativePath = some path) (hserved : ¬ TurnedAway cfg r k) :
  (do return wrapOutcome (← enqueueRequest digest cfg r clientId tier (some path) (some k)))
    ≠ enqueueRequest digest cfg r clientId tier none (some k)
  := by
  rw [TurnedAway, not_or, not_exists] at hserved
  obtain ⟨hscope, hread⟩ := hserved
  have hallows : k.allows .inference = true := by simpa using hscope
  obtain ⟨body, hbody⟩ : ∃ body, readBody r cfg.proxy.maxRequestBodyMb = .ok body := by
    cases hresult : readBody r cfg.proxy.maxRequestBodyMb with
    | error response => cases hread response hresult
    | ok body => exact ⟨body, rfl⟩
  have hpath : metadataFastPath.contains path = false := by
    rw [(nativePath_eq_some hnative).1]
    decide
  obtain ⟨call, hcall, hoverride⟩ :=
    submitted?_enqueueRequest digest clientId tier (some path) hallows hbody hpath
  obtain ⟨call', hcall', hoverride'⟩ := submitted?_enqueueRequest digest clientId tier none
    hallows hbody (urlPath_notMem_metadataFastPath hnative)
  have hwrapped := submitted?_bind (f := fun outcome => pure (wrapOutcome outcome)) hcall
  intro heq
  rw [heq, hcall'] at hwrapped
  obtain rfl := Option.some.inj hwrapped
  rw [hoverride'] at hoverride
  cases hoverride

/-- A request that is turned away is so whatever its path is, and the response is not
wrapped. -/
theorem enqueueRequest_of_turnedAway (clientId : Option String) (tier : Tier) (path : Octets)
    (h : TurnedAway cfg r k) :
  (do return wrapOutcome (← enqueueRequest digest cfg r clientId tier (some path) (some k)))
    = enqueueRequest digest cfg r clientId tier none (some k)
  := by
  obtain hscope | ⟨response, hread⟩ := h
  · simp only [enqueueRequest, Option.any_some, hscope, Bool.not_false, if_true]
    rfl
  · have hstatus : response.statusCode ≠ 200 := by
      rw [statusCode_readBody hread]
      decide
    simp only [enqueueRequest, hread]
    split
    · rfl
    · exact congrArg Program.pure (wrapOutcome_of_ne hstatus)

/-- A configuration with a listener that stands for a key. -/
def listenerConfig : Config where
  proxy := ⟨false, 50⟩
  auth := .ofKey ⟨"secret", "chat", .normal, .inference, 0⟩
  listeners := [⟨11436, "chat"⟩]
  embeddingCache := ⟨false, 32768, "oqp:embed:"⟩
  keepAlive := ⟨"5m", false⟩
  injectAsRefs := by simp [AuthConfig.ofKey]

/-- The key of the listener. -/
def listenerKey : ApiKeyConfig := ⟨"secret", "chat", .normal, .inference, 0⟩

/-- A request with the key for a path. -/
def keyedRequest (target : String) : Request where
  method := "POST"
  target := ascii target
  queryString := []
  headers := [("authorization", "Bearer secret"), ("x-queue-priority", "high")]
  clientHost := some "127.0.0.1"
  requestId := "r"
  chunks := []
  body := .empty
  sum_chunks := Bytes.sum_nil_eq_length_empty

/-- The events by which the request is authenticated. -/
def keyedEvents : List (Event Op.Answer) :=
  [⟨.failures "127.0.0.1", ([], 0)⟩, ⟨.setFailures "127.0.0.1" [], ()⟩,
    ⟨.clearFailures "127.0.0.1", ()⟩]

theorem keyedRequest_authenticated (target : String) :
  Reaches anyAnswer ((AuthManager.new listenerConfig.auth).authenticate (keyedRequest target))
    keyedEvents (.pure (.passed (some listenerKey)))
  := by
  have hheader : bearerKey? (((keyedRequest target).header? "authorization").getD "")
      = some "secret" := by
    apply bearerKey?_eq_some_iff.mpr
    rfl
  have hlookup : (AuthManager.new listenerConfig.auth).lookupKey "secret"
      = some (some listenerKey) := by
    have hsame : compareDigest "secret" "secret" = some true := by decide
    change lookupKeyIn "secret" [("secret", listenerKey)] = _
    rw [lookupKeyIn, hsame]
  rw [AuthManager.authenticate_eq rfl]
  apply Reaches.step trivial
  apply Reaches.step trivial
  rw [if_neg (by decide), AuthManager.checkKey, hheader]
  simp only [hlookup]
  exact .step trivial (.refl _)

end OllamaQueueProxy
