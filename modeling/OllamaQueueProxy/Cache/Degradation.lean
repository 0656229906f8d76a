import OllamaQueueProxy.Cache.Transparency
import OllamaQueueProxy.Handler.Authorisation
import OllamaQueueProxy.Library.Extension

/-!
# Failures of the embedding cache

The backend of the cache may raise exceptions at any time and hold any bytes.  A handler with
the cache extends the handler without: it goes on as if the cache were disabled, unless a
lookup finds bytes (`handle_extends`).  Then it answers with what they stand for, if they can
be served, but an exception leaves the handler if they cannot.  So a request is answered from
the cache or as with the cache disabled exactly when no lookup is made for it, or all bytes
that the backend may answer with can be served (`contained_iff`).
-/

open Program (Event Reaches Extends Calls calls_pure calls_perform restrict restrict_append
  restrict_cons_of_own)
open Json (Text)

namespace OllamaQueueProxy

/-- The operation is none of the cache. -/
def Op.uncached : Op → Bool
  | .cacheGet _ _ | .cacheSet _ _ => false
  | _ => true

/-- The bytes that the backend answers with are good. -/
def BackendAnswers (good : Bytes → Prop) : (op : Op) → op.Answer → Prop
  | .cacheGet _ _, .ok (some b) => good b
  | _, _ => True

namespace Arrival

/-- What the port answers with when the cache holds the bytes; `none` if an exception is
raised. -/
def storedContent? (a : Arrival) (b : Bytes) : Option Content :=
  b.json.bind fun j => match a.pathOverride with
    | some _ => wrapContent? (.json j)
    | none => some (.json j)

/-- The bytes are JSON that can be rendered and, on a path of the compatibility layer,
wrapped. -/
def Serves (a : Arrival) (b : Bytes) : Prop :=
  ∃ j, b.json = some j ∧ j.render?.isSome = true
    ∧ (a.pathOverride.isSome = true → (wrapResponse j).isSome = true)

end Arrival

/-- The outcome is the answer that the backend has stored. -/
def AnswersStored (a : Arrival) (es : List (Event Op.Answer)) (outcome : Outcome) : Prop :=
  ∃ key clientId b response, ⟨.cacheGet key clientId, .ok (some b)⟩ ∈ es
    ∧ outcome = .response response ∧ response.statusCode = 200
    ∧ a.storedContent? b = some response.content

variable (digest : Text → Text)

/-- With any backend that answers with good bytes, the request is answered with what is stored
or as with the cache disabled. -/
def Contained (cfg : Config) (good : Bytes → Prop) (a : Arrival) : Prop :=
  ∀ es outcome,
    Reaches (BackendAnswers good) (handle digest cfg a.port a.request) es (.pure outcome) →
    AnswersStored a es outcome
      ∨ Reaches anyAnswer (handle digest cfg.uncached a.port a.request)
        (restrict Op.uncached es) (.pure outcome)

/-- The handler of the request looks into the cache. -/
def LooksUp (cfg : Config) (a : Arrival) : Prop :=
  ∃ es key clientId next, Reaches anyAnswer (handle digest cfg a.port a.request) es
    (.call (.cacheGet key clientId) next)

/-! ### Operations other than those of the cache -/

/-- All operations of the program are other than those of the cache. -/
abbrev PastCache {α : Type} (p : Handler α) : Prop := Calls (fun op => op.uncached = true) p

theorem ask_pastCache {op : Op} (h : op.uncached = true) :
  PastCache (ask op)
  := calls_perform h

theorem dispatchDirectly_pastCache (call : DispatchCall) :
  PastCache (dispatchDirectly call)
  := by
  apply Calls.bind (ask_pastCache rfl)
  intro result
  cases result <;> apply calls_pure

theorem authenticate_pastCache (a : AuthManager) (r : Request) :
  PastCache (a.authenticate r)
  := by
  apply (authenticate_calls a r).mono
  intro op h
  cases op with
  | cacheGet | cacheSet => cases h
  | _ => rfl

/-! ### The handler without the cache -/

/-- Answers of the backend after which a handler goes on as without the cache. -/
def Ignored : (op : Op) → op.Answer → Prop
  | .cacheGet _ _, .ok (some _) => False
  | _, _ => True

/-- What is made of the answer in the end. -/
def Arrival.finish (a : Arrival) : Outcome → Outcome :=
  match a.pathOverride with
  | some _ => wrapOutcome
  | none => id

/-- After bytes were found, the program answers with them, in place of one that would have
gone on to the queue. -/
inductive Hits (finish : Outcome → Outcome) :
    (op : Op) → op.Answer → Handler Outcome → Handler Outcome → Prop where
  | intro (key : Text) (clientId : Option String) (b : Bytes) (next : ℚ → Handler Outcome) :
      Hits finish (.cacheGet key clientId) (.ok (some b))
        (do count .processed clientId; return finish (cacheHit b)) (.call .monotonic next)

variable {digest} {cfg : EmbeddingCacheConfig} {finish : Outcome → Outcome}

theorem Hits.inv {op : Op} {r : op.Answer} {p q : Handler Outcome} (h : Hits finish op r p q) :
  ∃ key clientId b next, (⟨op, r⟩ : Event Op.Answer) = ⟨.cacheGet key clientId, .ok (some b)⟩
    ∧ p = (do count .processed clientId; return finish (cacheHit b))
    ∧ q = .call .monotonic next
  := by
  obtain ⟨key, clientId, b, next⟩ := h
  exact ⟨key, clientId, b, next, rfl, rfl, rfl⟩

theorem store_extends (entry : Option CacheEntry) (response : Response) (outcome : Outcome) :
  Extends Op.uncached Ignored (Hits finish)
    (do store digest cfg entry response; return outcome) (.pure outcome)
  := by
  unfold store EmbeddingCache.set
  split
  · split
    · split
      · apply Extends.pure
      · split
        · apply Extends.pure
        · apply Extends.own rfl
          · intro r _
            cases r <;> apply Extends.pure
          · intro r hr
            exact absurd trivial hr
    · apply Extends.pure
  · apply Extends.pure

/-- What is submitted to the queue is so without the cache, too. -/
theorem submit_extends (cfg' : EmbeddingCacheConfig) (tier : Tier) (call : DispatchCall)
    (entry : Option CacheEntry) :
  Extends Op.uncached Ignored (Hits finish) (submit digest cfg tier call entry)
    (submit digest cfg' tier call none)
  := by
  apply Extends.bind (ask_pastCache rfl)
  intro enqueueTime
  apply Extends.bind (ask_pastCache rfl)
  intro future
  apply Extends.bind (ask_pastCache rfl)
  intro result
  cases result with
  | error e => exact .refl (refusal_calls (fun _ => rfl) (fun _ => rfl) _ _ e)
  | ok position =>
      apply Extends.bind (ask_pastCache rfl)
      intro result
      cases result with
      | error e => apply Extends.pure
      | ok response =>
          apply Extends.bind (ask_pastCache rfl)
          intro now
          apply Extends.bind (count_calls (fun _ => rfl) _)
          intro _
          apply store_extends

theorem lookupOrSubmit_extends (cfg' : EmbeddingCacheConfig) (hdisabled : cfg'.enabled = false)
    (tier : Tier) (call : DispatchCall) :
  Extends Op.uncached Ignored (Hits id) (lookupOrSubmit digest cfg tier call)
    (lookupOrSubmit digest cfg' tier call)
  := by
  have huncached : lookupOrSubmit digest cfg' tier call = submit digest cfg' tier call none := by
    simp only [lookupOrSubmit, toCache?, hdisabled, Bool.false_and, Bool.false_eq_true, if_false]
    rfl
  rw [huncached]
  unfold lookupOrSubmit lookup EmbeddingCache.get
  dsimp only
  split
  · split
    · apply submit_extends
    · apply Extends.own rfl
      · intro r hr
        cases r with
        | error e => apply submit_extends
        | ok value =>
            cases value with
            | none => apply submit_extends
            | some b => cases hr
      · intro r hr
        cases r with
        | error e => exact absurd trivial hr
        | ok value =>
            cases value with
            | none => exact absurd trivial hr
            | some b => apply Hits.intro
  · apply submit_extends

theorem enqueueRequest_extends (cfg : Config) (r : Request) (clientId : Option String)
    (tier : Tier) (pathOverride : Option Url.Octets) (keyCfg : Option ApiKeyConfig) :
  Extends Op.uncached Ignored (Hits id)
    (enqueueRequest digest cfg r clientId tier pathOverride keyCfg)
    (enqueueRequest digest cfg.uncached r clientId tier pathOverride keyCfg)
  := by
  have hproxy : cfg.uncached.proxy = cfg.proxy := rfl
  unfold enqueueRequest
  rw [hproxy]
  split
  · apply Extends.pure
  · cases readBody r cfg.proxy.maxRequestBodyMb with
    | error response => apply Extends.pure
    | ok body =>
        dsimp only
        split
        · exact .refl (dispatchDirectly_pastCache _)
        · exact lookupOrSubmit_extends cfg.uncached.embeddingCache rfl tier ⟨r, _, clientId, _⟩

theorem count_bind_map (stat : ClientStat) (clientId : Option String) (outcome : Outcome)
    (f : Outcome → Outcome) :
  Program.bind (do count stat clientId; return outcome) (fun o => .pure (f o))
    = (do count stat clientId; return f outcome)
  := by
  unfold count
  split
  · split <;> rfl
  · rfl

theorem proxyAuthenticated_extends (cfg : Config) (r : Request) (keyCfg : Option ApiKeyConfig) :
  Extends Op.uncached Ignored (Hits (Arrival.finish ⟨.main, r⟩))
    (proxyAuthenticated digest cfg r keyCfg) (proxyAuthenticated digest cfg.uncached r keyCfg)
  := by
  unfold proxyAuthenticated Arrival.finish Arrival.pathOverride
  dsimp only
  cases r.nativePath with
  | none => apply enqueueRequest_extends
  | some nativePath =>
      apply (enqueueRequest_extends cfg r _ _ (some nativePath) keyCfg).map wrapOutcome
      intro op x p q hends
      obtain ⟨key, clientId, b, next⟩ := hends
      rw [count_bind_map]
      apply Hits.intro

/-- A handler goes on as without the cache until a lookup finds bytes. -/
theorem handle_extends (cfg : Config) (a : Arrival) :
  Extends Op.uncached Ignored (Hits a.finish) (handle digest cfg a.port a.request)
    (handle digest cfg.uncached a.port a.request)
  := by
  obtain ⟨port, r⟩ := a
  cases port with
  | main =>
      apply Extends.bind (ask_pastCache rfl)
      intro shutting
      split
      · apply Extends.pure
      · apply Extends.bind (authenticate_pastCache _ r)
        intro result
        cases result with
        | raised | refused => apply Extends.pure
        | passed keyCfg => apply proxyAuthenticated_extends
  | injection injectAs keyCfg =>
      apply Extends.bind (ask_pastCache rfl)
      intro serving
      split
      · apply Extends.pure
      · apply Extends.bind (ask_pastCache rfl)
        intro shutting
        split
        · apply Extends.pure
        · apply enqueueRequest_extends

/-! ### The answer from the cache -/

variable {admits : (op : Op) → op.Answer → Prop}

theorem count_eq (stat : ClientStat) (clientId : Option String) :
  count stat clientId = .pure () ∨ ∃ c, count stat clientId = ask (.count stat c)
  := by
  unfold count
  split
  · split
    · exact .inl rfl
    · exact .inr ⟨_, rfl⟩
  · exact .inl rfl

/-- A program that updates the statistics and returns its result calls nothing else. -/
theorem exists_reaches_count {stat : ClientStat} (hadmits : ∀ c, admits (.count stat c) ())
    (clientId : Option String) (outcome : Outcome) :
  ∃ es, Reaches admits (do count stat clientId; return outcome) es (.pure outcome)
    ∧ ∀ e ∈ es, ∃ c, e.1 = .count stat c
  := by
  obtain hnone | ⟨c, hcount⟩ := count_eq stat clientId
  · rw [hnone]
    exact ⟨[], .refl _, by simp⟩
  · rw [hcount]
    use [⟨.count stat c, ()⟩], .step (hadmits c) (.refl _)
    intro e he
    obtain rfl := List.mem_singleton.mp he
    exact ⟨c, rfl⟩

theorem eq_of_reaches_count {stat : ClientStat} {clientId : Option String}
    {outcome outcome' : Outcome} {es : List (Event Op.Answer)}
    (h : Reaches admits (do count stat clientId; return outcome) es (.pure outcome')) :
  outcome' = outcome
  := by
  obtain hnone | ⟨c, hcount⟩ := count_eq stat clientId
  · rw [hnone] at h
    cases h
    rfl
  · rw [hcount] at h
    cases h with
    | step _ h =>
        cases h
        rfl

/-- An exception leaves the handler unless the bytes can be served. -/
theorem finish_cacheHit (a : Arrival) (b : Bytes) :
  (a.Serves b ∧ ∃ response, a.finish (cacheHit b) = .response response
      ∧ response.statusCode = 200 ∧ a.storedContent? b = some response.content)
    ∨ (¬ a.Serves b ∧ a.finish (cacheHit b) = .raised)
  := by
  unfold Arrival.Serves Arrival.finish Arrival.storedContent? cacheHit
  cases b.json with
  | none => cases a.pathOverride <;> simp [wrapOutcome]
  | some j =>
      cases hrender : j.render? with
      | none => cases a.pathOverride <;> simp [wrapOutcome, hrender]
      | some written =>
          cases a.pathOverride with
          | none => simp [hrender]
          | some path => cases hwrapped : wrapResponse j <;>
              simp [wrapOutcome, wrapContent?, hrender, hwrapped]

/-! ### Containment -/

theorem backendAnswers_of_ignored {good : Bytes → Prop} {op : Op} {r : op.Answer}
    (h : op.uncached = true ∨ Ignored op r) :
  BackendAnswers good op r
  := by
  cases op with
  | cacheGet key clientId =>
      cases r with
      | error e => trivial
      | ok value =>
          cases value with
          | none => trivial
          | some b =>
              obtain huncached | hignored := h
              · cases huncached
              · cases hignored
  | _ => trivial

/-- A request for which a lookup is made may be answered with the bytes that are found, when
without the cache it would have to be enqueued. -/
theorem LooksUp.exists_run {digest : Text → Text} {cfg : Config} {a : Arrival}
    (h : LooksUp digest cfg a) {b : Bytes} (good : Bytes → Prop) (hb : good b) :
  ∃ es, Reaches (BackendAnswers good) (handle digest cfg a.port a.request) es
      (.pure (a.finish (cacheHit b)))
    ∧ ∀ outcome, ¬ Reaches anyAnswer (handle digest cfg.uncached a.port a.request)
      (restrict Op.uncached es) (.pure outcome)
  := by
  obtain ⟨es, key, clientId, next, hlookup⟩ := h
  obtain ⟨q, hq, hextends, hes⟩ | hleaves := (handle_extends cfg a).reaches hlookup
  · cases hextends with
    | call hshared => cases hshared
    | own _ _ hends =>
        obtain ⟨_, _, _, next', heq, hnext, rfl⟩ := (hends (.ok (some b)) id).inv
        cases heq
        have hadmits : ∀ c, BackendAnswers good (.count .processed c) () := fun _ => trivial
        obtain ⟨fs, hcount, hfs⟩ :=
          exists_reaches_count hadmits clientId (a.finish (cacheHit b))
        have hfound : Reaches (BackendAnswers good) (handle digest cfg a.port a.request)
            (es ++ [⟨.cacheGet key clientId, .ok (some b)⟩]) (next (.ok (some b))) :=
          (hlookup.of_forall fun e he => backendAnswers_of_ignored (hes e he)).snoc hb
        rw [hnext] at hfound
        use (es ++ [⟨.cacheGet key clientId, .ok (some b)⟩]) ++ fs, hfound.append hcount
        intro outcome huncached
        rw [restrict_append, restrict_append, restrict_cons_of_own rfl, List.append_assoc]
          at huncached
        have hrest := hq.of_append huncached
        generalize hgs : restrict Op.uncached [] ++ restrict Op.uncached fs = gs at hrest
        cases hrest with
        | @step _ _ now gs _ _ _ =>
            have hmem : ⟨.monotonic, now⟩ ∈ restrict Op.uncached fs := by
              rw [← List.nil_append (restrict _ fs)]
              exact hgs ▸ List.mem_cons_self
            obtain ⟨c, hc⟩ := hfs _ (List.mem_of_mem_filter hmem)
            cases hc
  · obtain ⟨-, -, hends, -, -, hrest⟩ := hleaves
    obtain ⟨_, clientId', b', -, -, hnext, -⟩ := hends.inv
    rw [hnext] at hrest
    have hpast : PastCache (do count .processed clientId'; return a.finish (cacheHit b')) :=
      (count_calls (fun _ => rfl) _).bind fun _ => calls_pure _
    cases (hpast.reaches hrest).1

/-- A request is answered from the cache or as with the cache disabled exactly if no lookup is
made for it or all bytes that the backend may answer with can be served. -/
theorem contained_iff (digest : Text → Text) (cfg : Config) (good : Bytes → Prop) (a : Arrival) :
  Contained digest cfg good a ↔ (LooksUp digest cfg a → ∀ b, good b → a.Serves b)
  := by
  constructor
  · intro hcontained hlookup b hb
    obtain ⟨hserves, -⟩ | ⟨-, hraised⟩ := finish_cacheHit a b
    · exact hserves
    · obtain ⟨es, hreaches, huncached⟩ := hlookup.exists_run good hb
      obtain ⟨-, -, -, response, -, hresponse, -⟩ | hsame := hcontained es _ hreaches
      · rw [hraised] at hresponse
        cases hresponse
      · cases huncached _ hsame
  · intro hserves es outcome hreaches
    obtain ⟨q, hq, hextends, -⟩ | hleaves := (handle_extends cfg a).reaches hreaches
    · right
      cases hextends
      exact hq.of_forall fun _ _ => trivial
    · left
      obtain ⟨-, hgood, hends, hlookup, -, hrest⟩ := hleaves
      obtain ⟨key, clientId, b, next', heq, hnext, rfl⟩ := hends.inv
      cases heq
      rw [hnext] at hrest
      obtain rfl := eq_of_reaches_count hrest
      obtain ⟨-, response, hfinish, hsuccess, hstored⟩ | ⟨hnot, -⟩ := finish_cacheHit a b
      · exact ⟨key, clientId, b, response, by simp, hfinish, hsuccess, hstored⟩
      · cases hnot (hserves ⟨_, key, clientId, _, hlookup.of_forall fun _ _ => trivial⟩ b hgood)

/-! ### Bytes that are no JSON -/

open CachingProxy (sampleDigest sampleArrival sampleFields)

/-- The next operation of the program is a lookup. -/
def isLookup : Handler Outcome → Bool
  | .call (.cacheGet _ _) _ => true
  | _ => false

theorem sampleArrival_looksUp :
  LooksUp sampleDigest CachingProxy.sampleConfig (sampleArrival sampleFields)
  := by
  have hcheck : (Program.run Op.read? (handle sampleDigest CachingProxy.sampleConfig .main
      (sampleArrival sampleFields).request) [.flag false]).any (fun result => isLookup result.2)
        = true := by
    decide
  obtain ⟨⟨es, q⟩, hrun, hlookup⟩ := (Option.any_eq_true _ _).mp hcheck
  have hreaches : Reaches anyAnswer (handle sampleDigest CachingProxy.sampleConfig .main
      (sampleArrival sampleFields).request) es q :=
    Program.reaches_of_run hrun fun _ => trivial
  dsimp only at hlookup
  unfold isLookup at hlookup
  split at hlookup
  · exact ⟨es, _, _, _, hreaches⟩
  · cases hlookup

/-- When bytes that are no JSON are found, an exception leaves the handler. -/
theorem not_contained :
  ¬ Contained sampleDigest CachingProxy.sampleConfig (fun _ => True) (sampleArrival sampleFields)
  := by
  intro hcontained
  let b : Bytes := ⟨7, none, fun _ => rfl⟩
  have hraised : (sampleArrival sampleFields).finish (cacheHit b) = .raised := by
    have hnative : (sampleArrival sampleFields).pathOverride = none := by decide
    rw [Arrival.finish, hnative]
    rfl
  obtain ⟨es, hreaches, huncached⟩ :=
    sampleArrival_looksUp.exists_run (b := b) (fun _ => True) trivial
  obtain ⟨-, -, -, response, -, hresponse, -⟩ | hsame := hcontained es _ hreaches
  · rw [hraised] at hresponse
    cases hresponse
  · exact huncached _ hsame

end OllamaQueueProxy
