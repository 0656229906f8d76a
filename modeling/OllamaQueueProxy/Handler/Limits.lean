import OllamaQueueProxy.Handler.Authorisation
import OllamaQueueProxy.Handler.KeepAlive
import OllamaQueueProxy.Queue.Admission

/-!
# The size of what is submitted

The limit on the size of a body is enforced when it is received.  On the paths on which
`keep_alive` is injected, the document is then written again in ASCII characters, which takes
more bytes than were received where the document has other characters.  So an item that is
submitted may be larger than the limit, and so may what waits in the queue (`bounded_iff`).
-/

open Program (Reaches Calls calls_pure)
open Transition
open Url (Octets ascii)
open Json (Text text)

namespace OllamaQueueProxy

/-- A call of `_enqueue_request`. -/
structure Inbound where
  request : Request
  clientId : Option String
  tier : Tier
  pathOverride : Option Octets
  keyCfg : Option ApiKeyConfig

namespace Inbound

def path (x : Inbound) : Octets := x.pathOverride.getD x.request.urlPath

/-- The request is not refused, and is not dispatched past the queue. -/
structure Proceeds (cfg : Config) (x : Inbound) : Prop where
  scope : ∀ k ∈ x.keyCfg, k.allows .inference = true
  read : ∃ body, readBody x.request cfg.proxy.maxRequestBodyMb = .ok body
  queued : x.path ∉ metadataFastPath

/-- The size of the document with `keep_alive` injected in ASCII characters, on the paths on
which that is done for an object, and of the body as it was received otherwise. -/
def sentSize (cfg : Config) (x : Inbound) : ℕ :=
  match x.request.body.json with
  | some (.object fields) =>
      if x.path ∈ keepAlivePaths then
        (Json.object (keepAliveFields cfg.keepAlive fields)).asciiSize
      else x.request.body.length
  | _ => x.request.body.length

/-- A request that proceeds has a body that is small enough when it is sent. -/
def Fits (cfg : Config) (x : Inbound) : Prop :=
  x.Proceeds cfg → (x.sentSize cfg : ℤ) ≤ maxBytes cfg.proxy.maxRequestBodyMb

section

variable (digest : Text → Text) (cfg : Config)

def handler (x : Inbound) : Handler Outcome :=
  enqueueRequest digest cfg x.request x.clientId x.tier x.pathOverride x.keyCfg

/-- The call may submit the item to the queue. -/
def Submits (x : Inbound) (item : QueueItem DispatchCall) : Prop :=
  ∃ es next, Reaches anyAnswer (x.handler digest cfg) es (.call (.enqueue item) next)

end

end Inbound

/-- What any of the calls submits is within the limit, and so is what waits in a queue to which
only they submit, or it is within the ceiling of the queue. -/
structure Bounded (digest : Text → Text) (cfg : Config) (queue : QueueConfig)
    (calls : Set Inbound) : Prop where
  submitted : ∀ x ∈ calls, ∀ item, x.Submits digest cfg item →
    (item.nbytes : ℤ) ≤ maxBytes cfg.proxy.maxRequestBodyMb
  waiting : ∀ {n : ℕ} {as : List (Action DispatchCall Response Unit n)} {s},
    Run (PriorityQueueManager.Step queue) (.initial DispatchCall Response Unit n) as s →
    (∀ request, .enqueue request ∈ as →
      ∃ x ∈ calls, ∃ future, x.Submits digest cfg (request.item future)) →
    (s.waitingBytes : ℤ) ≤ max queue.maxQueuedBytes (maxBytes cfg.proxy.maxRequestBodyMb)

variable {digest : Text → Text} {cfg : Config} {x : Inbound}

/-! ### The body -/

/-- Chunks that fit are within the limit together, unless there are none. -/
theorem sum_le_of_chunksFit {limit : ℤ} {total : ℕ} {chunks : List ℕ}
    (h : chunksFit limit total chunks = true) :
  chunks = [] ∨ ((total + chunks.sum : ℕ) : ℤ) ≤ limit
  := by
  induction chunks generalizing total with
  | nil => exact .inl rfl
  | cons chunk chunks ih =>
      right
      unfold chunksFit at h
      split_ifs at h with hover
      rw [List.sum_cons, ← Nat.add_assoc]
      obtain rfl | hsum := ih h
      · push_cast at hover ⊢
        simpa using hover
      · exact hsum

theorem length_le_of_readBody {r : Request} {maxMb : ℤ} {body : Bytes}
    (h : readBody r maxMb = .ok body) :
  body.length = 0 ∨ (body.length : ℤ) ≤ maxBytes maxMb
  := by
  obtain rfl := readBody_eq_ok h
  simp only [readBody] at h
  split_ifs at h with hlength hfit
  rw [← r.sum_chunks]
  obtain hnil | hsum := sum_le_of_chunksFit hfit
  · rw [hnil]
    exact .inl rfl
  · rw [Nat.zero_add] at hsum
    exact .inr hsum

theorem length_dumps (j : Json) :
  (Bytes.dumps Json.escapeAscii j).length = j.asciiSize
  := Json.encodedLength_write j

/-- The size of the body that is sent. -/
theorem length_outgoingBody {body : Bytes}
    (h : readBody x.request cfg.proxy.maxRequestBodyMb = .ok body) :
  (outgoingBody cfg x.path body).length = x.sentSize cfg
  := by
  have hlength := length_le_of_readBody h
  obtain rfl := readBody_eq_ok h
  rw [outgoingBody, Inbound.sentSize]
  by_cases hpath : x.path ∈ keepAlivePaths
  · rw [if_pos (List.contains_iff_mem.mpr hpath)]
    split
    · rename_i fields hjson
      have hne : x.request.body.length ≠ 0 := by
        intro hzero
        rw [x.request.body.json_eq_none hzero] at hjson
        cases hjson
      have hfits := not_lt_of_ge (hlength.resolve_left hne)
      rw [if_pos hpath, injectKeepAlive_of_object hfits hjson, length_dumps]
    · rename_i hobject
      rw [injectKeepAlive_of_not_object hobject]
  · rw [if_neg (by simpa using hpath)]
    split
    · rw [if_neg hpath]
    · rfl

/-! ### The items -/

/-- Every item that is submitted has the size of the body that is sent. -/
theorem Inbound.Submits.sent {item : QueueItem DispatchCall} (h : x.Submits digest cfg item) :
  x.Proceeds cfg ∧ item.nbytes = x.sentSize cfg
  := by
  obtain ⟨es, next, hreaches⟩ := h
  let rightSize (op : Op) : Prop :=
    ∀ item, op = .enqueue item → x.Proceeds cfg ∧ item.nbytes = x.sentSize cfg
  have hcalls : Calls rightSize (x.handler digest cfg) := by
    unfold Inbound.handler enqueueRequest
    split
    · apply calls_pure
    · rename_i hscope
      split
      · apply calls_pure
      · rename_i body hread
        dsimp only
        split
        · apply Calls.bind (Program.calls_perform fun item hitem => nomatch hitem)
          intro response
          cases response <;> apply calls_pure
        · rename_i hslow
          apply lookupOrSubmit_calls
          · rintro op hsilent item rfl
            cases hsilent
          · rintro key item ⟨⟩
          · rintro item - - hsize _ ⟨⟩
            refine ⟨⟨?_, ⟨body, hread⟩, by simpa [Inbound.path] using hslow⟩, ?_⟩
            · simpa [Option.any_eq_true] using hscope
            · rw [hsize]
              exact length_outgoingBody hread
  exact (hcalls.reaches hreaches).1 item rfl

theorem exists_lookup (cache : EmbeddingCacheConfig) (entry : Option CacheEntry)
    (clientId : Option String) :
  ∃ es, Reaches anyAnswer (lookup digest cache entry clientId) es (.pure none)
  := by
  unfold lookup EmbeddingCache.get
  split
  · split
    · exact ⟨[], .refl _⟩
    · exact ⟨[⟨.cacheGet _ _, .ok none⟩], .step trivial (.refl _)⟩
  · exact ⟨[], .refl _⟩

/-- A call that is not answered from the cache is submitted. -/
theorem exists_submitted (cache : EmbeddingCacheConfig) (tier : Tier) (call : DispatchCall) :
  ∃ item es next, Reaches anyAnswer (lookupOrSubmit digest cache tier call) es
    (.call (.enqueue item) next)
  := by
  obtain ⟨es, hlookup⟩ :=
    @exists_lookup digest cache (toCache? cache call.path call.body) call.clientId
  have hsubmit : Reaches anyAnswer
      (submit digest cache tier call (toCache? cache call.path call.body))
      [⟨.monotonic, 0⟩, ⟨.createFuture, 0⟩] _ := .step trivial (.step trivial (.refl _))
  exact ⟨_, _, _, hlookup.bind.append hsubmit⟩

/-- A request that proceeds may submit an item. -/
theorem Inbound.Proceeds.submits (digest : Text → Text) (h : x.Proceeds cfg) :
  ∃ item, x.Submits digest cfg item
  := by
  obtain ⟨hscope, ⟨body, hread⟩, hslow⟩ := h
  have hallowed : ¬ x.keyCfg.any (fun k => !k.allows .inference) = true := by
    simpa [Option.any_eq_true] using hscope
  obtain ⟨item, es, next, hreaches⟩ := @exists_submitted digest cfg.embeddingCache x.tier
    ⟨x.request, outgoingBody cfg x.path body, x.clientId, x.pathOverride⟩
  use item, es, next
  rw [Inbound.handler, enqueueRequest, if_neg hallowed, hread]
  dsimp only
  rw [if_neg (by simpa [Inbound.path] using hslow)]
  exact hreaches

/-- Whatever the calls submit is bounded exactly when their bodies are small enough when they are
sent, and one of the limits is not negative. -/
theorem bounded_iff (digest : Text → Text) (cfg : Config) (queue : QueueConfig)
    (calls : Set Inbound) :
  Bounded digest cfg queue calls ↔ (∀ x ∈ calls, x.Fits cfg)
    ∧ 0 ≤ max queue.maxQueuedBytes (maxBytes cfg.proxy.maxRequestBodyMb)
  := by
  constructor
  · rintro ⟨hsubmitted, hwaiting⟩
    constructor
    · intro x hx hproceeds
      obtain ⟨item, hitem⟩ := hproceeds.submits digest
      rw [← hitem.sent.2]
      exact hsubmitted x hx item hitem
    · exact @hwaiting 0 [] _ (.nil _) (fun _ hmem => nomatch hmem)
  · rintro ⟨hfits, hnonneg⟩
    have hsubmitted : ∀ x ∈ calls, ∀ item, x.Submits digest cfg item →
        (item.nbytes : ℤ) ≤ maxBytes cfg.proxy.maxRequestBodyMb := by
      intro x hx item hitem
      obtain ⟨hproceeds, hsize⟩ := hitem.sent
      rw [hsize]
      exact hfits x hx hproceeds
    use hsubmitted
    intro n as s hrun hcalls
    apply PriorityQueueManager.waitingBytes_le_max hnonneg hrun
    intro request hrequest
    obtain ⟨x, hx, future, hitem⟩ := hcalls request hrequest
    exact hsubmitted x hx _ hitem

/-- A configuration with the default limits. -/
def openConfig : Config :=
  .withoutListeners ⟨false, 50⟩ .default ⟨false, 32768, "oqp:embed:"⟩ ⟨"5m", false⟩

/-- A prompt of characters that take two bytes in UTF-8. -/
def accentedPrompt (n : ℕ) : Fields := [(text "prompt", .string (List.replicate n 233))]

/-- A request with such a prompt in UTF-8. -/
def accented (n : ℕ) : Inbound where
  request := {
    method := "POST"
    target := ascii "/api/generate"
    queryString := []
    headers := []
    clientHost := none
    requestId := "r"
    chunks := [(Bytes.dumps Json.escape (.object (accentedPrompt n))).length]
    body := .dumps Json.escape (.object (accentedPrompt n))
    sum_chunks := List.sum_singleton }
  clientId := none
  tier := .normal
  pathOverride := none
  keyCfg := none

theorem path_accented (n : ℕ) :
  (accented n).path = ascii "/api/generate"
  := by
  simp only [Inbound.path, accented, Option.getD_none, Request.urlPath, Request.relativeUrl,
    Request.scopePath, List.isEmpty_nil, if_true]
  decide

theorem length_accentedPrompt (n : ℕ) :
  Json.encodedLength (Json.write Json.escape (.object (accentedPrompt n))) = 2 * n + 13
  := by
  have hself : ∀ c ∈ List.replicate n 233, Json.escape c = [c] := by
    intro c hc
    rw [List.eq_of_mem_replicate hc]
    rfl
  have hbody : Json.encodedLength (List.replicate n 233) = 2 * n := by
    rw [Json.encodedLength, List.map_replicate, List.sum_replicate_nat, Nat.mul_comm]
    rfl
  have hwrite : Json.write Json.escape (.object (accentedPrompt n))
      = text "\x7b\"prompt\":\"" ++ (List.replicate n 233 ++ text "\"\x7d") := by
    simp only [accentedPrompt, Json.write, Json.writeFields, Json.quoted,
      List.flatMap_congr hself, List.flatMap_singleton', List.cons_append, List.append_assoc]
    rfl
  rw [hwrite, Json.encodedLength_append, Json.encodedLength_append, hbody, Nat.add_left_comm]
  rfl

theorem proceeds_accented {n : ℕ} (hn : 2 * n + 13 ≤ 52428800) :
  (accented n).Proceeds openConfig
  := by
  constructor
  · intro k hk
    cases hk
  · use (accented n).request.body
    have hfit : ¬ maxBytes 50 < ((2 * n + 13 : ℕ) : ℤ) := by
      rw [show maxBytes 50 = 52428800 from rfl]
      omega
    have hchunks : chunksFit (maxBytes 50) 0 [2 * n + 13] = true := by
      rw [chunksFit, Nat.cast_zero, Int.zero_add, if_neg hfit]
      rfl
    rw [← length_accentedPrompt] at hchunks
    have hheader : (accented n).request.header? "content-length" = none := rfl
    simp only [readBody, hheader, Option.bind_none, Option.any_none, Bool.false_eq_true, if_false]
    exact if_pos hchunks
  · rw [path_accented]
    decide

theorem sentSize_accented (n : ℕ) :
  6 * n ≤ (accented n).sentSize openConfig
  := by
  have hpath : (accented n).path ∈ keepAlivePaths := by
    rw [path_accented]
    decide
  have hprompt : Json.quotedSize (List.replicate n 233) = 2 + n * 6 := by
    rw [Json.quotedSize, List.map_replicate, List.sum_replicate_nat]
    rfl
  have hsent : (accented n).sentSize openConfig = (Json.object
      (accentedPrompt n ++ [(text "keep_alive", .string (text "5m"))])).asciiSize := by
    simp only [Inbound.sentSize]
    change (if (accented n).path ∈ keepAlivePaths then _ else (accented n).request.body.length) = _
    rw [if_pos hpath]
    rfl
  rw [hsent, accentedPrompt, List.singleton_append, Json.asciiSize, Json.fieldsSize, Json.asciiSize,
    hprompt]
  simp only [List.isEmpty_cons, Bool.false_eq_true, if_false]
  omega

/-- The item of a long prompt is larger than the limit. -/
theorem not_bounded :
  ¬ Bounded id openConfig .default {accented 26214000}
  := by
  rintro ⟨hsubmitted, -⟩
  obtain ⟨item, hitem⟩ := (proceeds_accented (n := 26214000) (by decide)).submits id
  have hsize := hsubmitted _ rfl item hitem
  have hsent := sentSize_accented 26214000
  rw [hitem.sent.2, show maxBytes openConfig.proxy.maxRequestBodyMb = 52428800 from rfl] at hsize
  omega

end OllamaQueueProxy
