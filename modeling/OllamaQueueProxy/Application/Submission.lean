import OllamaQueueProxy.Application.Tasks

/-!
# How handlers submit

A handler enqueues an item right after it has created the future of the item, and it enqueues at
most one, after it found `shutting_down` unset.  It awaits no other future than the one of the
item (`handle_inOrder`).
-/

open Program (Event Sat Calls calls_pure calls_perform)
open Json (Text)

namespace OllamaQueueProxy

/-! ### Histories -/

/-- The future that the last of the events created, if it created one. -/
def created? (h : List (Event Op.Answer)) : Option ℕ :=
  match h.getLast? with
  | some ⟨.createFuture, k⟩ => some k
  | _ => none

/-- The event is that `shutting_down` was found unset. -/
def isPass : Event Op.Answer → Bool
  | ⟨.shuttingDown, shutting⟩ => !shutting
  | _ => false

/-- The event is that `enqueue` was called. -/
def isEnqueue : Event Op.Answer → Bool
  | ⟨.enqueue _, _⟩ => true
  | _ => false

/-- How often `shutting_down` was found unset. -/
def passes (h : List (Event Op.Answer)) : ℕ := h.countP isPass

/-- How often `enqueue` was called. -/
def enqueues (h : List (Event Op.Answer)) : ℕ := h.countP isEnqueue

/-- The operation is none of those by which items are submitted and awaited. -/
def Op.Quiet : Op → Prop
  | .shuttingDown | .createFuture | .enqueue _ | .await _ => False
  | _ => True

/-- Nothing is being submitted. -/
structure Settled (h : List (Event Op.Answer)) : Prop where
  created : created? h = none
  enqueues : enqueues h ≤ passes h

/-- Nothing is being submitted, and an item may be. -/
structure MayEnqueue (h : List (Event Op.Answer)) : Prop where
  created : created? h = none
  enqueues : enqueues h < passes h

theorem MayEnqueue.settled {h : List (Event Op.Answer)} (hmay : MayEnqueue h) :
  Settled h
  := ⟨hmay.created, hmay.enqueues.le⟩

/-- The operation may be called after the history: an item is enqueued with the future that was
created last, and after `shutting_down` was found unset, and it is awaited after it was
enqueued. -/
def InOrder (h : List (Event Op.Answer)) : Op → Prop
  | .enqueue item =>
      created? h = some item.future ∧ item.position = 0 ∧ enqueues h < passes h
  | .await item => Settled h ∧ ∃ position, ⟨.enqueue item, .ok position⟩ ∈ h
  | _ => Settled h

theorem created?_append (h : List (Event Op.Answer)) (e : Event Op.Answer) :
  created? (h ++ [e]) = created? [e]
  := by
  unfold created?
  rw [List.getLast?_append_of_ne_nil _ (List.cons_ne_nil _ _)]

theorem passes_append (h : List (Event Op.Answer)) (e : Event Op.Answer) :
  passes (h ++ [e]) = passes h + if isPass e = true then 1 else 0
  := by
  rw [passes, List.countP_append, List.countP_singleton]
  rfl

theorem enqueues_append (h : List (Event Op.Answer)) (e : Event Op.Answer) :
  enqueues (h ++ [e]) = enqueues h + if isEnqueue e = true then 1 else 0
  := by
  rw [enqueues, List.countP_append, List.countP_singleton]
  rfl

/-- After an operation by which no item is submitted nothing else has changed. -/
theorem quiet_append {op : Op} (hop : op.Quiet) (h : List (Event Op.Answer)) (r : op.Answer) :
  created? (h ++ [⟨op, r⟩]) = none ∧ passes (h ++ [⟨op, r⟩]) = passes h
    ∧ enqueues (h ++ [⟨op, r⟩]) = enqueues h
  := by
  rw [created?_append, passes_append, enqueues_append]
  cases op with
  | shuttingDown | createFuture | enqueue | await => cases hop
  | _ => exact ⟨rfl, rfl, rfl⟩

theorem Settled.quiet {op : Op} {h : List (Event Op.Answer)} {r : op.Answer} (hs : Settled h)
    (hop : op.Quiet) :
  Settled (h ++ [⟨op, r⟩])
  := by
  obtain ⟨hcreated, hpasses, henqueues⟩ := quiet_append hop h r
  exact ⟨hcreated, by rw [hpasses, henqueues]; exact hs.enqueues⟩

theorem MayEnqueue.quiet {op : Op} {h : List (Event Op.Answer)} {r : op.Answer}
    (hs : MayEnqueue h) (hop : op.Quiet) :
  MayEnqueue (h ++ [⟨op, r⟩])
  := by
  obtain ⟨hcreated, hpasses, henqueues⟩ := quiet_append hop h r
  exact ⟨hcreated, by rw [hpasses, henqueues]; exact hs.enqueues⟩

theorem Settled.inOrder {op : Op} {h : List (Event Op.Answer)} (hs : Settled h)
    (hop : op.Quiet) :
  InOrder h op
  := by
  cases op with
  | enqueue | await => cases hop
  | _ => exact hs

theorem Settled.await {h : List (Event Op.Answer)} (hs : Settled h) (item : QueueItem DispatchCall)
    (answer : Except (FutureException Unit) Response) :
  Settled (h ++ [⟨.await item, answer⟩])
  := by
  constructor
  · rw [created?_append]
    rfl
  · rw [enqueues_append, passes_append]
    exact hs.enqueues

/-! ### The programs -/

section

variable {α : Type} {p : Handler α} {h : List (Event Op.Answer)}

theorem Settled.sat (hs : Settled h) (hp : Calls Op.Quiet p) :
  Sat anyAnswer InOrder (fun h' _ => Settled h') h p
  := hp.sat_of_stable hs Settled.inOrder Settled.quiet

theorem MayEnqueue.sat (hs : MayEnqueue h) (hp : Calls Op.Quiet p) :
  Sat anyAnswer InOrder (fun h' _ => MayEnqueue h') h p
  := hp.sat_of_stable hs (fun hs => hs.settled.inOrder) MayEnqueue.quiet

end

variable {digest : Text → Text} {h : List (Event Op.Answer)}

/-- After an item was enqueued with the future that was created last, nothing is being
submitted any more. -/
theorem MayEnqueue.enqueue (hs : MayEnqueue h) (k : ℕ) (item : QueueItem DispatchCall)
    (result : Except EnqueueError ℕ) :
  Settled (h ++ [⟨.createFuture, k⟩] ++ [⟨.enqueue item, result⟩])
  := by
  constructor
  · rw [created?_append]
    rfl
  · rw [enqueues_append, enqueues_append, passes_append, passes_append]
    exact hs.enqueues

theorem refusal_quiet (r : Request) (clientId : Option String) (e : EnqueueError) :
  Calls Op.Quiet (refusal r clientId e)
  := refusal_calls (fun _ => trivial) (fun _ => trivial) r clientId e

/-- What is called after the future of an item is done. -/
theorem conclude_quiet (cfg : EmbeddingCacheConfig) (call : DispatchCall)
    (entry : Option CacheEntry) (response : Response) (answer : ℚ → Outcome) :
  Calls Op.Quiet (do
    let now ← ask .monotonic
    count .processed call.clientId
    store digest cfg entry response
    return answer now)
  := by
  refine Calls.bind (calls_perform trivial) fun now => ?_
  refine Calls.bind (count_calls (fun _ => trivial) _) fun _ => ?_
  exact Calls.bind (store_calls fun _ _ _ _ _ _ _ => trivial) fun _ => calls_pure _

/-- The item is enqueued right after its future was created. -/
theorem submit_inOrder (hs : MayEnqueue h) (cfg : EmbeddingCacheConfig) (tier : Tier)
    (call : DispatchCall) (entry : Option CacheEntry) :
  Sat anyAnswer InOrder (fun h' _ => Settled h') h (submit digest cfg tier call entry)
  := by
  refine ⟨hs.settled, fun enqueueTime _ => ?_⟩
  have hs' : MayEnqueue (h ++ [⟨.monotonic, enqueueTime⟩]) := hs.quiet trivial
  refine ⟨hs'.settled, fun k _ => ⟨⟨created?_append _ _, rfl, ?_⟩, fun result _ => ?_⟩⟩
  · rw [enqueues_append, passes_append]
    exact hs'.enqueues
  · cases result with
    | error e => exact (hs'.enqueue k _ _).sat (refusal_quiet _ _ e)
    | ok position =>
        use ⟨hs'.enqueue k _ _, position, List.mem_concat_self⟩
        intro answer _
        cases answer with
        | error e => exact (hs'.enqueue k _ _).await _ _
        | ok response =>
            refine Settled.sat ?_ (conclude_quiet cfg call entry response _)
            exact (hs'.enqueue k _ _).await _ _

theorem lookupOrSubmit_inOrder (hs : MayEnqueue h) (cfg : EmbeddingCacheConfig) (tier : Tier)
    (call : DispatchCall) :
  Sat anyAnswer InOrder (fun h' _ => Settled h') h (lookupOrSubmit digest cfg tier call)
  := by
  unfold lookupOrSubmit
  rw [Program.sat_bind]
  apply (hs.sat (lookup_calls digest cfg _ _ fun _ => trivial)).mono id
  intro h' cached hs'
  cases cached with
  | some bytes =>
      exact hs'.settled.sat (Calls.bind (count_calls (fun _ => trivial) _) fun _ => calls_pure _)
  | none => exact submit_inOrder hs' cfg tier call _

theorem dispatchDirectly_quiet (call : DispatchCall) :
  Calls Op.Quiet (dispatchDirectly call)
  := by
  refine Calls.bind (calls_perform trivial) fun result => ?_
  cases result <;> exact calls_pure _

theorem enqueueRequest_inOrder (hs : MayEnqueue h) (cfg : Config) (r : Request)
    (clientId : Option String) (tier : Tier) (pathOverride : Option Url.Octets)
    (keyCfg : Option ApiKeyConfig) :
  Sat anyAnswer InOrder (fun h' _ => Settled h') h
    (enqueueRequest digest cfg r clientId tier pathOverride keyCfg)
  := by
  unfold enqueueRequest
  split
  · exact hs.settled
  · split
    · exact hs.settled
    · dsimp only
      split
      · exact hs.settled.sat (dispatchDirectly_quiet _)
      · exact lookupOrSubmit_inOrder hs _ tier _

/-- The operations of `authenticate` submit nothing. -/
theorem quiet_of_ofAuth {op : Op} (h : op.ofAuth = true) :
  op.Quiet
  := by
  cases op with
  | shuttingDown | createFuture | enqueue | await => cases h
  | _ => trivial

/-- Nothing has happened before the first operation. -/
theorem settled_nil :
  Settled []
  := ⟨rfl, le_rfl⟩

/-- When `shutting_down` was found unset, an item may be enqueued. -/
theorem mayEnqueue_of_pass (hs : Settled h) :
  MayEnqueue (h ++ [⟨.shuttingDown, false⟩])
  := by
  constructor
  · rw [created?_append]
    rfl
  · rw [enqueues_append, passes_append]
    exact Nat.lt_succ_of_le hs.enqueues

theorem settled_of_shuttingDown (hs : Settled h) :
  Settled (h ++ [⟨.shuttingDown, true⟩])
  := by
  constructor
  · rw [created?_append]
    rfl
  · rw [enqueues_append, passes_append]
    exact hs.enqueues

theorem proxyHandler_inOrder (cfg : Config) (r : Request) :
  Sat anyAnswer InOrder (fun h' _ => Settled h') [] (proxyHandler digest cfg r)
  := by
  refine ⟨settled_nil, fun shutting _ => ?_⟩
  cases shutting with
  | true => exact settled_of_shuttingDown settled_nil
  | false =>
      have hpassed := mayEnqueue_of_pass settled_nil
      change Sat _ _ _ _ ((AuthManager.new cfg.auth).authenticate r >>= _)
      rw [Program.sat_bind]
      have hquiet := (authenticate_calls (AuthManager.new cfg.auth) r).mono fun _ => quiet_of_ofAuth
      apply (hpassed.sat hquiet).mono id
      intro h' result hs'
      cases result with
      | raised | refused => exact hs'.settled
      | passed keyCfg =>
          simp only [proxyAuthenticated]
          split
          · rw [Program.sat_bind]
            exact (enqueueRequest_inOrder hs' cfg r _ _ _ keyCfg).mono id id
          · exact enqueueRequest_inOrder hs' cfg r _ _ _ keyCfg

theorem injectionHandler_inOrder (cfg : Config) (injectAs : String) (k : ApiKeyConfig)
    (r : Request) :
  Sat anyAnswer InOrder (fun h' _ => Settled h') [] (injectionHandler digest cfg injectAs k r)
  := by
  refine ⟨settled_nil, fun shared _ => ?_⟩
  have hshared : Settled [⟨.sharedState, shared⟩] := settled_nil.quiet trivial
  cases shared with
  | false => exact hshared
  | true =>
      refine ⟨hshared, fun shutting _ => ?_⟩
      cases shutting with
      | true => exact settled_of_shuttingDown hshared
      | false => exact enqueueRequest_inOrder (mayEnqueue_of_pass hshared) cfg r _ _ _ _

/-- The handler of every port enqueues one item at most, right after it has created its future,
and after it found `shutting_down` unset. -/
theorem handle_inOrder (cfg : Config) (port : Port) (r : Request) :
  Sat anyAnswer InOrder (fun h' _ => Settled h') [] (handle digest cfg port r)
  := by
  cases port with
  | main => exact proxyHandler_inOrder cfg r
  | injection injectAs k => exact injectionHandler_inOrder cfg injectAs k r

end OllamaQueueProxy
