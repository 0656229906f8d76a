import OllamaQueueProxy.Application.Refinement
import OllamaQueueProxy.Queue.Resolution

/-!
# Statistics

The two statistics of `/queue/status`, those of the tiers and those of the clients, are kept in
different places: `enqueue` counts the items of a tier that there was no room for, and the
handlers count for their clients after the queue or the cache has answered.  Whenever no task
runs, what was counted as rejected agrees with what happened, and the successes of a client lag
behind by the requests that have not been answered yet (`reachable_tallied`).  The items that are
refused because their tier is paused are counted nowhere.
-/

open Program (Event Sat Calls calls_pure)
open Transition
open Json (Text)

namespace OllamaQueueProxy

deriving instance DecidableEq for ClientStat

/-! ### What the queue counts -/

/-- `enqueue` refuses an item because there is no room for it: its tier is full, or too many bytes
are queued.  It also refuses the items of tiers that are paused, without counting them. -/
def lacksRoom : Except EnqueueError ℕ → Bool
  | .error (.queueFull _ _) | .error (.queueOverCapacity _ _) => true
  | _ => false

namespace PriorityQueueManager

variable {δ ρ ε : Type} {n : ℕ} {cfg : QueueConfig} {s s' : PriorityQueueManager δ ρ ε n}

theorem reject_rejected (s : PriorityQueueManager δ ρ ε n) (t tier : Tier) (e : QueueEvent) :
  ((s.reject t e).stats tier).rejected
    = (s.stats tier).rejected + if t = tier then 1 else 0
  := by
  change (Function.update s.stats t _ tier).rejected = _
  by_cases ht : tier = t
  · subst ht
    rw [Function.update_self, if_pos rfl]
  · rw [Function.update_of_ne ht, if_neg (Ne.symm ht), add_zero]

theorem checkWatermark_stats {t : Tier} (h : checkWatermark cfg s t = some s') :
  s'.stats = s.stats
  := by
  unfold checkWatermark at h
  split at h
  · cases h
  · split_ifs at h <;> obtain rfl := Option.some.inj h <;> rfl

/-- In the state and with the result, the item is counted that there is no room for in `s`. -/
def CountsLackOfRoom (s : PriorityQueueManager δ ρ ε n) (item : QueueItem δ) (tier : Tier)
    (p : PriorityQueueManager δ ρ ε n × Except EnqueueError ℕ) : Prop :=
  (p.1.stats tier).rejected = (s.stats tier).rejected
    + if lacksRoom p.2 = true ∧ item.tier = tier then 1 else 0

/-- `enqueue` counts the items that there is no room for. -/
theorem enqueue_countsLackOfRoom (s : PriorityQueueManager δ ρ ε n) (item : QueueItem δ)
    (tier : Tier) :
  CountsLackOfRoom s item tier (s.enqueue cfg item)
  := by
  have hput (i : QueueItem δ) : (s.put i).stats = s.stats := setHasItems_stats _
  simp only [enqueue]
  split_ifs
  · simp [CountsLackOfRoom, lacksRoom]
  · simp [CountsLackOfRoom, lacksRoom, reject_rejected]
  · simp [CountsLackOfRoom, lacksRoom, reject_rejected]
  · split
    · simp [CountsLackOfRoom, lacksRoom, hput]
    · rename_i h
      simp [CountsLackOfRoom, lacksRoom, checkWatermark_stats h, hput]

/-- Only `enqueue` counts items as rejected. -/
theorem Effect.rejected_eq {a : Action δ ρ ε n} (ha : ∀ request, a ≠ .enqueue request)
    (heffect : Effect cfg a s s') (tier : Tier) :
  (s'.stats tier).rejected = (s.stats tier).rejected
  := by
  have hupdate {t : Tier} {x : TierStats} (hx : x.rejected = (s.stats t).rejected) :
      (Function.update s.stats t x tier).rejected = (s.stats tier).rejected := by
    by_cases ht : tier = t
    · subst ht
      rw [Function.update_self, hx]
    · rw [Function.update_of_ne ht]
  cases heffect with
  | note | fire | createFuture | accept => cases ha _ rfl
  | expire | complete =>
      rw [settle_stats]
      exact hupdate rfl
  | crash => exact hupdate rfl
  | fail =>
      rw [settle_stats]
      rfl
  | idle | start | drop | pause | resume | cancel => rfl

theorem step_rejected_eq {a : Action δ ρ ε n} (ha : ∀ request, a ≠ .enqueue request)
    (h : Step cfg s a s') (tier : Tier) :
  (s'.stats tier).rejected = (s.stats tier).rejected
  := Step.invariant (I := fun m => (m.stats tier).rejected = (s.stats tier).rejected)
    (fun hs heffect => (heffect.rejected_eq ha tier).trans hs) rfl h

end PriorityQueueManager

/-! ### What the handlers count -/

/-- What is to be counted when the operation was answered, and for which client: a success after
the queue or the cache has answered the request, and a refusal after the queue had no room for
it. -/
def owed? : Event Op.Answer → Option (ClientStat × Option String)
  | ⟨.enqueue item, result⟩ =>
      if lacksRoom result then some (.rejected, item.dispatchFn.clientId) else none
  | ⟨.await item, .ok _⟩ => some (.processed, item.dispatchFn.clientId)
  | ⟨.cacheGet _ clientId, .ok (some _)⟩ => some (.processed, clientId)
  | _ => none

def counted? : Event Op.Answer → Option (ClientStat × String)
  | ⟨.count stat clientId, _⟩ => some (stat, clientId)
  | _ => none

/-- After the event the statistic of the client is to be counted. -/
def owes (stat : ClientStat) (clientId : String) (e : Event Op.Answer) : Bool :=
  owed? e = some (stat, some clientId)

/-- The event counts the statistic of the client. -/
def counts (stat : ClientStat) (clientId : String) (e : Event Op.Answer) : Bool :=
  counted? e = some (stat, clientId)

/-- Everything is counted that was to be counted, except for `due`. -/
def Debt (due : Option (ClientStat × Option String)) (h : List (Event Op.Answer)) : Prop :=
  ∀ stat clientId, clientId ≠ "" → h.countP (owes stat clientId)
    = h.countP (counts stat clientId) + if due = some (stat, some clientId) then 1 else 0

/-- The operation is none of those that the statistics are about. -/
def Op.Uncounted : Op → Prop
  | .enqueue _ | .await _ | .cacheGet _ _ | .count _ _ => False
  | _ => True

/-- The operation may be called with what is to be counted at this time: nothing, a success, or a
refusal that is about to be counted. -/
inductive CountsInTime (h : List (Event Op.Answer)) : Op → Prop where
  | settled {op : Op} (hdebt : Debt none h) : CountsInTime h op
  | success {op : Op} {clientId : Option String} (hdebt : Debt (some (.processed, clientId)) h) :
      CountsInTime h op
  | retryAfter {tier : Tier} {clientId : Option String}
      (hdebt : Debt (some (.rejected, clientId)) h) : CountsInTime h (.retryAfter tier)
  | count {c : String} {clientId : Option String}
      (hdebt : Debt (some (.rejected, clientId)) h) : CountsInTime h (.count .rejected c)

section

variable {h : List (Event Op.Answer)} {due : Option (ClientStat × Option String)}

theorem debt_nil :
  Debt none []
  := fun _ _ _ => rfl

/-- An event after which something is to be counted. -/
theorem Debt.incur (hdebt : Debt none h) {e : Event Op.Answer} (he : counted? e = none) :
  Debt (owed? e) (h ++ [e])
  := by
  intro stat clientId hclient
  have hbefore := hdebt stat clientId hclient
  rw [if_neg (by simp), add_zero] at hbefore
  have hcounts : counts stat clientId e = false := by simp [counts, he]
  rw [List.countP_append, List.countP_append, List.countP_singleton, List.countP_singleton, hbefore,
    hcounts, owes]
  simp

theorem Debt.keep (hdebt : Debt due h) {e : Event Op.Answer} (howed : owed? e = none)
    (hcounted : counted? e = none) :
  Debt due (h ++ [e])
  := by
  intro stat clientId hclient
  have howes : owes stat clientId e = false := by simp [owes, howed]
  have hcounts : counts stat clientId e = false := by simp [counts, hcounted]
  rw [List.countP_append, List.countP_append, List.countP_singleton, List.countP_singleton,
    hdebt stat clientId hclient, howes, hcounts]
  simp

theorem Debt.uncounted (hdebt : Debt due h) {op : Op} (hop : op.Uncounted) (r : op.Answer) :
  Debt due (h ++ [⟨op, r⟩])
  := by
  cases op with
  | enqueue | await | cacheGet | count => cases hop
  | _ => exact hdebt.keep rfl rfl

/-- What was to be counted is counted. -/
theorem Debt.pay {stat : ClientStat} {clientId : String}
    (hdebt : Debt (some (stat, some clientId)) h) :
  Debt none (h ++ [⟨.count stat clientId, ()⟩])
  := by
  intro stat' c hclient
  have howes : owes stat' c ⟨.count stat clientId, ()⟩ = false := rfl
  rw [List.countP_append, List.countP_append, List.countP_singleton, List.countP_singleton,
    hdebt stat' c hclient, howes]
  simp [counts, counted?]

/-- Nothing is counted for a client that is not known. -/
theorem Debt.anonymous {stat : ClientStat} {clientId : Option String}
    (hclient : ∀ c ∈ clientId, c = "") (hdebt : Debt (some (stat, clientId)) h) :
  Debt none h
  := by
  intro stat' c hc
  rw [hdebt stat' c hc, if_neg, if_neg (by simp)]
  intro hsome
  obtain ⟨-, rfl⟩ := Prod.mk.inj (Option.some.inj hsome)
  exact hc (hclient c rfl)

theorem Debt.count {stat : ClientStat} {clientId : Option String}
    (hdebt : Debt (some (stat, clientId)) h) :
  Sat anyAnswer CountsInTime (fun h' _ => Debt none h') h (count stat clientId)
  := by
  unfold OllamaQueueProxy.count
  split
  · rename_i c
    split
    · rename_i hempty
      exact hdebt.anonymous fun _ hc => Option.some.inj hc ▸ String.isEmpty_iff.mp hempty
    · refine ⟨?_, fun _ _ => hdebt.pay⟩
      cases stat with
      | processed => exact .success hdebt
      | rejected => exact .count hdebt
  · exact hdebt.anonymous fun _ hc => by cases hc

theorem Debt.sat {α : Type} {p : Handler α} (hdebt : Debt none h) (hp : Calls Op.Uncounted p) :
  Sat anyAnswer CountsInTime (fun h' _ => Debt none h') h p
  := hp.sat_of_stable hdebt (fun hdebt _ => .settled hdebt) fun hdebt hop => hdebt.uncounted hop _

end

/-! ### The programs -/

section

variable {digest : Text → Text} {h : List (Event Op.Answer)}

theorem refusal_debt {r : Request} {clientId : Option String} {e : EnqueueError}
    (hdebt : Debt (if lacksRoom (.error e) then some (.rejected, clientId) else none) h) :
  Sat anyAnswer CountsInTime (fun h' _ => Debt none h') h (refusal r clientId e)
  := by
  cases e with
  | queueFull | queueOverCapacity =>
      refine ⟨.retryAfter hdebt, fun seconds _ => ?_⟩
      change Sat _ _ _ _ (count .rejected clientId >>= _)
      rw [Program.sat_bind]
      exact Debt.count (Debt.keep hdebt rfl rfl)
  | queuePaused | zeroDivision => exact hdebt

theorem store_uncounted (cfg : EmbeddingCacheConfig) (entry : Option CacheEntry)
    (response : Response) :
  Calls Op.Uncounted (store digest cfg entry response)
  := store_calls fun _ _ _ _ _ _ _ => trivial

/-- The answer of the queue is counted after the clock was read. -/
theorem submit_debt (hdebt : Debt none h) (cfg : EmbeddingCacheConfig) (tier : Tier)
    (call : DispatchCall) (entry : Option CacheEntry) :
  Sat anyAnswer CountsInTime (fun h' _ => Debt none h') h (submit digest cfg tier call entry)
  := by
  refine ⟨.settled hdebt, fun enqueueTime _ => ?_⟩
  have hdebt₁ : Debt none (h ++ [⟨.monotonic, enqueueTime⟩]) := hdebt.keep rfl rfl
  refine ⟨.settled hdebt₁, fun k _ => ?_⟩
  have hdebt₂ : Debt none (h ++ [⟨.monotonic, enqueueTime⟩] ++ [⟨.createFuture, k⟩]) :=
    hdebt₁.keep rfl rfl
  refine ⟨.settled hdebt₂, fun result _ => ?_⟩
  have hdebt₃ := hdebt₂.incur (e := ⟨.enqueue _, result⟩) rfl
  cases result with
  | error e => exact refusal_debt hdebt₃
  | ok position =>
      refine ⟨.settled hdebt₃, fun answer _ => ?_⟩
      have hdebt₄ := Debt.incur hdebt₃ (e := ⟨.await _, answer⟩) rfl
      cases answer with
      | error e => exact hdebt₄
      | ok response =>
          refine ⟨.success hdebt₄, fun now _ => ?_⟩
          change Sat _ _ _ _ (count .processed call.clientId >>= _)
          rw [Program.sat_bind]
          apply (Debt.count (Debt.keep hdebt₄ rfl rfl)).mono id
          intro h' _ hdebt₅
          exact hdebt₅.sat (Calls.bind (store_uncounted cfg entry response) fun _ => calls_pure _)

/-- An answer from the cache is counted at once. -/
theorem lookup_debt (hdebt : Debt none h) (cfg : EmbeddingCacheConfig) (entry : Option CacheEntry)
    (clientId : Option String) :
  Sat anyAnswer CountsInTime (fun h' cached => Debt
    (cached.bind fun _ => some (.processed, clientId)) h') h (lookup digest cfg entry clientId)
  := by
  unfold lookup EmbeddingCache.get
  split
  · split
    · exact hdebt
    · rename_i key hkey
      refine ⟨.settled hdebt, fun value _ => ?_⟩
      have hdebt' := hdebt.incur (e := ⟨.cacheGet key clientId, value⟩) rfl
      cases value with
      | error e => exact hdebt'
      | ok value => cases value <;> exact hdebt'
  · exact hdebt

theorem lookupOrSubmit_debt (hdebt : Debt none h) (cfg : EmbeddingCacheConfig) (tier : Tier)
    (call : DispatchCall) :
  Sat anyAnswer CountsInTime (fun h' _ => Debt none h') h (lookupOrSubmit digest cfg tier call)
  := by
  unfold lookupOrSubmit
  rw [Program.sat_bind]
  apply (lookup_debt hdebt cfg _ _).mono id
  intro h' cached hdebt'
  cases cached with
  | some bytes =>
      change Sat _ _ _ _ (count .processed call.clientId >>= _)
      rw [Program.sat_bind]
      exact Debt.count hdebt'
  | none => exact submit_debt hdebt' cfg tier call _

theorem dispatchDirectly_uncounted (call : DispatchCall) :
  Calls Op.Uncounted (dispatchDirectly call)
  := by
  refine Calls.bind (Program.calls_perform trivial) fun result => ?_
  cases result <;> exact calls_pure _

theorem enqueueRequest_debt (hdebt : Debt none h) (cfg : Config) (r : Request)
    (clientId : Option String) (tier : Tier) (pathOverride : Option Url.Octets)
    (keyCfg : Option ApiKeyConfig) :
  Sat anyAnswer CountsInTime (fun h' _ => Debt none h') h
    (enqueueRequest digest cfg r clientId tier pathOverride keyCfg)
  := by
  unfold enqueueRequest
  split
  · exact hdebt
  · split
    · exact hdebt
    · dsimp only
      split
      · exact hdebt.sat (dispatchDirectly_uncounted _)
      · exact lookupOrSubmit_debt hdebt _ tier _

/-- The operations of `authenticate` are counted nowhere. -/
theorem uncounted_of_ofAuth {op : Op} (h : op.ofAuth = true) :
  op.Uncounted
  := by
  cases op with
  | enqueue | await | cacheGet | count => cases h
  | _ => trivial

theorem proxyHandler_debt (cfg : Config) (r : Request) :
  Sat anyAnswer CountsInTime (fun h' _ => Debt none h') [] (proxyHandler digest cfg r)
  := by
  refine ⟨.settled debt_nil, fun shutting _ => ?_⟩
  have hdebt : Debt none [⟨.shuttingDown, shutting⟩] := debt_nil.keep rfl rfl
  cases shutting with
  | true => exact hdebt
  | false =>
      change Sat _ _ _ _ ((AuthManager.new cfg.auth).authenticate r >>= _)
      rw [Program.sat_bind]
      have hauth := (authenticate_calls (AuthManager.new cfg.auth) r).mono
        fun _ => uncounted_of_ofAuth
      apply (hdebt.sat hauth).mono id
      intro h' result hdebt'
      cases result with
      | raised | refused => exact hdebt'
      | passed keyCfg =>
          simp only [proxyAuthenticated]
          split
          · rw [Program.sat_bind]
            exact (enqueueRequest_debt hdebt' cfg r _ _ _ keyCfg).mono id id
          · exact enqueueRequest_debt hdebt' cfg r _ _ _ keyCfg

theorem injectionHandler_debt (cfg : Config) (injectAs : String) (k : ApiKeyConfig) (r : Request) :
  Sat anyAnswer CountsInTime (fun h' _ => Debt none h') []
    (injectionHandler digest cfg injectAs k r)
  := by
  refine ⟨.settled debt_nil, fun shared _ => ?_⟩
  have hshared : Debt none [⟨.sharedState, shared⟩] := debt_nil.keep rfl rfl
  cases shared with
  | false => exact hshared
  | true =>
      refine ⟨.settled hshared, fun shutting _ => ?_⟩
      have hdebt : Debt none ([⟨.sharedState, true⟩] ++ [⟨.shuttingDown, shutting⟩]) :=
        hshared.keep rfl rfl
      cases shutting with
      | true => exact hdebt
      | false => exact enqueueRequest_debt hdebt cfg r _ _ _ _

/-- The handler of every port counts what the queue and the cache answer: a refusal before
anything suspends it, a success before it returns. -/
theorem handle_debt (cfg : Config) (port : Port) (r : Request) :
  Sat anyAnswer CountsInTime (fun h' _ => Debt none h') [] (handle digest cfg port r)
  := by
  cases port with
  | main => exact proxyHandler_debt cfg r
  | injection injectAs k => exact injectionHandler_debt cfg injectAs k r

end

/-! ### The tasks -/

/-- Everything is counted that a task was to count, except that a success may be still to be
counted by one that has not returned. -/
def Tallied (h : List (Event RouteOp.Answer)) (p : Route Outcome) : Prop :=
  Debt none (handlerEvents h)
    ∨ (∃ clientId, Debt (some (.processed, clientId)) (handlerEvents h)) ∧ p.returned = false

section

variable {digest : Text → Text} {unicode : Unicode} {cfg : Config} {queue : QueueConfig} {n : ℕ}

/-- A task counts refusals before it is suspended. -/
theorem CountsInTime.tallied {h : List (Event RouteOp.Answer)} {op : Op}
    (hop : CountsInTime (handlerEvents h) op) {x : Application n}
    (hact : Application.act queue (.handler op) x = none) (next : op.Answer → Route Outcome) :
  Tallied h (.call (.handler op) next)
  := by
  cases hop with
  | settled hdebt => exact .inl hdebt
  | success hdebt => exact .inr ⟨⟨_, hdebt⟩, rfl⟩
  | retryAfter | count => cases hact

/-- The routes of the queue count nothing. -/
theorem QueueRoute.debt (route : QueueRoute) (cfg : AuthConfig) (r : Request) :
  Sat anyRouteAnswer (fun h _ => Debt none (handlerEvents h))
    (fun h _ => Debt none (handlerEvents h)) [] (route.handle unicode cfg r)
  := by
  apply route.calls.sat_of_stable debt_nil
  · exact fun hdebt _ => hdebt
  · rintro h op answer hdebt (⟨o, rfl, ho⟩ | hop)
    · rw [handlerEvents_append]
      exact Debt.uncounted hdebt (uncounted_of_ofAuth ho) _
    · rwa [handlerEvents_append_of_isRoute hop]

theorem Purpose.tallied (purpose : Purpose cfg) :
  Sat (fun _ _ => True)
    (fun h op => ∀ x next, Application.act (n := n) queue op x = none → Tallied h (.call op next))
    (fun h a => Tallied h (.pure a)) [] (purpose.program digest unicode cfg)
  := by
  cases purpose with
  | request port r _ =>
      apply (ofHandler_sat (h := []) (handle_debt cfg port.1 r)).mono
      · rintro h op ⟨o, rfl, hop⟩ x next hact
        exact hop.tallied hact next
      · exact .inl
  | manage route r _ =>
      apply (route.debt cfg.auth r).mono
      · exact fun hdebt _ _ _ => .inl hdebt
      · exact .inl
  | inspect r shown _ =>
      have huncounted : Calls Op.Uncounted (inspection cfg.auth r shown) :=
        (inspection_calls cfg.auth r shown).mono fun _ => uncounted_of_ofAuth
      apply (ofHandler_sat (h := []) (debt_nil.sat huncounted)).mono
      · rintro h op ⟨o, rfl, hop⟩ x next hact
        exact hop.tallied hact next
      · exact .inl

/-! ### Accounting -/

/-- How often the tasks performed what satisfies `p`. -/
def performed (s : Running cfg n) (p : Event Op.Answer → Bool) : ℕ :=
  (s.tasks.map fun t => (handlerEvents t.history).countP p).sum

/-- One for an event of a handler that satisfies `p`. -/
def weighing (p : Event Op.Answer → Bool) (e : Event RouteOp.Answer) : ℕ :=
  (handlerEvents [e]).countP p

theorem performed_eq_weigh (s : Running cfg n) (p : Event Op.Answer → Bool) :
  performed s p = s.weigh (weighing p)
  := by
  rw [performed, EventLoop.State.weigh]
  congr 1
  apply List.map_congr_left
  intro t _
  rw [EventLoop.Task.weigh]
  induction t.history with
  | nil => rfl
  | cons e h ih =>
      rw [List.map_cons, List.sum_cons, ← ih, weighing, ← List.countP_append,
        ← List.filterMap_append]
      rfl

/-- The event is that the queue had no room for an item of the tier. -/
def isLackOfRoom (tier : Tier) : Event Op.Answer → Bool
  | ⟨.enqueue item, result⟩ => lacksRoom result && item.tier = tier
  | _ => false

/-- What is counted as rejected for a tier are its items that `enqueue` found no room for. -/
theorem rejected_of_answered {op : RouteOp} {r : op.Answer} {x x' : Application n} (tier : Tier)
    (h : EventLoop.Loop.Answered (eventLoop digest unicode cfg queue n) op x r x') :
  (x'.queueManager.stats tier).rejected
    = (x.queueManager.stats tier).rejected + weighing (isLackOfRoom tier) ⟨op, r⟩
  := by
  rw [(answered_queueManager h).1]
  cases op with
  | handler op =>
      cases op with
      | enqueue item =>
          cases h with
          | act hact =>
              obtain ⟨rfl, -⟩ := Prod.mk.inj (Option.some.inj hact)
              have hcounts := @PriorityQueueManager.enqueue_countsLackOfRoom _ _ _ _ queue
                x.queueManager item tier
              rw [PriorityQueueManager.CountsLackOfRoom] at hcounts
              rw [queueAfter, hcounts]
              simp [weighing, handlerEvents, handlerEvent?, isLackOfRoom, List.countP_singleton]
          | wake reply hwake => cases hwake
      | _ => rfl
  | pause | resume | drain => rfl
  | flush t =>
      exact PriorityQueueManager.step_rejected_eq (by simp)
        (PriorityQueueManager.step_flush queue x.queueManager t) tier

theorem reachable_rejected {clock : ℚ} {s : Running cfg n}
    (h : Running.Reached digest unicode cfg queue clock s) (tier : Tier) :
  (s.shared.queueManager.stats tier).rejected = performed s (isLackOfRoom tier)
  := by
  rw [performed_eq_weigh]
  refine (EventLoop.Loop.reachable_account (weighing (isLackOfRoom tier))
    (fun x => (x.queueManager.stats tier).rejected) h ?_ ?_ ?_).trans (Nat.zero_add _)
  · exact fun hanswered => rejected_of_answered tier hanswered
  · intro op x
    cases op with
    | handler op => cases op <;> rfl
    | pause | resume | drain | flush => rfl
  · intro e x x' houtside
    cases outside_queueChange houtside with
    | same _ hmanager => rw [hmanager]
    | stopWorkers hmanager =>
        rw [hmanager]
        rfl
    | work hstep | finish _ hstep =>
        exact PriorityQueueManager.step_rejected_eq (by simp) hstep tier

/-! ### The statistics of the clients -/

/-- A statistic of a client. -/
def ClientStats.value (s : ClientStats) : ClientStat → ℕ
  | .processed => s.processed
  | .rejected => s.rejected

/-- A statistic that is kept for a client; nothing is kept for one that is not known. -/
def Application.statOf (x : Application n) (stat : ClientStat) (clientId : String) : ℕ :=
  ((Dict.get? x.clientStats clientId).getD .initial).value stat

theorem ClientStats.value_add (s : ClientStats) (stat stat' : ClientStat) :
  (s.add stat).value stat' = s.value stat' + if stat = stat' then 1 else 0
  := by
  cases stat <;> cases stat' <;> rfl

theorem Application.statOf_count (x : Application n) (stat stat' : ClientStat) (c c' : String) :
  (x.count stat c).statOf stat' c'
    = x.statOf stat' c' + if stat = stat' ∧ c = c' then 1 else 0
  := by
  unfold Application.count Application.statOf
  by_cases hc : c = c'
  · subst hc
    rw [Dict.get?_set_self, Option.getD_some, ClientStats.value_add]
    simp
  · rw [Dict.get?_set_of_ne _ (Ne.symm hc)]
    simp [hc]

theorem Application.statOf_initial (cfg : AuthConfig) (clock : ℚ) (stat : ClientStat)
    (clientId : String) :
  (Application.initial cfg n clock).statOf stat clientId = 0
  := by
  have hinitial : ((Dict.get? (Application.initial cfg n clock).clientStats clientId).getD .initial)
      = .initial := by
    cases hget : Dict.get? (Application.initial cfg n clock).clientStats clientId with
    | none => rfl
    | some x =>
        have hmem := Dict.mem_of_mem_ofList (Dict.mem_of_get? hget)
        obtain ⟨k, -, hk⟩ := List.mem_map.mp hmem
        exact (Prod.mk.inj hk).2.symm
  rw [Application.statOf, hinitial]
  cases stat <;> rfl

/-- The statistic of a client is what the handlers counted for it. -/
theorem statOf_of_answered {op : RouteOp} {r : op.Answer} {x x' : Application n}
    (stat : ClientStat) (clientId : String)
    (h : EventLoop.Loop.Answered (eventLoop digest unicode cfg queue n) op x r x') :
  x'.statOf stat clientId = x.statOf stat clientId + weighing (counts stat clientId) ⟨op, r⟩
  := by
  cases h with
  | act hact =>
      cases op with
      | handler op =>
          cases op with
          | cacheGet | cacheSet | monotonic | await | dispatch => cases hact
          | count stat' c =>
              obtain ⟨-, rfl⟩ := Prod.mk.inj (Option.some.inj hact)
              rw [Application.statOf_count]
              simp [weighing, handlerEvents, handlerEvent?, counts, counted?, List.countP_singleton]
          | _ =>
              obtain ⟨-, rfl⟩ := Prod.mk.inj (Option.some.inj hact)
              rfl
      | pause | resume | flush =>
          obtain ⟨-, rfl⟩ := Prod.mk.inj (Option.some.inj hact)
          rfl
      | drain =>
          simp only [eventLoop, Application.act] at hact
          split_ifs at hact
          obtain ⟨-, rfl⟩ := Prod.mk.inj (Option.some.inj hact)
          rfl
  | wake reply hwake =>
      obtain rfl := wake_shared hwake
      cases op with
      | handler op =>
          cases op with
          | count => cases hwake
          | _ => rfl
      | pause | resume | drain | flush => rfl

theorem reachable_statOf {clock : ℚ} {s : Running cfg n}
    (h : Running.Reached digest unicode cfg queue clock s) (stat : ClientStat)
    (clientId : String) :
  s.shared.statOf stat clientId = performed s (counts stat clientId)
  := by
  rw [performed_eq_weigh]
  refine (EventLoop.Loop.reachable_account (weighing (counts stat clientId))
    (fun x => x.statOf stat clientId) h ?_ ?_ ?_).trans ?_
  · exact fun hanswered => statOf_of_answered stat clientId hanswered
  · intro op x
    cases op with
    | handler op => cases op <;> rfl
    | pause | resume | drain | flush => rfl
  · intro e x x' houtside
    rw [Application.statOf, Application.statOf, outside_clientStats houtside]
  · rw [Application.statOf_initial, Nat.zero_add]

/-! ### The result -/

/-- Where some values are greater by one, their sum is greater by the number of these. -/
theorem sum_map_le_add_countP {X : Type} {f g : X → ℕ} {p : X → Bool} {xs : List X}
    (h : ∀ x ∈ xs, f x ≤ g x + if p x then 1 else 0) :
  (xs.map f).sum ≤ (xs.map g).sum + xs.countP p
  := by
  induction xs with
  | nil => exact le_rfl
  | cons x xs ih =>
      obtain ⟨hx, hxs⟩ := List.forall_mem_cons.mp h
      have hrest := ih hxs
      rw [List.map_cons, List.map_cons, List.sum_cons, List.sum_cons, List.countP_cons]
      omega

/-- What a task that does not run has counted for a client. -/
theorem Tallied.counted {h : List (Event RouteOp.Answer)} {p : Route Outcome} (ht : Tallied h p)
    {clientId : String} (hclient : clientId ≠ "") :
  (handlerEvents h).countP (counts .rejected clientId)
      = (handlerEvents h).countP (owes .rejected clientId)
    ∧ (handlerEvents h).countP (counts .processed clientId)
      ≤ (handlerEvents h).countP (owes .processed clientId)
    ∧ (handlerEvents h).countP (owes .processed clientId)
      ≤ (handlerEvents h).countP (counts .processed clientId) + if !p.returned then 1 else 0
  := by
  obtain hdebt | ⟨⟨c, hdebt⟩, hcall⟩ := ht
  · rw [hdebt .rejected clientId hclient, hdebt .processed clientId hclient]
    simp
  · rw [hdebt .rejected clientId hclient, hdebt .processed clientId hclient, hcall]
    simp only [Option.some.injEq, Prod.mk.injEq, reduceCtorEq, false_and, if_false, true_and,
      Bool.not_false, if_true]
    split <;> omega

theorem reachable_counted {clock : ℚ} {s : Running cfg n}
    (h : Running.Reached digest unicode cfg queue clock s) (hidle : s.running = none) {t}
    (ht : t ∈ s.tasks) :
  Tallied t.history t.rest
  := by
  obtain ⟨k, hk⟩ := List.mem_iff_getElem?.mp ht
  exact EventLoop.Loop.reachable_settled h Purpose.tallied (fun _ => .inl debt_nil) hk
    (by simp [hidle])

end

/-- A queue with room for one item in every tier. -/
def narrowQueue : QueueConfig :=
  { QueueConfig.default with
    high := ⟨1, 120, 80⟩
    normal := ⟨1, 300, 80⟩
    low := ⟨1, 600, 80⟩ }

/-- Two requests are enqueued; the first one is executed and answered, and the second one is
refused, since the first one still waited. -/
def refusedRun : List (EventLoop.Action (Purpose sampleConfig) Reply (Occurrence 1)) :=
  [.spawn samplePurpose, .start 0, .perform, .perform, .perform, .perform, .suspend,
    .spawn samplePurpose, .start 1, .perform, .perform, .perform, .perform, .suspend,
    .wake 0 .done, .perform, .perform, .suspend,
    .wake 1 .done, .perform, .perform, .perform, .perform, .suspend,
    .outside (.work 0), .outside (.finish 0 (.ok ⟨200, .stream, []⟩)),
    .wake 0 .done, .suspend]

/-- The tier and the client have a refusal, and the success of the client is not counted yet. -/
def isRefusedEnd (s : Running sampleConfig 1) : Bool :=
  s.running.isNone && (s.shared.queueManager.stats .normal).rejected == 1
    && s.shared.statOf .rejected "chat" == 1 && s.shared.statOf .processed "chat" == 0

end OllamaQueueProxy
