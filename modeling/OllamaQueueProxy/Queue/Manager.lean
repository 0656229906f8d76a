import OllamaQueueProxy.Config
import OllamaQueueProxy.Library.Binary64
import Mathlib.Logic.Function.Basic
import Mathlib.Tactic.Simps.Basic

/-!
# The priority queue manager

The state of `PriorityQueueManager` and the operations that change it: `enqueue`, one turn
of the loop of a worker (`work`), the end of a dispatch (`finish`), `flush`, `pause` and
`resume`.  A turn of the loop runs from the acquisition of the semaphore to the next point
at which the worker suspends or looks at the event again, so no other task runs in
between.

An item carries the identity of the future its caller awaits, and what its `dispatch_fn`
dispatches, of an arbitrary type `δ`.  A dispatch gives a response of type `ρ` or raises an
exception of type `ε`.  The `log` of the manager records what happened to its items and
the events it fired; no operation reads it.
-/

namespace OllamaQueueProxy

/-- What waits in the queue of a tier. -/
structure QueueItem (δ : Type) where
  tier : Tier
  enqueueTime : ℚ
  requestId : String
  /-- The identity of the future the caller awaits. -/
  future : ℕ
  /-- What `dispatch_fn` dispatches. -/
  dispatchFn : δ
  position : ℕ
  nbytes : ℕ

/-- The statistics of a tier. -/
structure TierStats where
  processed : ℕ
  rejected : ℕ
  expired : ℕ
  /-- The last 20 wait times, the oldest first. -/
  recentWaits : List ℚ

namespace TierStats

def initial : TierStats := ⟨0, 0, 0, []⟩

/-- The statistics after a wait time is appended to the rolling window. -/
def pushWait (s : TierStats) (wait : ℚ) : TierStats :=
  { s with recentWaits := (s.recentWaits ++ [wait]).drop (s.recentWaits.length + 1 - 20) }

/-- The mean of the wait times.  The code rounds it, and each of the wait times, to double
precision; here they are exact. -/
def meanWait (s : TierStats) : ℚ :=
  if s.recentWaits.length < 3 then 5 else s.recentWaits.sum / s.recentWaits.length

end TierStats

/-- The exceptions that end up in a future. -/
inductive FutureException (ε : Type) where
  | requestExpired (tier : Tier) (requestId : String)
  | queueFlushed (tier : Tier)
  /-- An exception raised by `dispatch_fn`. -/
  | dispatch (e : ε)

/-- The state of an `asyncio.Future`. -/
inductive Future (ρ ε : Type) where
  | pending
  | result (r : ρ)
  | exception (e : FutureException ε)
  | cancelled

namespace Future

variable {ρ ε : Type}

def done : Future ρ ε → Bool
  | .pending => false
  | _ => true

/-- `set_result`; on a future that is done it raises `InvalidStateError`. -/
def setResult : Future ρ ε → ρ → Option (Future ρ ε)
  | .pending, r => some (.result r)
  | _, _ => none

/-- `set_exception`; on a future that is done it raises `InvalidStateError`. -/
def setException : Future ρ ε → FutureException ε → Option (Future ρ ε)
  | .pending, e => some (.exception e)
  | _, _ => none

/-- `cancel`, which leaves a future that is done as it is. -/
def cancel : Future ρ ε → Future ρ ε
  | .pending => .cancelled
  | f => f

@[simp]
theorem done_eq_false_iff {f : Future ρ ε} :
  f.done = false ↔ f = .pending
  := by
  cases f <;> simp [done]

theorem setResult_eq_none {f : Future ρ ε} {r : ρ} (h : f.setResult r = none) :
  f.done = true
  := by
  cases f <;> simp_all [setResult, done]

theorem setResult_eq_some {f f' : Future ρ ε} {r : ρ} (h : f.setResult r = some f') :
  f = .pending ∧ f' = .result r
  := by
  cases f <;> simp_all [setResult]

theorem setException_eq_none {f : Future ρ ε} {e : FutureException ε}
    (h : f.setException e = none) :
  f.done = true
  := by
  cases f <;> simp_all [setException, done]

theorem setException_eq_some {f f' : Future ρ ε} {e : FutureException ε}
    (h : f.setException e = some f') :
  f = .pending ∧ f' = .exception e
  := by
  cases f <;> simp_all [setException]

theorem cancel_of_done {f : Future ρ ε} (h : f.done = true) :
  f.cancel = f
  := by
  cases f with
  | pending => cases h
  | result | exception | cancelled => rfl

theorem done_cancel (f : Future ρ ε) :
  f.cancel.done = true
  := by
  cases f <;> rfl

end Future

/-- The exceptions `enqueue` raises. -/
inductive EnqueueError where
  | queuePaused (tier : Tier)
  | queueFull (tier : Tier) (statusCode : ℕ)
  | queueOverCapacity (tier : Tier) (statusCode : ℕ)
  | zeroDivision

/-- The events the manager fires. -/
inductive QueueEvent where
  | full (tier : Tier) (clientId : String)
  | overCapacity (tier : Tier) (clientId : String)
  | highWatermark (tier : Tier) (queueDepth : ℕ)
  | drained

/-- What the log of a manager records. -/
inductive Entry (δ : Type) where
  /-- The item was put in the queue of its tier. -/
  | admitted (item : QueueItem δ)
  /-- The item was removed by `flush`. -/
  | flushed (item : QueueItem δ)
  /-- The item was taken by a worker that found it expired. -/
  | expired (item : QueueItem δ)
  /-- The item was taken by a worker that started its `dispatch_fn`. -/
  | started (item : QueueItem δ)
  /-- The `dispatch_fn` of the item returned. -/
  | returned (item : QueueItem δ)
  /-- The `dispatch_fn` of the item raised an exception. -/
  | raised (item : QueueItem δ)
  /-- The event was handed to the callbacks. -/
  | fired (event : QueueEvent)

/-- Where the task of a worker is. -/
inductive Worker (δ : Type) where
  /-- It waits for the event `_has_items`. -/
  | waiting
  /-- It is about to enter the body of its loop. -/
  | ready
  /-- It awaits the `dispatch_fn` of the item. -/
  | executing (item : QueueItem δ)
  /-- An exception left its loop. -/
  | dead

/-- The state of the manager and of its `n` workers. -/
structure PriorityQueueManager (δ ρ ε : Type) (n : ℕ) where
  queues : Tier → List (QueueItem δ)
  paused : Tier → Bool
  stats : Tier → TierStats
  /-- The free permits of `_semaphore`. -/
  semaphore : ℕ
  active : ℤ
  hasItems : Bool
  queuedBytes : ℕ
  watermarkFired : Tier → Bool
  workers : Fin n → Worker δ
  /-- The futures, by identity. -/
  futures : ℕ → Future ρ ε
  /-- The number of futures created so far. -/
  created : ℕ
  log : List (Entry δ)

namespace PriorityQueueManager

variable {δ ρ ε : Type} {n : ℕ}

/-- The manager after `start_workers`, with `n` workers. -/
def initial (δ ρ ε : Type) (n : ℕ) : PriorityQueueManager δ ρ ε n where
  queues _ := []
  paused _ := false
  stats _ := TierStats.initial
  semaphore := n
  active := 0
  hasItems := false
  queuedBytes := 0
  watermarkFired _ := false
  workers _ := .waiting
  futures _ := .pending
  created := 0
  log := []

/-! ### Updates -/

/-- A future is created. -/
@[simps -fullyApplied]
def createFuture (s : PriorityQueueManager δ ρ ε n) : PriorityQueueManager δ ρ ε n :=
  { s with created := s.created + 1 }

@[simps -fullyApplied]
def record (s : PriorityQueueManager δ ρ ε n) (e : Entry δ) : PriorityQueueManager δ ρ ε n :=
  { s with log := s.log ++ [e] }

/-- `_fire_event`. -/
def fireEvent (s : PriorityQueueManager δ ρ ε n) (e : QueueEvent) :
    PriorityQueueManager δ ρ ε n :=
  s.record (.fired e)

@[simps -fullyApplied]
def setQueue (s : PriorityQueueManager δ ρ ε n) (t : Tier) (q : List (QueueItem δ)) :
    PriorityQueueManager δ ρ ε n :=
  { s with queues := Function.update s.queues t q }

@[simps -fullyApplied]
def setStats (s : PriorityQueueManager δ ρ ε n) (t : Tier) (x : TierStats) :
    PriorityQueueManager δ ρ ε n :=
  { s with stats := Function.update s.stats t x }

@[simps -fullyApplied]
def setFuture (s : PriorityQueueManager δ ρ ε n) (k : ℕ) (f : Future ρ ε) :
    PriorityQueueManager δ ρ ε n :=
  { s with futures := Function.update s.futures k f }

@[simps -fullyApplied]
def setWorker (s : PriorityQueueManager δ ρ ε n) (w : Fin n) (x : Worker δ) :
    PriorityQueueManager δ ρ ε n :=
  { s with workers := Function.update s.workers w x }

/-- `_has_items.set()`: the workers that wait for the event are woken. -/
def setHasItems (s : PriorityQueueManager δ ρ ε n) : PriorityQueueManager δ ρ ε n :=
  if s.hasItems then s
  else
    { s with
      hasItems := true
      workers := fun w => match s.workers w with
        | .waiting => .ready
        | x => x }

/-- The worker goes back to `await self._has_items.wait()`, which suspends it unless the
event is set. -/
def loopTop (s : PriorityQueueManager δ ρ ε n) (w : Fin n) : PriorityQueueManager δ ρ ε n :=
  s.setWorker w (if s.hasItems then .ready else .waiting)

/-! ### Queries -/

/-- `asyncio.Queue.full` for the queue of a tier; a maximal size of zero or less bounds
nothing. -/
def full (cfg : QueueConfig) (s : PriorityQueueManager δ ρ ε n) (t : Tier) : Bool :=
  if (cfg.tier t).maxDepth ≤ 0 then false
  else (cfg.tier t).maxDepth ≤ (s.queues t).length

def allEmpty (s : PriorityQueueManager δ ρ ε n) : Bool :=
  Tier.all.all fun t => (s.queues t).isEmpty

def queueDepths (s : PriorityQueueManager δ ρ ε n) (t : Tier) : ℕ := (s.queues t).length

/-- The scan of the tiers by a worker: the first tier whose queue is not empty, its first
item and the rest of its queue. -/
def getNowait (s : PriorityQueueManager δ ρ ε n) :
    Option (Tier × QueueItem δ × List (QueueItem δ)) :=
  Tier.all.findSome? fun t => match s.queues t with
    | [] => none
    | item :: rest => some (t, item, rest)

/-- The seconds after which to try again.  Where the exact product is close to a whole number,
the rounded one of the code may lead to the number next to it. -/
def retryAfter (s : PriorityQueueManager δ ρ ε n) (t : Tier) : ℤ :=
  ⌈((s.queues t).length : ℚ) / max n 1 * (s.stats t).meanWait⌉

/-! ### Operations -/

/-- The depth of a queue in percent of its maximal depth; a maximal depth of zero divides by
zero. -/
def depthPct (depth : ℕ) (maxDepth : ℤ) : Option ℚ :=
  if maxDepth = 0 then none
  else some (Binary64.mul (Binary64.divInt depth maxDepth) 100)

/-- The check of the high watermark after an item is put in the queue of tier `t`. -/
def checkWatermark (cfg : QueueConfig) (s : PriorityQueueManager δ ρ ε n) (t : Tier) :
    Option (PriorityQueueManager δ ρ ε n) :=
  match depthPct (s.queues t).length (cfg.tier t).maxDepth with
  | none => none
  | some pct =>
      if (cfg.tier t).highWatermarkPct ≤ pct ∧ s.watermarkFired t = false then
        some (fireEvent { s with watermarkFired := Function.update s.watermarkFired t true }
          (.highWatermark t (s.queues t).length))
      else if pct < (cfg.tier t).highWatermarkPct then
        some { s with watermarkFired := Function.update s.watermarkFired t false }
      else some s

/-- The statistics and the event of a refused item. -/
def reject (s : PriorityQueueManager δ ρ ε n) (t : Tier) (e : QueueEvent) :
    PriorityQueueManager δ ρ ε n :=
  (s.setStats t { s.stats t with rejected := (s.stats t).rejected + 1 }).fireEvent e

/-- The item is put at the end of the queue of its tier. -/
def put (s : PriorityQueueManager δ ρ ε n) (item : QueueItem δ) :
    PriorityQueueManager δ ρ ε n :=
  { s.setQueue item.tier (s.queues item.tier ++ [item]) with
    queuedBytes := s.queuedBytes + item.nbytes } |>.setHasItems.record (.admitted item)

/-- The position an item gets that is put in the queue of tier `t`. -/
def nextPosition (s : PriorityQueueManager δ ρ ε n) (t : Tier) : ℕ := (s.queues t).length + 1

/-- `enqueue`: the position of the item, or the exception raised. -/
def enqueue (cfg : QueueConfig) (s : PriorityQueueManager δ ρ ε n) (item : QueueItem δ) :
    PriorityQueueManager δ ρ ε n × Except EnqueueError ℕ :=
  if s.paused item.tier then (s, .error (.queuePaused item.tier))
  else if s.full cfg item.tier then
    (s.reject item.tier (.full item.tier item.requestId),
      .error (.queueFull item.tier cfg.overflowStatusCode.toNat))
  else if cfg.maxQueuedBytes < s.queuedBytes + item.nbytes ∧ s.allEmpty = false then
    (s.reject item.tier (.overCapacity item.tier item.requestId),
      .error (.queueOverCapacity item.tier cfg.overflowStatusCode.toNat))
  else
    let s' := s.put { item with position := s.nextPosition item.tier }
    match checkWatermark cfg s' item.tier with
    | none => (s', .error .zeroDivision)
    | some s'' => (s'', .ok (s.nextPosition item.tier))

/-- The end of the body of the loop of a worker: `_active` is decremented, `queue.drained`
is fired when all queues are empty, and the permit of the semaphore is given back. -/
def settle (s : PriorityQueueManager δ ρ ε n) (w : Fin n) : PriorityQueueManager δ ρ ε n :=
  { (if s.allEmpty then s.fireEvent .drained else s) with
    active := s.active - 1
    semaphore := s.semaphore + 1 } |>.loopTop w

/-- A worker that holds a permit takes an item off the queue of tier `t`. -/
@[simps! -fullyApplied]
def take (s : PriorityQueueManager δ ρ ε n) (t : Tier) (item : QueueItem δ)
    (rest : List (QueueItem δ)) : PriorityQueueManager δ ρ ε n :=
  { s.setQueue t rest with
    semaphore := s.semaphore - 1
    queuedBytes := s.queuedBytes - item.nbytes
    active := s.active + 1 }

/-- The item is older than the maximal wait of its tier, by the age that is computed in double
precision. -/
def stale (cfg : QueueConfig) (now : ℚ) (item : QueueItem δ) : Bool :=
  (cfg.tier item.tier).maxWait < Binary64.sub now item.enqueueTime

/-- The expiry of an item is counted and recorded. -/
@[simps! -fullyApplied]
def countExpired (s : PriorityQueueManager δ ρ ε n) (item : QueueItem δ) :
    PriorityQueueManager δ ρ ε n :=
  (s.setStats item.tier { s.stats item.tier with expired := (s.stats item.tier).expired + 1 }
    ).record (.expired item)

/-- The returned dispatch of an item is counted and recorded, with its wait time. -/
@[simps! -fullyApplied]
def countProcessed (s : PriorityQueueManager δ ρ ε n) (item : QueueItem δ) (wait : ℚ) :
    PriorityQueueManager δ ρ ε n :=
  (s.setStats item.tier { (s.stats item.tier).pushWait wait with
    processed := (s.stats item.tier).processed + 1 }).record (.returned item)

/-- An exception leaves the loop of a worker; the permit of the semaphore is given back. -/
@[simps! -fullyApplied]
def crash (s : PriorityQueueManager δ ρ ε n) (w : Fin n) : PriorityQueueManager δ ρ ε n :=
  { s with semaphore := s.semaphore + 1 } |>.setWorker w .dead

/-- One turn of the loop of a worker at time `now`. -/
def work (cfg : QueueConfig) (s : PriorityQueueManager δ ρ ε n) (w : Fin n) (now : ℚ) :
    PriorityQueueManager δ ρ ε n :=
  match s.getNowait with
  | none => { s with hasItems := if s.allEmpty then false else s.hasItems } |>.loopTop w
  | some (t, item, rest) =>
      if stale cfg now item then
        let s' := (s.take t item rest).countExpired item
        match (s'.futures item.future).setException
            (.requestExpired item.tier item.requestId) with
        | none => s'.crash w
        | some f => (s'.setFuture item.future f).settle w
      else ((s.take t item rest).record (.started item)).setWorker w (.executing item)

/-- A future is resolved, unless it is done: `resolved` is what setting its result or its
exception gives. -/
def resolve (s : PriorityQueueManager δ ρ ε n) (k : ℕ) (resolved : Option (Future ρ ε)) :
    PriorityQueueManager δ ρ ε n :=
  match resolved with
  | none => s
  | some f => s.setFuture k f

/-- The `dispatch_fn` of the item a worker executes returns or raises at time `now`. -/
def finish (s : PriorityQueueManager δ ρ ε n) (w : Fin n) (item : QueueItem δ) (now : ℚ)
    (outcome : Except ε ρ) : PriorityQueueManager δ ρ ε n :=
  match outcome with
  | .ok r =>
      ((s.resolve item.future ((s.futures item.future).setResult r)).countProcessed item
        (now - item.enqueueTime)).settle w
  | .error e =>
      ((s.resolve item.future ((s.futures item.future).setException (.dispatch e))).record
        (.raised item)).settle w

/-- The tiers an operation with an optional tier is about. -/
def tiersOf : Option Tier → List Tier
  | none => Tier.all
  | some t => [t]

def pause (s : PriorityQueueManager δ ρ ε n) (tier : Option Tier) :
    PriorityQueueManager δ ρ ε n :=
  { s with paused := fun t => if t ∈ tiersOf tier then true else s.paused t }

def resume (s : PriorityQueueManager δ ρ ε n) (tier : Option Tier) :
    PriorityQueueManager δ ρ ε n :=
  { s with paused := fun t => if t ∈ tiersOf tier then false else s.paused t }

/-- The loop of `flush` over the queue of one tier: the number of items dropped, or `none`
when `InvalidStateError` leaves the loop.  An item is out of its queue before the exception
of its future is set. -/
def flushItems (t : Tier) :
    List (QueueItem δ) → PriorityQueueManager δ ρ ε n →
      PriorityQueueManager δ ρ ε n × Option ℕ
  | [], s => (s, some 0)
  | item :: rest, s =>
      let s' := (s.setQueue t rest).record (.flushed item)
      match (s'.futures item.future).setException (.queueFlushed t) with
      | none => (s', none)
      | some f =>
          let flushed := flushItems t rest (s'.setFuture item.future f)
          (flushed.1, flushed.2.map (· + 1))

/-- The loop of `flush` over the tiers. -/
def flushTiers : List Tier → PriorityQueueManager δ ρ ε n →
    PriorityQueueManager δ ρ ε n × Option ℕ
  | [], s => (s, some 0)
  | t :: ts, s =>
      match flushItems t (s.queues t) s with
      | (s', none) => (s', none)
      | (s', some dropped) => ((flushTiers ts s').1, (flushTiers ts s').2.map (dropped + ·))

/-- `flush`: the number of items dropped, or `none` when `InvalidStateError` leaves it. -/
def flush (s : PriorityQueueManager δ ρ ε n) (tier : Option Tier) :
    PriorityQueueManager δ ρ ε n × Option ℕ :=
  flushTiers (tiersOf tier) s

end PriorityQueueManager

end OllamaQueueProxy
