import OllamaQueueProxy.Library.Program
import OllamaQueueProxy.Proxy.Dispatch
import OllamaQueueProxy.Queue.Manager

/-!
# The operations of the handlers

The handlers are programs whose operations are the points at which they depend on the state
of the application, or change it: the failures that the `AuthManager` recorded, the
embedding cache, the queue, the statistics of the clients, the clock and the upstream hosts.
-/

open Json (Text)

namespace OllamaQueueProxy

/-- The statistics that are kept for every client. -/
inductive ClientStat where
  | processed
  | rejected

/-- What a handler asks of the rest of the application. -/
inductive Op where
  /-- `_shared_state is not None`. -/
  | sharedState
  /-- `state.shutting_down`. -/
  | shuttingDown
  /-- The failures recorded for an address, and the time, read under the lock. -/
  | failures (ip : String)
  /-- The failures of an address are replaced, under the lock. -/
  | setFailures (ip : String) (recent : List ℚ)
  | recordFailure (ip : String)
  | clearFailures (ip : String)
  /-- `_client.get` of the cache, for a client. -/
  | cacheGet (key : Text) (clientId : Option String)
  /-- `_client.setex` of the cache. -/
  | cacheSet (key : Text) (value : Bytes)
  | monotonic
  | createFuture
  | enqueue (item : QueueItem DispatchCall)
  | retryAfter (tier : Tier)
  /-- The future of an item is awaited. -/
  | await (item : QueueItem DispatchCall)
  /-- `dispatch_request` is called past the queue. -/
  | dispatch (call : DispatchCall)
  | count (stat : ClientStat) (clientId : String)

/-- What the operations are answered with. -/
@[reducible] def Op.Answer : Op → Type
  | .sharedState | .shuttingDown => Bool
  | .failures _ => List ℚ × ℚ
  -- an error if the backend raises an exception
  | .cacheGet _ _ => Except Unit (Option Bytes)
  | .cacheSet _ _ => Except Unit Unit
  | .monotonic => ℚ
  | .createFuture => ℕ
  | .enqueue _ => Except EnqueueError ℕ
  | .retryAfter _ => ℤ
  | .await _ => Except (FutureException Unit) Response
  -- `none` if an exception is raised
  | .dispatch _ => Option Response
  | .setFailures _ _ | .recordFailure _ | .clearFailures _ | .count _ _ => Unit

/-- The answers to all operations. -/
inductive Reply where
  | flag (b : Bool)
  | failures (times : List ℚ) (now : ℚ)
  | bytes (b : Except Unit (Option Bytes))
  | stored (r : Except Unit Unit)
  | time (now : ℚ)
  | future (k : ℕ)
  | position (r : Except EnqueueError ℕ)
  | seconds (n : ℤ)
  | result (r : Except (FutureException Unit) Response)
  | response (r : Option Response)
  | done

/-- The reply as an answer to the operation, if it is one. -/
def Op.read? : (op : Op) → Reply → Option op.Answer
  | .sharedState, .flag b | .shuttingDown, .flag b => some b
  | .failures _, .failures times now => some (times, now)
  | .cacheGet _ _, .bytes b => some b
  | .cacheSet _ _, .stored r => some r
  | .monotonic, .time now => some now
  | .createFuture, .future k => some k
  | .enqueue _, .position r => some r
  | .retryAfter _, .seconds n => some n
  | .await _, .result r => some r
  | .dispatch _, .response r => some r
  | .setFailures _ _, .done | .recordFailure _, .done | .clearFailures _, .done
  | .count _ _, .done => some ()
  | _, _ => none

/-- The programs of the handlers. -/
abbrev Handler (α : Type) : Type := Program Op Op.Answer α

/-- The operation is called. -/
abbrev ask (op : Op) : Handler op.Answer := Program.perform op

/-- How a handler ends. -/
inductive Outcome where
  | response (r : Response)
  /-- An exception leaves the handler. -/
  | raised

/-- The operation gives access to the upstream hosts or to cached embeddings: the client in
whose name it does, and the tier of the item if it is queued. -/
def Op.access? : Op → Option (Option String × Option Tier)
  | .cacheGet _ clientId => some (clientId, none)
  | .enqueue item => some (item.dispatchFn.clientId, some item.tier)
  | .dispatch call => some (call.clientId, none)
  | _ => none

/-- The operation is one on the failures of an address. -/
def Op.ofAuth : Op → Bool
  | .failures _ | .setFailures _ _ | .recordFailure _ | .clearFailures _ => true
  | _ => false

end OllamaQueueProxy
