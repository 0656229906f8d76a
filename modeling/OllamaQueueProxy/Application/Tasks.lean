import OllamaQueueProxy.Handler.Failures
import OllamaQueueProxy.Library.EventLoop
import OllamaQueueProxy.Queue.Shutdown
import OllamaQueueProxy.Routes.Queue

/-!
# The application

The tasks of the application on its event loop: a task for every request that reaches the
catch-all route of a port, a route of the queue or one that shows something, which runs the
program of its handler, and from outside the workers, the clock and the shutdown.  The operations
act on the state that `lifespan` sets up.  The requests that are answered without an operation
(`/health`, the documentation, a dashboard that is disabled) have no task.

A handler is suspended by the cache, by the future it awaits, by a dispatch past the queue and
by `drain`, and before it reads the clock, since it received the body before.  The other
operations have no point at which another task could run: the locks are held only between two
such points, and `put` is called on queues that are not full.
-/

open Program (Event)
open Json (Text)

namespace OllamaQueueProxy

/-- What `client_stats` counts for a client. -/
structure ClientStats where
  processed : ℕ
  rejected : ℕ

namespace ClientStats

def initial : ClientStats := ⟨0, 0⟩

def add (s : ClientStats) : ClientStat → ClientStats
  | .processed => { s with processed := s.processed + 1 }
  | .rejected => { s with rejected := s.rejected + 1 }

end ClientStats

/-- The state of the application, with `n` workers. -/
structure Application (n : ℕ) where
  queueManager : PriorityQueueManager DispatchCall Response Unit n
  phase : ShutdownPhase
  /-- `_shared_state is not None`. -/
  sharedState : Bool
  /-- `_failures` of the `AuthManager`. -/
  failures : FailureTable
  clientStats : Dict String ClientStats
  clock : ℚ
  /-- The items whose dispatch has ended, and how; no operation reads it. -/
  ended : List (QueueItem DispatchCall × Except Unit Response)

/-- What happens to the application apart from its handlers. -/
inductive Occurrence (n : ℕ) where
  /-- A worker that is ready performs a turn of its loop. -/
  | work (w : Fin n)
  /-- The dispatch a worker awaits ends. -/
  | finish (w : Fin n) (outcome : Except Unit Response)
  | tick (now : ℚ)
  | shutdown
  /-- `drain` returns, or it is timed out. -/
  | drain (inTime : Bool)
  | stopWorkers
  | stopped
  /-- `set_shared_state(None)`. -/
  | unshare

namespace Application

variable {n : ℕ}

/-- The state after `lifespan` has set it up. -/
def initial (cfg : AuthConfig) (n : ℕ) (clock : ℚ) : Application n where
  queueManager := .initial DispatchCall Response Unit n
  phase := .serving
  sharedState := true
  failures _ := []
  clientStats := Dict.ofList (cfg.keys.map fun k => (k.clientId, .initial))
  clock := clock
  ended := []

@[simps -fullyApplied]
def setQueueManager (x : Application n) (s : PriorityQueueManager DispatchCall Response Unit n) :
    Application n :=
  { x with queueManager := s }

/-- The statistic of a client is counted. -/
def count (x : Application n) (stat : ClientStat) (clientId : String) : Application n :=
  { x with
    clientStats := Dict.set x.clientStats clientId
      (((Dict.get? x.clientStats clientId).getD .initial).add stat) }

/-- What the operation of a handler does at once; `none` if it suspends the handler. -/
def actHandler (queue : QueueConfig) :
    (op : Op) → Application n → Option (op.Answer × Application n)
  | .sharedState, x => some (x.sharedState, x)
  | .shuttingDown, x => some (x.phase != .serving, x)
  | .failures ip, x => some ((x.failures ip, x.clock), x)
  | .setFailures ip recent, x =>
      some ((), { x with failures := Function.update x.failures ip recent })
  | .recordFailure ip, x =>
      some ((), { x with failures := Function.update x.failures ip (x.failures ip ++ [x.clock]) })
  | .clearFailures ip, x => some ((), { x with failures := Function.update x.failures ip [] })
  | .createFuture, x =>
      some (x.queueManager.created, x.setQueueManager x.queueManager.createFuture)
  | .enqueue item, x =>
      some ((x.queueManager.enqueue queue item).2,
        x.setQueueManager (x.queueManager.enqueue queue item).1)
  | .retryAfter tier, x => some (x.queueManager.retryAfter tier, x)
  | .count stat clientId, x => some ((), x.count stat clientId)
  | .cacheGet _ _, _ | .cacheSet _ _, _ | .monotonic, _ | .await _, _ | .dispatch _, _ => none

/-- What the operation of a route does at once; `none` if it suspends the task. -/
def act (queue : QueueConfig) :
    (op : RouteOp) → Application n → Option (op.Answer × Application n)
  | .handler op, x => actHandler queue op x
  | .pause tier, x => some ((), x.setQueueManager (x.queueManager.pause tier))
  | .resume tier, x => some ((), x.setQueueManager (x.queueManager.resume tier))
  | .drain, x => if x.queueManager.allEmpty then some ((), x) else none
  | .flush tier, x =>
      some ((x.queueManager.flush tier).2, x.setQueueManager (x.queueManager.flush tier).1)

/-- What a handler that awaits the future goes on with; `none` if it is not woken. -/
def awaited? : Future Response Unit → Option (Except (FutureException Unit) Response)
  | .result r => some (.ok r)
  | .exception e => some (.error e)
  | .pending | .cancelled => none

/-- What a handler goes on with that the operation has suspended. -/
def wakeHandler : (op : Op) → Reply → Application n → Option (op.Answer × Application n)
  | .cacheGet key clientId, reply, x => ((Op.cacheGet key clientId).read? reply).map (·, x)
  | .cacheSet key value, reply, x => ((Op.cacheSet key value).read? reply).map (·, x)
  | .monotonic, _, x => some (x.clock, x)
  | .await item, _, x => (awaited? (x.queueManager.futures item.future)).map (·, x)
  | .dispatch call, reply, x => ((Op.dispatch call).read? reply).map (·, x)
  | _, _, _ => none

/-- What a task goes on with that the operation has suspended. -/
def wake : (op : RouteOp) → Reply → Application n → Option (op.Answer × Application n)
  | .handler op, reply, x => wakeHandler op reply x
  | .drain, _, x => if x.queueManager.allEmpty then some ((), x) else none
  | .pause _, _, _ | .resume _, _, _ | .flush _, _, _ => none

/-- A task is cancelled that the operation has suspended: the future that it awaits is
cancelled. -/
def abandon : RouteOp → Application n → Application n
  | .handler (.await item), x => x.setQueueManager (x.queueManager.setFuture item.future
      (x.queueManager.futures item.future).cancel)
  | _, x => x

/-- The state after an occurrence; `none` if it is not possible. -/
def outside (queue : QueueConfig) : Occurrence n → Application n → Option (Application n)
  | .work w, x => (x.queueManager.step queue (.work w x.clock)).map x.setQueueManager
  | .finish w outcome, x => match x.queueManager.workers w with
      | .executing item =>
          some { x.setQueueManager (x.queueManager.finish w item x.clock outcome) with
            ended := x.ended ++ [(item, outcome)] }
      | _ => none
  | .tick now, x => if x.clock ≤ now then some { x with clock := now } else none
  | .shutdown, x => if x.phase = .serving then some { x with phase := .draining } else none
  | .drain inTime, x =>
      if x.phase = .draining ∧ (inTime = true → x.queueManager.allEmpty = true) then
        some { x with phase := .drained inTime }
      else none
  | .stopWorkers, x => match x.phase with
      | .drained inTime => some { x.setQueueManager x.queueManager.stopWorkers with
          phase := .stopping inTime }
      | _ => none
  | .stopped, x => match x.phase with
      | .stopping inTime => some { x with phase := .stopped inTime }
      | _ => none
  | .unshare, x => match x.phase with
      | .stopped _ => some { x with sharedState := false }
      | _ => none

end Application

/-! ### What the operations do to the queue -/

section

variable {n : ℕ} {queue : QueueConfig} {x x' : Application n}

/-- The queue after an operation of a task. -/
def queueAfter (queue : QueueConfig) (s : PriorityQueueManager DispatchCall Response Unit n) :
    RouteOp → PriorityQueueManager DispatchCall Response Unit n
  | .handler .createFuture => s.createFuture
  | .handler (.enqueue item) => (s.enqueue queue item).1
  | .pause tier => s.pause tier
  | .resume tier => s.resume tier
  | .flush tier => (s.flush tier).1
  | _ => s

/-- What a task does at once concerns the queue only by the operations on it, and neither the
shutdown nor the dispatches. -/
theorem act_queueManager {op : RouteOp} {r : op.Answer}
    (hact : Application.act queue op x = some (r, x')) :
  x'.queueManager = queueAfter queue x.queueManager op ∧ x'.phase = x.phase ∧ x'.ended = x.ended
  := by
  cases op with
  | handler op =>
      cases op with
      | cacheGet | cacheSet | monotonic | await | dispatch => cases hact
      | _ =>
          obtain ⟨-, rfl⟩ := Prod.mk.inj (Option.some.inj hact)
          exact ⟨rfl, rfl, rfl⟩
  | pause | resume | flush =>
      obtain ⟨-, rfl⟩ := Prod.mk.inj (Option.some.inj hact)
      exact ⟨rfl, rfl, rfl⟩
  | drain =>
      simp only [Application.act] at hact
      split_ifs at hact
      obtain ⟨-, rfl⟩ := Prod.mk.inj (Option.some.inj hact)
      exact ⟨rfl, rfl, rfl⟩

/-- A task goes on in the state it is woken in. -/
theorem wake_shared {op : RouteOp} {reply : Reply} {r : op.Answer}
    (hwake : Application.wake op reply x = some (r, x')) :
  x' = x
  := by
  cases op with
  | handler op =>
      cases op with
      | cacheGet | cacheSet | await | dispatch =>
          obtain ⟨answer, -, heq⟩ := Option.map_eq_some_iff.mp hwake
          exact (Prod.mk.inj heq).2.symm
      | monotonic => exact (Prod.mk.inj (Option.some.inj hwake)).2.symm
      | _ => cases hwake
  | drain =>
      simp only [Application.wake] at hwake
      split_ifs at hwake
      exact (Prod.mk.inj (Option.some.inj hwake)).2.symm
  | pause | resume | flush => cases hwake

/-- The operations that suspend a task do nothing to the queue. -/
theorem queueAfter_of_wake {op : RouteOp} {reply : Reply} {r : op.Answer}
    (hwake : Application.wake op reply x = some (r, x'))
    (s : PriorityQueueManager DispatchCall Response Unit n) :
  queueAfter queue s op = s
  := by
  cases op with
  | handler op =>
      cases op with
      | createFuture | enqueue => cases hwake
      | _ => rfl
  | drain => rfl
  | pause | resume | flush => cases hwake

/-- The occurrence is a step of a worker. -/
def Occurrence.ofWorker : Occurrence n → Bool
  | .work _ | .finish _ _ => true
  | _ => false

/-- What happens from outside to the queue and to the dispatches. -/
inductive QueueChange (queue : QueueConfig) (x x' : Application n) : Occurrence n → Prop where
  | same {e : Occurrence n} (he : e.ofWorker = false)
      (hmanager : x'.queueManager = x.queueManager) (hended : x'.ended = x.ended) :
      QueueChange queue x x' e
  | work {w : Fin n}
      (hstep : PriorityQueueManager.Step queue x.queueManager (.work w x.clock) x'.queueManager)
      (hended : x'.ended = x.ended) : QueueChange queue x x' (.work w)
  | finish {w : Fin n} {item : QueueItem DispatchCall} {outcome : Except Unit Response}
      (hexecuting : x.queueManager.workers w = .executing item)
      (hstep : PriorityQueueManager.Step queue x.queueManager (.finish w x.clock outcome)
        x'.queueManager)
      (hended : x'.ended = x.ended ++ [(item, outcome)]) :
      QueueChange queue x x' (.finish w outcome)
  | stopWorkers (hmanager : x'.queueManager = x.queueManager.stopWorkers)
      (hended : x'.ended = x.ended) : QueueChange queue x x' .stopWorkers

theorem outside_queueChange {e : Occurrence n}
    (houtside : Application.outside queue e x = some x') :
  QueueChange queue x x' e
  := by
  cases e with
  | work w =>
      obtain ⟨m, hstep, rfl⟩ := Option.map_eq_some_iff.mp houtside
      exact .work hstep rfl
  | finish w outcome =>
      simp only [Application.outside] at houtside
      split at houtside
      · rename_i item hexecuting
        obtain rfl := Option.some.inj houtside
        refine .finish hexecuting ?_ rfl
        rw [PriorityQueueManager.Step, Transition.ofStep, PriorityQueueManager.step, hexecuting]
        rfl
      · cases houtside
  | tick now | shutdown | drain inTime =>
      simp only [Application.outside] at houtside
      split_ifs at houtside
      obtain rfl := Option.some.inj houtside
      exact .same rfl rfl rfl
  | stopWorkers =>
      simp only [Application.outside] at houtside
      split at houtside
      · obtain rfl := Option.some.inj houtside
        exact .stopWorkers rfl rfl
      · cases houtside
  | stopped | unshare =>
      simp only [Application.outside] at houtside
      split at houtside
      · obtain rfl := Option.some.inj houtside
        exact .same rfl rfl rfl
      · cases houtside

end

/-- Nothing that happens from outside counts for a client. -/
theorem outside_clientStats {e : Occurrence n}
    (houtside : Application.outside queue e x = some x') :
  x'.clientStats = x.clientStats
  := by
  cases e with
  | work w =>
      obtain ⟨m, -, rfl⟩ := Option.map_eq_some_iff.mp houtside
      rfl
  | _ =>
      simp only [Application.outside] at houtside
      split at houtside
      · obtain rfl := Option.some.inj houtside
        rfl
      · cases houtside

/-! ### The tasks -/

/-- What a task of the application is for. -/
inductive Purpose (cfg : Config) where
  /-- A request that reaches the catch-all route of a port that is served. -/
  | request (port : { port : Port // port ∈ cfg.ports }) (r : Request)
      (hcatches : port.1.catches r = true)
  | manage (route : QueueRoute) (r : Request) (hanswers : route.fixedRoute.answers r = true)
  /-- A request that is shown something, whatever it is. -/
  | inspect (r : Request) (shown : Outcome)
      (hanswers : inspectionRoutes.any (·.answers r) = true)

variable (digest : Text → Text) (unicode : Unicode) (cfg : Config) (queue : QueueConfig)

/-- The program that a task runs. -/
def Purpose.program : Purpose cfg → Route Outcome
  | .request port r _ => ofHandler (handle digest cfg port r)
  | .manage route r _ => route.handle unicode cfg.auth r
  | .inspect r shown _ => ofHandler (inspection cfg.auth r shown)

/-- The event loop of the application. -/
def eventLoop (n : ℕ) : EventLoop.Loop (Purpose cfg) RouteOp RouteOp.Answer Outcome (Application n)
    Reply (Occurrence n) where
  program := Purpose.program digest unicode cfg
  act := Application.act queue
  wake := Application.wake
  abandon := Application.abandon
  outside := Application.outside queue

/-- The states of the application: its tasks, and the state that they share. -/
abbrev Running (cfg : Config) (n : ℕ) : Type :=
  EventLoop.State (Purpose cfg) RouteOp.Answer Outcome (Application n)

/-- The application after its start. -/
abbrev Running.initial (n : ℕ) (clock : ℚ) : Running cfg n :=
  EventLoop.State.initial (Application.initial cfg.auth n clock)

/-- Some run of the application leads to the state. -/
abbrev Running.Reached {n : ℕ} (clock : ℚ) (s : Running cfg n) : Prop :=
  Transition.Reachable (eventLoop digest unicode cfg queue n).Step (Running.initial cfg n clock) s

section

variable {digest unicode cfg queue} {n : ℕ} {x x' : Application n}

/-- An operation of a task concerns the queue as it says, and neither the shutdown nor the
dispatches. -/
theorem answered_queueManager {op : RouteOp} {r : op.Answer}
    (h : EventLoop.Loop.Answered (eventLoop digest unicode cfg queue n) op x r x') :
  x'.queueManager = queueAfter queue x.queueManager op ∧ x'.phase = x.phase ∧ x'.ended = x.ended
  := by
  cases h with
  | act hact => exact act_queueManager hact
  | wake reply hwake =>
      rw [queueAfter_of_wake hwake]
      obtain rfl := wake_shared hwake
      exact ⟨rfl, rfl, rfl⟩

end

end OllamaQueueProxy
