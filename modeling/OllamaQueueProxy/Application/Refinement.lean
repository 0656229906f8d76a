import OllamaQueueProxy.Application.Submission
import OllamaQueueProxy.Queue.Resolution

/-!
# The application refines its lifespan

Whatever the tasks of the application do, and in whatever order, its queue and its shutdown go
through a run of the lifespan model, in which a handler that found `shutting_down` unset may
enqueue one item, and every item is enqueued together with its future (`reachable_lifespan`).
What holds of all runs of that model, and of the queue, therefore holds of the application.
-/

open Program (Event Sat Calls)
open Transition
open Json (Text)

namespace OllamaQueueProxy

/-! ### The order of operations in a task -/

/-- The operation may be called after the history of a task. -/
def RouteInOrder (h : List (Event RouteOp.Answer)) : RouteOp → Prop
  | .handler op => InOrder (handlerEvents h) op
  | _ => Settled (handlerEvents h)

theorem handlerEvents_append (h : List (Event RouteOp.Answer)) (op : Op) (r : op.Answer) :
  handlerEvents (h ++ [⟨.handler op, r⟩]) = handlerEvents h ++ [⟨op, r⟩]
  := List.filterMap_append

/-- What the routes of the queue do is none of the events of a handler. -/
theorem handlerEvents_append_of_isRoute {op : RouteOp} (hop : op.isRoute = true)
    (h : List (Event RouteOp.Answer)) (r : op.Answer) :
  handlerEvents (h ++ [⟨op, r⟩]) = handlerEvents h
  := by
  rw [handlerEvents, List.filterMap_append]
  cases op with
  | handler => cases hop
  | pause | resume | drain | flush => exact List.append_nil _

/-- The operation is none by which items are submitted. -/
def RouteOp.Quiet : RouteOp → Prop
  | .handler op => op.Quiet
  | _ => True

theorem Settled.route {op : RouteOp} {h : List (Event RouteOp.Answer)} {r : op.Answer}
    (hs : Settled (handlerEvents h)) (hop : op.Quiet) :
  Settled (handlerEvents (h ++ [⟨op, r⟩]))
  := by
  cases op with
  | handler op =>
      rw [handlerEvents_append]
      exact hs.quiet hop
  | pause | resume | drain | flush =>
      rw [handlerEvents_append_of_isRoute rfl]
      exact hs

theorem Settled.routeInOrder {op : RouteOp} {h : List (Event RouteOp.Answer)}
    (hs : Settled (handlerEvents h)) (hop : op.Quiet) :
  RouteInOrder h op
  := by
  cases op with
  | handler op => exact hs.inOrder hop
  | pause | resume | drain | flush => exact hs

/-- The routes of the queue submit nothing. -/
theorem QueueRoute.quiet (route : QueueRoute) (unicode : Unicode) (cfg : AuthConfig)
    (r : Request) :
  Calls RouteOp.Quiet (route.handle unicode cfg r)
  := by
  apply route.calls.mono
  rintro op (⟨o, rfl, ho⟩ | hop)
  · exact quiet_of_ofAuth ho
  · cases op with
    | handler => cases hop
    | pause | resume | drain | flush => trivial

variable {digest : Text → Text} {unicode : Unicode} {cfg : Config} {queue : QueueConfig}

theorem Purpose.inOrder (purpose : Purpose cfg) :
  Sat anyRouteAnswer RouteInOrder (fun h _ => Settled (handlerEvents h)) []
    (purpose.program digest unicode cfg)
  := by
  cases purpose with
  | request port r _ =>
      apply (ofHandler_sat (handle_inOrder cfg port r)).mono
      · rintro h op ⟨o, rfl, ho⟩
        exact ho
      · exact id
  | manage route r _ =>
      exact (route.quiet unicode cfg.auth r).sat_of_stable settled_nil Settled.routeInOrder
        Settled.route
  | inspect r shown _ =>
      have hquiet : Calls Op.Quiet (inspection cfg.auth r shown) :=
        (inspection_calls cfg.auth r shown).mono fun _ => quiet_of_ofAuth
      apply (ofHandler_sat (settled_nil.sat hquiet)).mono
      · rintro h op ⟨o, rfl, ho⟩
        exact ho
      · exact id

/-! ### The lifespan of a state -/

variable {n : ℕ}

/-- How many items a task may still enqueue after its history. -/
def openPasses (h : List (Event RouteOp.Answer)) : ℕ :=
  passes (handlerEvents h) - enqueues (handlerEvents h)

/-- The state of the application is the one of the lifespan, in which a future is created when
its item is enqueued; `pending` is the future that was created in between. -/
structure Matches (pending : Option ℕ) (passed : ℕ) (x : Application n)
    (l : Lifespan DispatchCall Response Unit n) : Prop where
  manager : match pending with
    | none => x.queueManager = l.manager
    | some k => k = l.manager.created ∧ x.queueManager = l.manager.createFuture
  phase : l.phase = x.phase
  passed : l.passed = passed

section

variable {c : ℕ} {x x' : Application n} {l : Lifespan DispatchCall Response Unit n}
  {h : List (Event RouteOp.Answer)}

theorem Matches.settled {pending : Option ℕ} (hm : Matches pending c x l)
    (hpending : pending = none) :
  x.queueManager = l.manager
  := by
  subst hpending
  exact hm.manager

/-- An operation by which nothing is submitted, and that does not change the queue. -/
theorem Matches.quiet {op : Op} {r : op.Answer}
    (hm : Matches (created? (handlerEvents h)) (c + openPasses h) x l)
    (hs : Settled (handlerEvents h)) (hop : op.Quiet)
    (hmanager : x'.queueManager = x.queueManager) (hphase : x'.phase = x.phase) :
  Matches (created? (handlerEvents (h ++ [⟨.handler op, r⟩])))
    (c + openPasses (h ++ [⟨.handler op, r⟩])) x' l
  := by
  obtain ⟨hcreated, hpasses, henqueues⟩ := quiet_append hop (handlerEvents h) r
  rw [openPasses, handlerEvents_append, hcreated, hpasses, henqueues]
  exact ⟨hmanager.trans (hm.settled hs.created), hm.phase.trans hphase.symm, hm.passed⟩

/-- An action on the queue other than `enqueue` is one of the lifespan. -/
theorem step_queue {a : Action DispatchCall Response Unit n}
    {m : PriorityQueueManager DispatchCall Response Unit n} (ha : ∀ request, a ≠ .enqueue request)
    (hstep : l.manager.step queue a = some m) :
  Lifespan.Step queue l (.queue a) { l with manager := m }
  := by
  cases a with
  | enqueue request => cases ha request rfl
  | work | finish | flush | pause | resume | cancel =>
      simp only [Lifespan.Step, ofStep, Lifespan.step, hstep]
      rfl

/-- An action on the queue other than `enqueue`, while nothing is being submitted. -/
theorem Matches.action {a : Action DispatchCall Response Unit n}
    {m : PriorityQueueManager DispatchCall Response Unit n} (hm : Matches none c x l)
    (ha : ∀ request, a ≠ .enqueue request) (hstep : x.queueManager.step queue a = some m) :
  ∃ l', Reachable (Lifespan.Step queue) l l' ∧ Matches none c (x.setQueueManager m) l'
  := by
  rw [hm.manager] at hstep
  exact ⟨_, (Reachable.refl l).step (step_queue ha hstep), rfl, hm.phase, hm.passed⟩

/-- An operation of a route of the queue. -/
theorem Matches.route {op : RouteOp} {r : op.Answer} (hs : Settled (handlerEvents h))
    (hop : op.isRoute = true)
    (hm : Matches none (c + openPasses h) x l) :
  Matches (created? (handlerEvents (h ++ [⟨op, r⟩]))) (c + openPasses (h ++ [⟨op, r⟩])) x l
  := by
  rw [openPasses, handlerEvents_append_of_isRoute hop, hs.created]
  exact hm

/-- A handler finds `shutting_down` unset. -/
theorem Matches.pass (hm : Matches (created? (handlerEvents h)) (c + openPasses h) x l)
    (hs : Settled (handlerEvents h)) (hphase : x.phase = .serving) :
  ∃ l', Reachable (Lifespan.Step queue) l l'
    ∧ Matches (created? (handlerEvents (h ++ [⟨.handler .shuttingDown, false⟩])))
      (c + openPasses (h ++ [⟨.handler .shuttingDown, false⟩])) x l'
  := by
  have hstep : Lifespan.Step queue l .pass { l with passed := l.passed + 1 } := by
    simp only [Lifespan.Step, ofStep, Lifespan.step, hm.phase, hphase, if_true]
  refine ⟨_, (Reachable.refl l).step hstep, ?_⟩
  rw [openPasses, handlerEvents_append, created?_append, passes_append, enqueues_append]
  refine ⟨hm.settled hs.created, hm.phase, ?_⟩
  change l.passed + 1 = c + (passes (handlerEvents h) + 1 - enqueues (handlerEvents h))
  rw [hm.passed, openPasses, Nat.sub_add_comm hs.enqueues]
  rfl

/-- A handler finds `shutting_down` set. -/
theorem Matches.turnedAway (hm : Matches (created? (handlerEvents h)) (c + openPasses h) x l)
    (hs : Settled (handlerEvents h)) :
  Matches (created? (handlerEvents (h ++ [⟨.handler .shuttingDown, true⟩])))
    (c + openPasses (h ++ [⟨.handler .shuttingDown, true⟩])) x l
  := by
  rw [openPasses, handlerEvents_append, created?_append, passes_append, enqueues_append]
  exact ⟨hm.settled hs.created, hm.phase, hm.passed⟩

/-- A handler creates a future. -/
theorem Matches.create (hm : Matches (created? (handlerEvents h)) (c + openPasses h) x l)
    (hs : Settled (handlerEvents h)) :
  Matches (created? (handlerEvents (h ++ [⟨.handler .createFuture, x.queueManager.created⟩])))
    (c + openPasses (h ++ [⟨.handler .createFuture, x.queueManager.created⟩]))
    (x.setQueueManager x.queueManager.createFuture) l
  := by
  have hmanager := hm.settled hs.created
  rw [openPasses, handlerEvents_append, created?_append, passes_append, enqueues_append]
  refine ⟨⟨congrArg _ hmanager, ?_⟩, hm.phase, hm.passed⟩
  exact congrArg PriorityQueueManager.createFuture hmanager

/-- A handler enqueues the item whose future it has just created. -/
theorem Matches.enqueue {item : QueueItem DispatchCall}
    (hm : Matches (created? (handlerEvents h)) (c + openPasses h) x l)
    (horder : InOrder (handlerEvents h) (.enqueue item)) :
  ∃ l', Reachable (Lifespan.Step queue) l l'
    ∧ Matches
      (created? (handlerEvents (h ++ [⟨.handler (.enqueue item),
        (x.queueManager.enqueue queue item).2⟩])))
      (c + openPasses (h ++ [⟨.handler (.enqueue item), (x.queueManager.enqueue queue item).2⟩]))
      (x.setQueueManager (x.queueManager.enqueue queue item).1) l'
  := by
  obtain ⟨hcreated, hposition, henqueues⟩ := horder
  obtain ⟨hmanager, hphase, hpassed⟩ := hm
  rw [hcreated] at hmanager
  obtain ⟨hfuture, hmanager⟩ := hmanager
  let request : Submission DispatchCall :=
    ⟨item.tier, item.enqueueTime, item.requestId, item.dispatchFn, item.nbytes⟩
  have hitem : request.item l.manager.created = item := by
    rw [← hfuture]
    cases item
    rw [Submission.item]
    congr 1
    exact hposition.symm
  have hpositive : 0 < l.passed := by
    rw [hpassed, openPasses]
    omega
  have hstep : Lifespan.Step queue l (.enqueue request) { l with
      manager := (x.queueManager.enqueue queue item).1
      passed := l.passed - 1 } := by
    simp only [Lifespan.Step, ofStep, Lifespan.step, if_pos hpositive,
      PriorityQueueManager.step, hitem, ← hmanager]
    rfl
  refine ⟨_, (Reachable.refl l).step hstep, ?_⟩
  rw [openPasses, handlerEvents_append, created?_append, passes_append, enqueues_append]
  refine ⟨rfl, hphase, ?_⟩
  change l.passed - 1 = c + (passes (handlerEvents h) - (enqueues (handlerEvents h) + 1))
  rw [hpassed, openPasses]
  omega

/-- Operations by which nothing is submitted leave the queue and the shutdown alone. -/
theorem actHandler_quiet {op : Op} {r : op.Answer} (hop : op.Quiet)
    (hact : Application.actHandler queue op x = some (r, x')) :
  x'.queueManager = x.queueManager ∧ x'.phase = x.phase
  := by
  cases op with
  | shuttingDown | createFuture | enqueue | await => cases hop
  | cacheGet | cacheSet | monotonic | dispatch => cases hact
  | sharedState | failures | setFailures | recordFailure | clearFailures | retryAfter | count =>
      obtain ⟨-, rfl⟩ := Prod.mk.inj (Option.some.inj hact)
      exact ⟨rfl, rfl⟩

/-- What a task does at once is matched by the lifespan. -/
theorem Matches.act {op : RouteOp} {r : op.Answer}
    (hm : Matches (created? (handlerEvents h)) (c + openPasses h) x l)
    (horder : RouteInOrder h op) (hact : Application.act queue op x = some (r, x')) :
  ∃ l', Reachable (Lifespan.Step queue) l l'
    ∧ Matches (created? (handlerEvents (h ++ [⟨op, r⟩]))) (c + openPasses (h ++ [⟨op, r⟩])) x' l'
  := by
  have hquiet {op : Op} {r : op.Answer} (hop : op.Quiet) (hs : Settled (handlerEvents h))
      (hact : Application.actHandler queue op x = some (r, x')) :
      ∃ l', Reachable (Lifespan.Step queue) l l'
        ∧ Matches (created? (handlerEvents (h ++ [⟨.handler op, r⟩])))
          (c + openPasses (h ++ [⟨.handler op, r⟩])) x' l' := by
    obtain ⟨hmanager, hphase⟩ := actHandler_quiet hop hact
    exact ⟨l, .refl l, hm.quiet hs hop hmanager hphase⟩
  have hroute {op : RouteOp} {r : op.Answer} {a : Action DispatchCall Response Unit n}
      {m : PriorityQueueManager DispatchCall Response Unit n} (hs : Settled (handlerEvents h))
      (hop : op.isRoute = true) (ha : ∀ request, a ≠ .enqueue request)
      (hstep : x.queueManager.step queue a = some m) :
      ∃ l', Reachable (Lifespan.Step queue) l l'
        ∧ Matches (created? (handlerEvents (h ++ [⟨op, r⟩])))
          (c + openPasses (h ++ [⟨op, r⟩])) (x.setQueueManager m) l' := by
    obtain ⟨l', hreach, hm'⟩ := (hs.created ▸ hm).action ha hstep
    exact ⟨l', hreach, hm'.route hs hop⟩
  cases op with
  | handler op =>
      cases op with
      | shuttingDown =>
          obtain ⟨rfl, rfl⟩ := Prod.mk.inj (Option.some.inj hact)
          by_cases hphase : x.phase = .serving
          · rw [hphase]
            exact hm.pass horder hphase
          · rw [show (x.phase != .serving) = true by simpa using hphase]
            exact ⟨l, .refl l, hm.turnedAway horder⟩
      | createFuture =>
          obtain ⟨rfl, rfl⟩ := Prod.mk.inj (Option.some.inj hact)
          exact ⟨l, .refl l, hm.create horder⟩
      | enqueue item =>
          obtain ⟨rfl, rfl⟩ := Prod.mk.inj (Option.some.inj hact)
          exact hm.enqueue horder
      | await => cases hact
      | _ => exact hquiet trivial horder hact
  | pause tier =>
      obtain ⟨rfl, rfl⟩ := Prod.mk.inj (Option.some.inj hact)
      exact hroute (a := .pause tier) horder rfl (by simp) rfl
  | resume tier =>
      obtain ⟨rfl, rfl⟩ := Prod.mk.inj (Option.some.inj hact)
      exact hroute (a := .resume tier) horder rfl (by simp) rfl
  | flush tier =>
      obtain ⟨rfl, rfl⟩ := Prod.mk.inj (Option.some.inj hact)
      exact hroute (a := .flush tier) horder rfl (by simp) rfl
  | drain =>
      simp only [Application.act] at hact
      split_ifs at hact
      obtain ⟨rfl, rfl⟩ := Prod.mk.inj (Option.some.inj hact)
      exact ⟨l, .refl l, Matches.route horder rfl (horder.created ▸ hm)⟩

/-- What a task goes on with changes nothing for the lifespan. -/
theorem Matches.wake {op : RouteOp} {reply : Reply} {r : op.Answer}
    (hm : Matches (created? (handlerEvents h)) (c + openPasses h) x l)
    (horder : RouteInOrder h op) (hwake : Application.wake op reply x = some (r, x')) :
  Matches (created? (handlerEvents (h ++ [⟨op, r⟩]))) (c + openPasses (h ++ [⟨op, r⟩])) x' l
  := by
  obtain rfl := wake_shared hwake
  cases op with
  | handler op =>
      cases op with
      | await item =>
          rw [openPasses, handlerEvents_append, created?_append, passes_append, enqueues_append]
          exact ⟨hm.settled horder.1.created, hm.phase, hm.passed⟩
      | shuttingDown | createFuture | enqueue => cases hwake
      | _ => exact hm.quiet horder trivial rfl rfl
  | drain => exact Matches.route horder rfl (horder.created ▸ hm)
  | pause | resume | flush => cases hwake

/-- What happens from outside is matched by the lifespan. -/
theorem Matches.outside {e : Occurrence n} (hm : Matches none c x l)
    (houtside : Application.outside queue e x = some x') :
  ∃ l', Reachable (Lifespan.Step queue) l l' ∧ Matches none c x' l'
  := by
  cases e with
  | work w =>
      obtain ⟨m, hstep, rfl⟩ := Option.map_eq_some_iff.mp houtside
      exact hm.action (a := .work w x.clock) (by simp) hstep
  | finish w outcome =>
      simp only [Application.outside] at houtside
      split at houtside
      · rename_i item hexecuting
        obtain rfl := Option.some.inj houtside
        have hstep : x.queueManager.step queue (.finish w x.clock outcome)
            = some (x.queueManager.finish w item x.clock outcome) := by
          rw [PriorityQueueManager.step, hexecuting]
        obtain ⟨l', hreach, hm'⟩ := hm.action (a := .finish w x.clock outcome)
          (by simp) hstep
        exact ⟨l', hreach, hm'.manager, hm'.phase, hm'.passed⟩
      · cases houtside
  | tick now =>
      simp only [Application.outside] at houtside
      split_ifs at houtside
      obtain rfl := Option.some.inj houtside
      exact ⟨l, .refl l, hm.manager, hm.phase, hm.passed⟩
  | shutdown =>
      simp only [Application.outside] at houtside
      split_ifs at houtside with hphase
      obtain rfl := Option.some.inj houtside
      have hstep : Lifespan.Step queue l .shutdown { l with phase := .draining } := by
        simp only [Lifespan.Step, ofStep, Lifespan.step, hm.phase, hphase, if_true]
      exact ⟨_, (Reachable.refl l).step hstep, hm.manager, rfl, hm.passed⟩
  | drain inTime =>
      simp only [Application.outside] at houtside
      split_ifs at houtside with hphase
      obtain rfl := Option.some.inj houtside
      have hstep : Lifespan.Step queue l (.drain inTime) { l with phase := .drained inTime } := by
        rw [hm.manager] at hphase
        simp only [Lifespan.Step, ofStep, Lifespan.step, hm.phase, if_pos hphase]
      exact ⟨_, (Reachable.refl l).step hstep, hm.manager, rfl, hm.passed⟩
  | stopWorkers =>
      simp only [Application.outside] at houtside
      split at houtside
      · rename_i inTime hphase
        obtain rfl := Option.some.inj houtside
        have hstep : Lifespan.Step queue l .stopWorkers { l with
            manager := l.manager.stopWorkers
            phase := .stopping inTime } := by
          simp only [Lifespan.Step, ofStep, Lifespan.step, hm.phase, hphase]
        have hmanager := congrArg PriorityQueueManager.stopWorkers hm.manager
        exact ⟨_, (Reachable.refl l).step hstep, hmanager, rfl, hm.passed⟩
      · cases houtside
  | stopped =>
      simp only [Application.outside] at houtside
      split at houtside
      · rename_i inTime hphase
        obtain rfl := Option.some.inj houtside
        have hstep : Lifespan.Step queue l .stopped { l with phase := .stopped inTime } := by
          simp only [Lifespan.Step, ofStep, Lifespan.step, hm.phase, hphase]
        exact ⟨_, (Reachable.refl l).step hstep, hm.manager, rfl, hm.passed⟩
      · cases houtside
  | unshare =>
      simp only [Application.outside] at houtside
      split at houtside
      · obtain rfl := Option.some.inj houtside
        exact ⟨l, .refl l, hm.manager, hm.phase, hm.passed⟩
      · cases houtside

end

/-! ### The refinement -/

namespace Running

/-- The future that the task that runs has just created, if it has. -/
def submitting? (s : Running cfg n) : Option ℕ :=
  (s.running.bind fun k => s.tasks[k]?).bind fun t => created? (handlerEvents t.history)

/-- How many items the tasks may still enqueue. -/
def passed (s : Running cfg n) : ℕ := (s.tasks.map fun t => openPasses t.history).sum

/-- The queue and the shutdown are those of a run of the lifespan. -/
def Simulated (queue : QueueConfig) (s : Running cfg n) : Prop :=
  ∃ l, Reachable (Lifespan.Step queue) (Lifespan.initial DispatchCall Response Unit n) l
    ∧ Matches s.submitting? s.passed s.shared l

end Running

/-- Every task of the application performs its operations in order. -/
theorem reachable_inOrder {clock : ℚ} {s : Running cfg n}
    (h : Running.Reached digest unicode cfg queue clock s) :
  ∀ t ∈ s.tasks, Sat anyRouteAnswer RouteInOrder (fun h _ => Settled (handlerEvents h)) t.history
    t.rest
  := EventLoop.Loop.reachable_sat h (fun _ => trivial) fun purpose => Purpose.inOrder purpose

/-- Futures stay created. -/
theorem queueAfter_created_le (m : PriorityQueueManager DispatchCall Response Unit n)
    (op : RouteOp) :
  m.created ≤ (queueAfter queue m op).created
  := by
  cases op with
  | handler op =>
      cases op with
      | createFuture => exact Nat.le_succ _
      | enqueue item => exact (PriorityQueueManager.enqueue_sameFutures m item).created.ge
      | _ => exact le_rfl
  | flush tier =>
      exact PriorityQueueManager.step_created_le (PriorityQueueManager.step_flush queue m tier)
  | pause | resume | drain => exact le_rfl

/-- A future that the event created has been created. -/
def FutureCreated (e : Event RouteOp.Answer) (x : Application n) : Prop :=
  match e with
  | ⟨.handler .createFuture, k⟩ => k < x.queueManager.created
  | _ => True

theorem FutureCreated.mono {e : Event RouteOp.Answer} {x x' : Application n}
    (hle : x.queueManager.created ≤ x'.queueManager.created) (he : FutureCreated e x) :
  FutureCreated e x'
  := by
  obtain ⟨op, r⟩ := e
  cases op with
  | handler op =>
      cases op with
      | createFuture => exact lt_of_lt_of_le he hle
      | _ => trivial
  | pause | resume | drain | flush => trivial

/-- The futures that the tasks created have been created. -/
theorem reachable_created {clock : ℚ} {s : Running cfg n}
    (h : Running.Reached digest unicode cfg queue clock s) {t} (ht : t ∈ s.tasks) {k : ℕ}
    (hk : ⟨.handler .createFuture, k⟩ ∈ t.history) :
  k < s.shared.queueManager.created
  := by
  have hevents := EventLoop.Loop.reachable_events (Q := FutureCreated) h ?_ ?_ ?_
  · exact hevents t ht _ hk
  · intro op x r x' hanswered
    have hmanager := (answered_queueManager hanswered).1
    constructor
    · cases op with
      | handler op =>
          cases op with
          | createFuture =>
              cases hanswered with
              | act hact =>
                  obtain ⟨rfl, rfl⟩ := Prod.mk.inj (Option.some.inj hact)
                  exact Nat.lt_succ_self _
              | wake b hwake => cases hwake
          | _ => trivial
      | pause | resume | drain | flush => trivial
    · intro e
      apply FutureCreated.mono
      rw [hmanager]
      exact queueAfter_created_le _ op
  · intro op x e
    apply FutureCreated.mono
    cases op with
    | handler op => cases op <;> exact le_rfl
    | pause | resume | drain | flush => exact le_rfl
  · intro e x x' e' houtside
    apply FutureCreated.mono
    cases outside_queueChange houtside with
    | same _ hmanager | stopWorkers hmanager => exact (congrArg (·.created) hmanager).ge
    | work hstep | finish _ hstep => exact PriorityQueueManager.step_created_le hstep

/-- An operation other than `enqueue` is performed while nothing is being submitted. -/
theorem RouteInOrder.settled {h : List (Event RouteOp.Answer)} {op : RouteOp}
    (horder : RouteInOrder h op) (hop : ∀ item, op ≠ .handler (.enqueue item)) :
  Settled (handlerEvents h)
  := by
  cases op with
  | handler op =>
      cases op with
      | enqueue item => cases hop item rfl
      | await => exact horder.1
      | _ => exact horder
  | pause | resume | drain | flush => exact horder

theorem mem_handlerEvents {h : List (Event RouteOp.Answer)} {op : Op} {r : op.Answer} :
  ⟨op, r⟩ ∈ handlerEvents h ↔ ⟨.handler op, r⟩ ∈ h
  := by
  constructor
  · intro hmem
    obtain ⟨⟨op', r'⟩, he, heq⟩ := List.mem_filterMap.mp hmem
    cases op' with
    | handler op' =>
        cases Option.some.inj heq
        exact he
    | pause | resume | drain | flush => cases heq
  · exact fun hmem => List.mem_filterMap.mpr ⟨_, hmem, rfl⟩

theorem mem_of_created? {h : List (Event Op.Answer)} {k : ℕ} (hk : created? h = some k) :
  ⟨.createFuture, k⟩ ∈ h
  := by
  simp only [created?] at hk
  split at hk
  · rename_i hlast
    obtain rfl := Option.some.inj hk
    exact List.mem_of_getLast? hlast
  · cases hk

/-- A task that enqueued an item had created the future of the item. -/
theorem reachable_enqueued {clock : ℚ} {s : Running cfg n}
    (h : Running.Reached digest unicode cfg queue clock s) {t} (ht : t ∈ s.tasks)
    {item : QueueItem DispatchCall} {result : Except EnqueueError ℕ}
    (hmem : ⟨.handler (.enqueue item), result⟩ ∈ t.history) :
  ⟨.handler .createFuture, item.future⟩ ∈ t.history
  := by
  obtain ⟨es, fs, hhistory, hcreated, -⟩ :=
    EventLoop.Loop.reachable_called h (fun _ => trivial) Purpose.inOrder ht hmem
  rw [hhistory]
  exact List.mem_append_left _ (mem_handlerEvents.mp (mem_of_created? hcreated))

/-- The future that a task awaits has been created. -/
theorem reachable_awaits {clock : ℚ} {s : Running cfg n}
    (h : Running.Reached digest unicode cfg queue clock s) {t} (ht : t ∈ s.tasks)
    {item : QueueItem DispatchCall} (horder : RouteInOrder t.history (.handler (.await item))) :
  item.future < s.shared.queueManager.created
  := by
  obtain ⟨-, position, hmem⟩ := horder
  exact reachable_created h ht (reachable_enqueued h ht (mem_handlerEvents.mp hmem))

namespace Running

variable {s s' : Running cfg n} {k : ℕ} {t : EventLoop.Task (Purpose cfg) RouteOp.Answer Outcome}

/-- While no task runs, nothing is being submitted. -/
theorem simulated_iff_of_idle (hidle : s.running = none) :
  Simulated queue s ↔ ∃ l, Reachable (Lifespan.Step queue)
    (Lifespan.initial DispatchCall Response Unit n) l ∧ Matches none s.passed s.shared l
  := by
  rw [Simulated, submitting?, hidle]
  rfl

/-- While a task runs, that task may be submitting an item. -/
theorem simulated_iff_of_running (hrunning : s.running = some k) (ht : s.tasks[k]? = some t) :
  Simulated queue s ↔ ∃ l, Reachable (Lifespan.Step queue)
    (Lifespan.initial DispatchCall Response Unit n) l
    ∧ Matches (created? (handlerEvents t.history)) s.passed s.shared l
  := by
  rw [Simulated, submitting?, hrunning, Option.bind_some, ht]
  rfl

/-- An answer to a task is matched, if it is for the task alone. -/
theorem simulated_answered {l : Lifespan DispatchCall Response Unit n} {x : Application n} {c : ℕ}
    {op : RouteOp} {r : op.Answer} {rest : Route Outcome} (ht : s.tasks[k]? = some t)
    (hset : ∀ t', ((s.tasks.set k t').map fun t => openPasses t.history).sum
      = c + openPasses t'.history)
    (hreach : Reachable (Lifespan.Step queue) (Lifespan.initial DispatchCall Response Unit n) l)
    (hm : Matches (created? (handlerEvents (t.history ++ [⟨op, r⟩])))
      (c + openPasses (t.history ++ [⟨op, r⟩])) x l) :
  Simulated queue (s.set k (t.answered op r rest) (some k) x)
  := by
  have hlt : k < s.tasks.length := (List.getElem?_eq_some_iff.mp ht).1
  apply (simulated_iff_of_running rfl (List.getElem?_set_self hlt)).mpr
  refine ⟨l, hreach, ?_⟩
  rw [passed, EventLoop.State.set, hset]
  exact hm

/-- A step of the application is matched by steps of the lifespan. -/
theorem Simulated.step {clock : ℚ} {a : EventLoop.Action (Purpose cfg) Reply (Occurrence n)}
    (hs : Simulated queue s) (hreached : Reached digest unicode cfg queue clock s)
    (hstep : (eventLoop digest unicode cfg queue n).Step s a s') :
  Simulated queue s'
  := by
  have horder := reachable_inOrder hreached
  cases (EventLoop.Loop.Step.effect hstep) with
  | spawn purpose hidle =>
      obtain ⟨l, hreach, hm⟩ := (simulated_iff_of_idle hidle).mp hs
      let s' : Running cfg n :=
        { s with tasks := s.tasks ++ [(eventLoop digest unicode cfg queue n).fresh purpose] }
      have hpassed : s'.passed = s.passed := by
        simp [s', passed, EventLoop.Loop.fresh, openPasses, passes]
      rw [← hpassed] at hm
      exact (simulated_iff_of_idle (s := s') hidle).mpr ⟨l, hreach, hm⟩
  | @start k t hidle ht hfresh hlive =>
      obtain ⟨l, hreach, hm⟩ := (simulated_iff_of_idle hidle).mp hs
      apply (simulated_iff_of_running (s := { s with running := some k }) rfl ht).mpr
      rw [hfresh]
      exact ⟨l, hreach, hm⟩
  | perform hrunning ht hrest hact =>
      obtain ⟨l, hreach, hm⟩ := (simulated_iff_of_running hrunning ht).mp hs
      obtain ⟨c, hpassed, hset⟩ := Tally.exists_rest (fun t => openPasses t.history) ht
      have hcall := horder _ (List.mem_of_getElem? ht)
      rw [hrest] at hcall
      rw [passed, hpassed] at hm
      obtain ⟨l', hreach', hm'⟩ := hm.act hcall.1 hact
      exact simulated_answered ht hset (hreach.trans hreach') hm'
  | @suspend k t hrunning ht hstops =>
      obtain ⟨l, hreach, hm⟩ := (simulated_iff_of_running hrunning ht).mp hs
      have hcall := horder _ (List.mem_of_getElem? ht)
      have hsettled : Settled (handlerEvents t.history) := by
        cases hrest : t.rest with
        | pure outcome =>
            rw [hrest] at hcall
            exact hcall
        | call op next =>
            rw [hrest] at hcall hstops
            apply hcall.1.settled
            rintro item rfl
            cases hstops
      rw [hsettled.created] at hm
      exact (simulated_iff_of_idle rfl).mpr ⟨l, hreach, hm⟩
  | wake hidle ht hlive hrest hwake =>
      obtain ⟨l, hreach, hm⟩ := (simulated_iff_of_idle hidle).mp hs
      obtain ⟨c, hpassed, hset⟩ := Tally.exists_rest (fun t => openPasses t.history) ht
      have hcall := horder _ (List.mem_of_getElem? ht)
      rw [hrest] at hcall
      have hsettled := hcall.1.settled fun item heq => by
        subst heq
        cases hwake
      rw [passed, hpassed, ← hsettled.created] at hm
      exact simulated_answered ht hset hreach (hm.wake hcall.1 hwake)
  | @cancel k t op next hidle ht hlive hrest =>
      obtain ⟨l, hreach, hm⟩ := (simulated_iff_of_idle hidle).mp hs
      obtain ⟨c, hpassed, hset⟩ := Tally.exists_rest (fun t => openPasses t.history) ht
      have hcall := horder _ (List.mem_of_getElem? ht)
      rw [hrest] at hcall
      rw [passed, hpassed, ← hset { t with cancelled := true }] at hm
      have habandon : ∃ l', Reachable (Lifespan.Step queue) l l' ∧ Matches none
          (passed (s.set k { t with cancelled := true } none s.shared))
          (Application.abandon op s.shared) l' := by
        cases op with
        | handler op =>
            cases op with
            | await item =>
                have hcreated := reachable_awaits hreached (List.mem_of_getElem? ht) hcall.1
                exact hm.action (a := .cancel item.future) (by simp) (if_pos hcreated)
            | _ => exact ⟨l, .refl l, hm⟩
        | pause | resume | drain | flush => exact ⟨l, .refl l, hm⟩
      obtain ⟨l', hreach', hm'⟩ := habandon
      exact (simulated_iff_of_idle rfl).mpr ⟨l', hreach.trans hreach', hm'⟩
  | @outside e x hidle houtside =>
      obtain ⟨l, hreach, hm⟩ := (simulated_iff_of_idle hidle).mp hs
      obtain ⟨l', hreach', hm'⟩ := hm.outside houtside
      exact (simulated_iff_of_idle (s := { s with shared := x }) hidle).mpr
        ⟨l', hreach.trans hreach', hm'⟩

end Running

theorem reachable_simulated {clock : ℚ} {s : Running cfg n}
    (h : Running.Reached digest unicode cfg queue clock s) :
  s.Simulated queue
  := by
  have hs : Running.Reached digest unicode cfg queue clock s ∧ s.Simulated queue := by
    refine h.invariant (I := fun s => Running.Reached digest unicode cfg queue clock s
      ∧ s.Simulated queue) ?_ ?_
    · exact ⟨.refl _, _, .refl _, rfl, rfl, rfl⟩
    · intro s a s' hs hstep
      exact ⟨hs.1.step hstep, hs.2.step hs.1 hstep⟩
  exact hs.2

/-- Whatever the tasks of the application do, and in whatever order, its queue and its shutdown
are those of a run of the lifespan, in which as many handlers may enqueue an item as do in the
application. -/
theorem reachable_lifespan {clock : ℚ} {s : Running cfg n}
    (h : Running.Reached digest unicode cfg queue clock s) (hidle : s.running = none) :
  ∃ l, Reachable (Lifespan.Step queue) (Lifespan.initial DispatchCall Response Unit n) l
    ∧ l.manager = s.shared.queueManager ∧ l.phase = s.shared.phase ∧ l.passed = s.passed
  := by
  obtain ⟨l, hreach, hm⟩ := (Running.simulated_iff_of_idle hidle).mp (reachable_simulated h)
  exact ⟨l, hreach, hm.manager.symm, hm.phase, hm.passed⟩

/-! ### A run of two requests -/

/-- A chat request on the main port. -/
def samplePurpose : Purpose sampleConfig :=
  .request ⟨.main, List.mem_cons_self⟩ sampleRequest (by decide)

/-- Two requests find `shutting_down` unset.  The first one is enqueued, a worker executes its
item, and it is answered, before the second one goes on. -/
def sampleRun : List (EventLoop.Action (Purpose sampleConfig) Reply (Occurrence 1)) :=
  [.spawn samplePurpose, .start 0, .perform, .perform, .perform, .perform, .suspend,
    .spawn samplePurpose, .start 1, .perform, .perform, .perform, .perform, .suspend,
    .wake 0 .done, .perform, .perform, .suspend,
    .outside (.tick 2), .outside (.work 0),
    .outside (.tick 5), .outside (.finish 0 (.ok ⟨200, .stream, []⟩)),
    .wake 0 .done, .suspend, .wake 0 .done, .perform, .suspend]

/-- The first request of the run was admitted and answered, and the second one may still be
enqueued. -/
def isSampleEnd (s : Running sampleConfig 1) : Bool :=
  s.running.isNone && s.passed == 1 && s.shared.queueManager.admitted.length == 1
    && s.tasks[0]?.any fun t => match t.label, t.rest with
      | .request _ _ _, .pure (.response response) => response.statusCode == 200
      | _, _ => false

theorem exists_sampleEnd :
  ∃ s, Running.Reached id .ascii sampleConfig .default 0 s ∧ isSampleEnd s = true
  := by
  have hexec : (exec (eventLoop id .ascii sampleConfig .default 1).step
      (Running.initial sampleConfig 1 0) sampleRun).any isSampleEnd = true := by
    decide +kernel
  obtain ⟨s, hs, hend⟩ := (Option.any_eq_true _ _).mp hexec
  exact ⟨s, ⟨sampleRun, run_of_exec hs⟩, hend⟩

/-- In the lifespan of the run one handler may still enqueue an item. -/
theorem sampleRun_lifespan :
  ∃ l, Reachable (Lifespan.Step .default) (Lifespan.initial DispatchCall Response Unit 1) l
    ∧ l.manager.admitted.length = 1 ∧ l.passed = 1
  := by
  obtain ⟨s, hreached, hend⟩ := exists_sampleEnd
  simp only [isSampleEnd, Bool.and_eq_true, Option.isNone_iff_eq_none, beq_iff_eq] at hend
  obtain ⟨⟨⟨hidle, hpassed⟩, hadmitted⟩, -⟩ := hend
  obtain ⟨l, hreach, hmanager, -, hl⟩ := reachable_lifespan hreached hidle
  exact ⟨l, hreach, hmanager ▸ hadmitted, hl.trans hpassed⟩

end OllamaQueueProxy
