import OllamaQueueProxy.Queue.Admission
import OllamaQueueProxy.Queue.Conservation

/-!
# Shutdown

The queue within the lifespan of the application.  Handlers look at `shutting_down` once and
may suspend before they enqueue their item.  The shutdown sets `shutting_down`, waits in
`drain` until all queues are empty, and cancels the workers.  `drain` does not wait for the
items that workers execute, whose futures are then never resolved, and a handler that looked
at `shutting_down` in time may enqueue an item that no worker takes any more.

We show that nothing else is lost: if no worker executes an item whose future is pending when
the workers are cancelled, and no item is admitted after `drain` returned, then every item
that was ever admitted has its future resolved (`always_losesNothing`).
-/

open Transition

namespace OllamaQueueProxy

namespace PriorityQueueManager

variable {δ ρ ε : Type} {n : ℕ}

/-- The number of the workers that execute an item. -/
def executing (s : PriorityQueueManager δ ρ ε n) : ℕ :=
  (List.finRange n).countP fun w => match s.workers w with
    | .executing _ => true
    | _ => false

/-- `stop_workers` cancels the tasks of the workers.  `CancelledError` leaves their loops, past
the branches that resolve futures; the permits of the semaphore are given back. -/
def stopWorkers (s : PriorityQueueManager δ ρ ε n) : PriorityQueueManager δ ρ ε n :=
  { s with
    semaphore := s.semaphore + s.executing
    workers := fun _ => .dead }

end PriorityQueueManager

/-- How far the shutdown of the application is.  After `drain` it is noted whether that
returned before the timeout. -/
inductive ShutdownPhase where
  | serving
  /-- `shutting_down` is set, and `drain` runs. -/
  | draining
  | drained (inTime : Bool)
  /-- The workers are cancelled, and `stop_workers` waits for their tasks. -/
  | stopping (inTime : Bool)
  /-- `stop_workers` has returned. -/
  | stopped (inTime : Bool)
  deriving DecidableEq

/-- The queue, the shutdown and the handlers. -/
structure Lifespan (δ ρ ε : Type) (n : ℕ) where
  manager : PriorityQueueManager δ ρ ε n
  phase : ShutdownPhase
  /-- The number of handlers that found `shutting_down` unset and have not enqueued an item
  yet. -/
  passed : ℕ

inductive LifespanAction (δ ρ ε : Type) (n : ℕ) where
  /-- A handler finds `shutting_down` unset. -/
  | pass
  /-- A handler that passed the check ends without enqueueing an item. -/
  | leave
  /-- A handler that passed the check calls `enqueue`. -/
  | enqueue (request : Submission δ)
  /-- Another action on the queue. -/
  | queue (a : Action δ ρ ε n)
  | shutdown
  /-- `drain` returns, or it is timed out. -/
  | drain (inTime : Bool)
  | stopWorkers
  | stopped

namespace Lifespan

variable {δ ρ ε : Type} {n : ℕ}

/-- The application after its start, with `n` workers. -/
def initial (δ ρ ε : Type) (n : ℕ) : Lifespan δ ρ ε n where
  manager := .initial δ ρ ε n
  phase := .serving
  passed := 0

/-- The state after an action; `none` if the action is not possible. -/
def step (cfg : QueueConfig) (s : Lifespan δ ρ ε n) :
    LifespanAction δ ρ ε n → Option (Lifespan δ ρ ε n)
  | .pass => if s.phase = .serving then some { s with passed := s.passed + 1 } else none
  | .leave => if 0 < s.passed then some { s with passed := s.passed - 1 } else none
  | .enqueue request =>
      if 0 < s.passed then (s.manager.step cfg (.enqueue request)).map fun m => { s with
        manager := m
        passed := s.passed - 1 }
      else none
  | .queue a => match a with
    | .enqueue _ => none
    | a => (s.manager.step cfg a).map fun m => { s with manager := m }
  | .shutdown => if s.phase = .serving then some { s with phase := .draining } else none
  | .drain inTime =>
      if s.phase = .draining ∧ (inTime = true → s.manager.allEmpty = true) then
        some { s with phase := .drained inTime }
      else none
  | .stopWorkers => match s.phase with
    | .drained inTime => some { s with
        manager := s.manager.stopWorkers
        phase := .stopping inTime }
    | _ => none
  | .stopped => match s.phase with
    | .stopping inTime => some { s with phase := .stopped inTime }
    | _ => none

/-- The transitions of the application. -/
abbrev Step (cfg : QueueConfig) :
    Lifespan δ ρ ε n → LifespanAction δ ρ ε n → Lifespan δ ρ ε n → Prop :=
  ofStep (step cfg)

/-- When `stop_workers` has returned, after `drain` returned before the timeout, every item
that was admitted has its future resolved. -/
def LosesNothing (s : Lifespan δ ρ ε n) : Prop :=
  s.phase = .stopped true →
    ∀ item ∈ s.manager.admitted, (s.manager.futures item.future).done = true

/-- `drain` has returned before the timeout. -/
def HasDrained (s : Lifespan δ ρ ε n) : Prop :=
  s.phase = .drained true ∨ s.phase = .stopping true ∨ s.phase = .stopped true

/-- After `drain` has returned no item is admitted, and no worker is cancelled that executes
an item whose future is pending. -/
def AtRest (cfg : QueueConfig) (s : Lifespan δ ρ ε n) : LifespanAction δ ρ ε n → Prop
  | .enqueue request => HasDrained s →
      ¬ s.manager.createFuture.Admits cfg (request.item s.manager.created)
  | .stopWorkers => HasDrained s → ∀ w item, s.manager.workers w = .executing item →
      (s.manager.futures item.future).done = true
  | _ => True

end Lifespan

namespace PriorityQueueManager

variable {δ ρ ε : Type} {n : ℕ} {cfg : QueueConfig} {s s' : PriorityQueueManager δ ρ ε n}

/-- Every item that was admitted has its future resolved. -/
def AllResolved (s : PriorityQueueManager δ ρ ε n) : Prop :=
  ∀ item ∈ s.admitted, (s.futures item.future).done = true

theorem admitted_append (ms : List (Station.Move (QueueItem δ) DispatchEnd))
    (hmoves : s'.moves = s.moves ++ ms) (hms : Station.arrivals ms = []) :
  s'.admitted = s.admitted
  := by
  rw [admitted, hmoves, Station.arrivals, Station.record_append]
  rw [Station.arrivals] at hms
  rw [hms, List.append_nil]

/-- Only `enqueue` admits items. -/
theorem Effect.admitted {a : Action δ ρ ε n} (ha : ∀ request, a ≠ .enqueue request)
    (heffect : Effect cfg a s s') :
  s'.admitted = s.admitted
  := by
  cases heffect with
  | note | fire | createFuture | accept => cases ha _ rfl
  | idle | pause | resume | cancel => rfl
  | @start _ w now t item => exact admitted_append [.serve item] (by simp) rfl
  | @expire _ w now t item => exact admitted_append [.discard item] (by simp) rfl
  | @crash _ w now t item => exact admitted_append [.discard item] (by simp) rfl
  | @complete _ w now r item =>
      exact admitted_append [.finish item .returned] (by simp) rfl
  | @fail _ w now e item => exact admitted_append [.finish item .raised] (by simp) rfl
  | @drop _ tier t item => exact admitted_append [.drop item] (by simp) rfl

theorem AllResolved.effect {a : Action δ ρ ε n} (ha : ∀ request, a ≠ .enqueue request)
    (h : AllResolved s) (heffect : Effect cfg a s s') :
  AllResolved s'
  := by
  intro item hitem
  rw [heffect.admitted ha] at hitem
  apply heffect.done (h item hitem)

/-- A refused item leaves the admitted items and the futures as they were. -/
theorem AllResolved.refuse {item : QueueItem δ} (h : AllResolved s)
    (hrefused : ¬ Admits cfg s item) :
  AllResolved (s.enqueue cfg item).1
  := by
  obtain ⟨e, -, hsame | ⟨event, -, hreject⟩⟩ := enqueue_refuses hrefused
  · rw [hsame]
    exact h
  · rw [hreject]
    intro i hi
    rw [admitted, reject, moves_fireEvent] at hi
    exact h i hi

/-- When all queues are empty, the items that are not resolved are executed by workers. -/
theorem allResolved_of_empty (htracked : Tracked s) (hresolved : Resolved s)
    (hempty : ∀ t, s.queues t = [])
    (hworkers : ∀ w item, s.workers w = .executing item → (s.futures item.future).done = true) :
  AllResolved s
  := by
  intro item hitem
  obtain ⟨p, hp, -⟩ := htracked.place hitem
  cases p with
  | queue =>
      rw [IsAt, hempty] at hp
      cases hp
  | worker w => exact hworkers w item hp
  | gone => exact hresolved item hp

/-- All queues are empty. -/
theorem queues_eq_nil_of_allEmpty (h : s.allEmpty = true) (t : Tier) :
  s.queues t = []
  := List.isEmpty_iff.mp (List.all_eq_true.mp h t (Tier.mem_all t))

end PriorityQueueManager

namespace Lifespan

variable {δ ρ ε : Type} {n : ℕ} {cfg : QueueConfig} {s s' : Lifespan δ ρ ε n}

open PriorityQueueManager (Tracked Resolved AllResolved)

/-- Up to the end of `drain` the queue is conserved; when that has returned the queues are
empty, and after the workers are cancelled all items are resolved. -/
structure Sound (s : Lifespan δ ρ ε n) : Prop where
  conserved : s.phase = .serving ∨ s.phase = .draining ∨ s.phase = .drained true →
    Tracked s.manager ∧ Resolved s.manager
  empty : s.phase = .drained true → ∀ t, s.manager.queues t = []
  resolved : s.phase = .stopping true ∨ s.phase = .stopped true → AllResolved s.manager

theorem Sound.losesNothing (h : Sound s) :
  LosesNothing s
  := fun hphase => h.resolved (.inr hphase)

theorem sound_initial :
  Sound (initial δ ρ ε n)
  := by
  constructor
  · intro _
    use Tracked.initial
    simp [Resolved, PriorityQueueManager.gone, PriorityQueueManager.moves, initial,
      PriorityQueueManager.initial]
  · intro h
    cases h
  · rintro (h | h) <;> cases h

/-- A step of the queue, by which nothing is admitted after `drain` has returned. -/
theorem Sound.queue {m : PriorityQueueManager δ ρ ε n} {a : Action δ ρ ε n} {k : ℕ}
    (h : Sound s) (hstep : PriorityQueueManager.Step cfg s.manager a m)
    (hempty : s.phase = .drained true → ∀ t, m.queues t = [])
    (hresolved : HasDrained s → AllResolved s.manager → AllResolved m) :
  Sound { s with manager := m, passed := k }
  where
  conserved hphase := by
    obtain ⟨htracked, hgone⟩ := h.conserved hphase
    use PriorityQueueManager.Step.invariant Tracked.effect htracked hstep
    exact PriorityQueueManager.Step.invariant Resolved.effect hgone hstep
  empty hphase := hempty hphase
  resolved hphase := hresolved (.inr hphase) (h.resolved hphase)

/-- A change of the phase alone, or of the number of handlers. -/
theorem Sound.congr {phase : ShutdownPhase} {k : ℕ} (h : Sound s)
    (hconserved : phase = .serving ∨ phase = .draining ∨ phase = .drained true →
      s.phase = .serving ∨ s.phase = .draining ∨ s.phase = .drained true)
    (hempty : phase = .drained true → ∀ t, s.manager.queues t = [])
    (hresolved : phase = .stopping true ∨ phase = .stopped true →
      s.phase = .stopping true ∨ s.phase = .stopped true) :
  Sound { s with phase := phase, passed := k }
  where
  conserved hphase := h.conserved (hconserved hphase)
  empty hphase := hempty hphase
  resolved hphase := h.resolved (hresolved hphase)

/-- A step of the queue by which nothing is enqueued. -/
theorem Sound.queue_of_ne {a : Action δ ρ ε n} (h : Sound s) (ha : ∀ request, a ≠ .enqueue request)
    (hstep : (s.manager.step cfg a).map (fun m => { s with manager := m }) = some s') :
  Sound s'
  := by
  obtain ⟨m, hm, rfl⟩ := Option.map_eq_some_iff.mp hstep
  apply h.queue hm
  · intro hphase
    apply PriorityQueueManager.Step.invariant
      (I := fun m => ∀ t, m.queues t = []) _ (h.empty hphase) hm
    intro t u ht heffect tier
    have hshrinks := heffect.shrinks ha tier
    rw [ht tier] at hshrinks
    exact List.sublist_nil.mp hshrinks
  · intro _ hresolved
    exact PriorityQueueManager.Step.invariant (AllResolved.effect ha) hresolved hm

theorem Sound.step {act : LifespanAction δ ρ ε n} (h : Sound s) (hrest : AtRest cfg s act)
    (hstep : Step cfg s act s') :
  Sound s'
  := by
  cases act with
  | pass | leave =>
      simp only [Step, ofStep, Lifespan.step] at hstep
      split_ifs at hstep
      obtain rfl := Option.some.inj hstep
      exact h.congr id h.empty id
  | enqueue request =>
      simp only [Step, ofStep, Lifespan.step] at hstep
      split_ifs at hstep
      obtain ⟨m, hm, rfl⟩ := Option.map_eq_some_iff.mp hstep
      have hm' : (s.manager.createFuture.enqueue cfg (request.item s.manager.created)).1 = m :=
        Option.some.inj hm
      apply h.queue hm
      · intro hphase t
        obtain ⟨-, -, -, hsame⟩ :=
          PriorityQueueManager.enqueue_of_not_admits (hrest (.inl hphase))
        rw [← hm', hsame.queues]
        exact h.empty hphase t
      · intro hdrained hresolved
        rw [← hm']
        apply AllResolved.refuse _ (hrest hdrained)
        exact hresolved
  | queue a =>
      have hqueue := @queue_of_ne δ ρ ε n cfg s s' a h
      cases a with
      | enqueue request => cases hstep
      | work | finish | flush | pause | resume | cancel => exact hqueue (by simp) hstep
  | shutdown =>
      simp only [Step, ofStep, Lifespan.step] at hstep
      split_ifs at hstep with hphase
      obtain rfl := Option.some.inj hstep
      exact h.congr (fun _ => .inl hphase) (by simp) (by simp)
  | drain inTime =>
      simp only [Step, ofStep, Lifespan.step] at hstep
      split_ifs at hstep with hdrain
      obtain ⟨hphase, hempty⟩ := hdrain
      obtain rfl := Option.some.inj hstep
      refine h.congr (fun _ => .inr (.inl hphase)) ?_ (by simp)
      intro hdrained
      apply PriorityQueueManager.queues_eq_nil_of_allEmpty
      apply hempty
      simpa using hdrained
  | stopWorkers =>
      simp only [Step, ofStep, Lifespan.step] at hstep
      split at hstep
      · rename_i inTime hphase
        obtain rfl := Option.some.inj hstep
        constructor
        · simp
        · simp
        · intro hstopping
          obtain rfl : inTime = true := by simpa using hstopping
          obtain ⟨htracked, hgone⟩ := h.conserved (.inr (.inr hphase))
          have hall : AllResolved s.manager := PriorityQueueManager.allResolved_of_empty
            htracked hgone (h.empty hphase) (hrest (.inl hphase))
          exact hall
      · cases hstep
  | stopped =>
      simp only [Step, ofStep, Lifespan.step] at hstep
      split at hstep
      · rename_i inTime hphase
        obtain rfl := Option.some.inj hstep
        refine h.congr (by simp) (by simp) ?_
        intro hstopped
        obtain rfl : inTime = true := by simpa using hstopped
        exact .inl hphase
      · cases hstep

/-- A shutdown in which the queue is at rest loses nothing. -/
theorem always_losesNothing {as : List (LifespanAction δ ρ ε n)}
    (h : AllSteps (Step cfg) (initial δ ρ ε n) as (AtRest cfg)) :
  Always (Step cfg) (initial δ ρ ε n) as LosesNothing
  := by
  have hsound : Always (Step cfg) (initial δ ρ ε n) as Sound := by
    apply h.always sound_initial
    intro t act u ht hrest hstep
    exact ht.step hrest hstep
  intro bs t hbs hrun
  exact (hsound bs t hbs hrun).losesNothing

/-! ### Runs that end with a shutdown -/

/-- The item of a handler is dispatched before the shutdown begins. -/
def quietShutdown : List (LifespanAction Unit Unit Unit 1) :=
  [.pass, .enqueue ⟨.normal, 0, "r", (), 5⟩, .queue (.work 0 1), .queue (.finish 0 2 (.ok ())),
    .shutdown, .drain true, .stopWorkers, .stopped]

/-- A worker executes the item of a handler while the application shuts down. -/
def busyShutdown : List (LifespanAction Unit Unit Unit 1) :=
  [.pass, .enqueue ⟨.normal, 0, "r", (), 5⟩, .queue (.work 0 1), .shutdown, .drain true,
    .stopWorkers, .stopped]

/-- A handler that found `shutting_down` unset enqueues its item after the workers were
cancelled. -/
def lateShutdown : List (LifespanAction Unit Unit Unit 1) :=
  [.pass, .shutdown, .drain true, .stopWorkers, .enqueue ⟨.normal, 0, "r", (), 5⟩, .stopped]

theorem quietShutdown_losesNothing :
  Always (Step .default) (initial Unit Unit Unit 1) quietShutdown LosesNothing
  := by
  apply always_losesNothing
  refine allSteps_of_checkSteps (b := fun s act => match act with
    | .enqueue _ => s.phase == .serving
    | .stopWorkers => s.manager.executing == 0
    | _ => true) ?_ ?_
  · decide +kernel
  · intro s act hcheck
    cases act with
    | enqueue request =>
        intro hdrained
        have hphase : s.phase = .serving := by simpa using hcheck
        rcases hdrained with h | h | h <;> rw [hphase] at h <;> cases h
    | stopWorkers =>
        intro _ w item hw
        have hidle : s.manager.executing = 0 := by simpa using hcheck
        have hnone := List.countP_eq_zero.mp hidle w (List.mem_finRange w)
        simp [hw] at hnone
    | pass | leave | queue | shutdown | drain | stopped => trivial

/-- The item that a worker executes when it is cancelled is lost, and so is the one that is
enqueued afterwards. -/
theorem not_always_losesNothing :
  ¬ Always (Step .default) (initial Unit Unit Unit 1) busyShutdown LosesNothing
    ∧ ¬ Always (Step .default) (initial Unit Unit Unit 1) lateShutdown LosesNothing
  := by
  constructor
  all_goals
    apply not_always_of_exec (b := fun s => s.phase == .stopped true
      && s.manager.admitted.any fun item => !(s.manager.futures item.future).done)
    · decide +kernel
    · intro s hbad hs
      obtain ⟨hphase, hpending⟩ := Bool.and_eq_true_iff.mp hbad
      obtain ⟨item, hitem, hdone⟩ := List.any_eq_true.mp hpending
      rw [hs (beq_iff_eq.mp hphase) item hitem] at hdone
      cases hdone

end Lifespan

end OllamaQueueProxy
