import OllamaQueueProxy.Application.Responses
import OllamaQueueProxy.Queue.Progress

/-!
# Progress of the application

No handler hangs.  Without new requests the workers come to rest after a bounded number of
steps, and as long as one of them is alive, every handler that awaits the future of its item
can then go on, unless its task was cancelled (`reachable_progress`).
-/

open Program (Event)
open Transition
open Json (Text)

namespace OllamaQueueProxy

variable {digest : Text → Text} {unicode : Unicode} {cfg : Config} {queue : QueueConfig} {n : ℕ}

/-- The action is a step of a worker. -/
def ofWorkers : EventLoop.Action (Purpose cfg) Reply (Occurrence n) → Bool
  | .outside e => e.ofWorker
  | _ => false

section

variable {clock : ℚ} {s s' : Running cfg n}

/-- What a worker does concerns the queue alone. -/
theorem step_ofWorkers {a : EventLoop.Action (Purpose cfg) Reply (Occurrence n)}
    (ha : ofWorkers a = true) (h : (eventLoop digest unicode cfg queue n).Step s a s') :
  s'.running = s.running ∧ ∃ b : Action DispatchCall Response Unit n, b.ofWorker = true
    ∧ PriorityQueueManager.Step queue s.shared.queueManager b s'.shared.queueManager
  := by
  cases (EventLoop.Loop.Step.effect h) with
  | spawn | start | perform | suspend | wake | cancel => cases ha
  | outside hidle houtside =>
      use rfl
      cases outside_queueChange houtside with
      | same he => cases he.symm.trans ha
      | work hstep => exact ⟨_, rfl, hstep⟩
      | finish _ hstep => exact ⟨_, rfl, hstep⟩
      | stopWorkers => cases ha

/-- The workers have less to do after every step. -/
theorem run_ofWorkers {as : List (EventLoop.Action (Purpose cfg) Reply (Occurrence n))}
    (hrun : Run (eventLoop digest unicode cfg queue n).Step s as s')
    (hworkers : ∀ a ∈ as, ofWorkers a = true) :
  as.length + s'.shared.queueManager.rank ≤ s.shared.queueManager.rank
    ∧ s'.running = s.running
  := by
  induction hrun with
  | nil => exact ⟨by simp, rfl⟩
  | @snoc t u as a _ hstep ih =>
      obtain ⟨has, ha⟩ := List.forall_mem_append.mp hworkers
      obtain ⟨hrank, hrunning⟩ := ih has
      obtain ⟨hsame, b, hb, hqueue⟩ := step_ofWorkers (ha a (List.mem_singleton_self a)) hstep
      have hlt := PriorityQueueManager.step_rank_lt hb hqueue
      use by rw [List.length_append, List.length_singleton]; omega
      exact hsame.trans hrunning

end

/-! ### Futures that were cancelled -/

/-- A cancelled task has created the future `k`. -/
def Abandoned (s : Running cfg n) (k : ℕ) : Prop :=
  ∃ t ∈ s.tasks, t.cancelled = true ∧ ⟨.handler .createFuture, k⟩ ∈ t.history

section

variable {clock : ℚ} {s s' : Running cfg n}

theorem Abandoned.step {k : ℕ} {a : EventLoop.Action (Purpose cfg) Reply (Occurrence n)}
    (hk : Abandoned s k) (hstep : (eventLoop digest unicode cfg queue n).Step s a s') :
  Abandoned s' k
  := by
  obtain ⟨t, ht, hcancelled, hcreated⟩ := hk
  obtain ⟨t', ht', hlater⟩ := (EventLoop.Loop.Step.change hstep).grows ht
  exact ⟨t', ht', hlater.cancelled hcancelled, hlater.history.subset hcreated⟩

/-- Apart from `cancel`, no action cancels a future. -/
theorem cancelled_of_step {m m' : PriorityQueueManager DispatchCall Response Unit n}
    {a : Action DispatchCall Response Unit n} (ha : ∀ k, a ≠ .cancel k)
    (hstep : PriorityQueueManager.Step queue m a m') {k : ℕ} (hk : m'.futures k = .cancelled) :
  m.futures k = .cancelled
  := by
  obtain hkept | ⟨-, hresolved⟩ := PriorityQueueManager.step_resolution hstep k
  · exact hkept.symm.trans hk
  · rw [hk] at hresolved
    cases hresolved with
    | cancelled => cases ha k rfl

theorem cancelled_of_queueAfter {m : PriorityQueueManager DispatchCall Response Unit n}
    (op : RouteOp) {k : ℕ} (hk : (queueAfter queue m op).futures k = .cancelled) :
  m.futures k = .cancelled
  := by
  cases op with
  | handler op =>
      cases op with
      | enqueue item =>
          rwa [queueAfter, (PriorityQueueManager.enqueue_sameFutures m item).futures] at hk
      | _ => exact hk
  | flush tier =>
      exact cancelled_of_step (by simp) (PriorityQueueManager.step_flush queue m tier) hk
  | pause | resume | drain => exact hk

/-- A future is cancelled only with the task that created it. -/
theorem reachable_abandoned (h : Running.Reached digest unicode cfg queue clock s) {k : ℕ}
    (hk : s.shared.queueManager.futures k = .cancelled) :
  Abandoned s k
  := by
  have hs : Running.Reached digest unicode cfg queue clock s
      ∧ (s.shared.queueManager.futures k = .cancelled → Abandoned s k) := by
    refine h.invariant (I := fun s => Running.Reached digest unicode cfg queue clock s
      ∧ (s.shared.queueManager.futures k = .cancelled → Abandoned s k))
      ⟨.refl _, fun h => nomatch h⟩ ?_
    rintro s a s' ⟨hreached, habandoned⟩ hstep
    use hreached.step hstep
    intro hk
    have hbefore (hk : s.shared.queueManager.futures k = .cancelled) : Abandoned s' k :=
      (habandoned hk).step hstep
    cases EventLoop.Loop.Step.change hstep with
    | spawn _ _ hshared | turn _ hshared => exact hbefore (hshared ▸ hk)
    | answer _ _ _ hanswered =>
        rw [(answered_queueManager hanswered).1] at hk
        exact hbefore (cancelled_of_queueAfter _ hk)
    | outside e _ houtside =>
        cases outside_queueChange houtside with
        | same _ hmanager | stopWorkers hmanager =>
            rw [hmanager] at hk
            exact hbefore hk
        | work hstep | finish _ hstep => exact hbefore (cancelled_of_step (by simp) hstep hk)
    | @cancel j t op next ht hrest htasks hshared =>
        rw [hshared] at hk
        cases op with
        | handler op =>
            cases op with
            | await item =>
                by_cases hfuture : k = item.future
                · subst hfuture
                  have hmem := List.mem_of_getElem? ht
                  have hcall := reachable_inOrder hreached t hmem
                  rw [hrest] at hcall
                  obtain ⟨-, position, henqueued⟩ := hcall.1
                  have hlt : j < s.tasks.length := (List.getElem?_eq_some_iff.mp ht).1
                  refine ⟨{ t with cancelled := true }, ?_, rfl,
                    reachable_enqueued hreached hmem (mem_handlerEvents.mp henqueued)⟩
                  rw [htasks]
                  exact List.mem_of_getElem? (List.getElem?_set_self hlt)
                · change Function.update s.shared.queueManager.futures item.future _ k = _ at hk
                  rw [Function.update_of_ne hfuture] at hk
                  exact hbefore hk
            | _ => exact hbefore hk
        | pause | resume | drain | flush => exact hbefore hk
  exact hs.2 hk

/-! ### Handlers that wait -/

/-- While some worker is alive, the queue is that of a run of its own. -/
theorem reachable_alive (h : Running.Reached digest unicode cfg queue clock s)
    (hidle : s.running = none) {w : Fin n} (hw : s.shared.queueManager.workers w ≠ .dead) :
  Reachable (PriorityQueueManager.Step queue) (.initial DispatchCall Response Unit n)
    s.shared.queueManager
  := by
  obtain ⟨l, hreach, hmatches⟩ := (Running.simulated_iff_of_idle hidle).mp (reachable_simulated h)
  have hmanager : s.shared.queueManager = l.manager := hmatches.manager
  obtain ⟨m, hm, hfollows | ⟨permits, hfollows⟩⟩ := Lifespan.reachable_halted hreach
  · rw [hmanager, hfollows]
    exact hm
  · rw [hmanager, hfollows] at hw
    exact (hw rfl).elim

/-- Unless the workers rest, one can take a step. -/
theorem exists_step (h : Running.Reached digest unicode cfg queue clock s)
    (hidle : s.running = none) (hrest : ¬ s.shared.queueManager.Resting)
    (outcome : Except Unit Response) :
  ∃ a s', ofWorkers a = true ∧ (eventLoop digest unicode cfg queue n).Step s a s'
  := by
  have halive : ∃ w, s.shared.queueManager.workers w ≠ .dead := by
    by_contra hdead
    apply hrest
    exact fun w => .inr (not_not.mp (not_exists.mp hdead w))
  obtain ⟨w, hw⟩ := halive
  have houtside : ∃ e x, Occurrence.ofWorker e = true
      ∧ Application.outside queue e s.shared = some x := by
    obtain ⟨v, m, hstep⟩ | ⟨v, item, hexecuting⟩ :=
      PriorityQueueManager.exists_step_of_not_resting (reachable_alive h hidle hw) hrest
        s.shared.clock
    · exact ⟨.work v, _, rfl, congrArg (Option.map s.shared.setQueueManager) hstep⟩
    · have hfinish : (Application.outside queue (.finish v outcome) s.shared).isSome = true := by
        simp [Application.outside, hexecuting]
      obtain ⟨x, hx⟩ := Option.isSome_iff_exists.mp hfinish
      exact ⟨.finish v outcome, x, rfl, hx⟩
  obtain ⟨e, x, he, houtside⟩ := houtside
  refine ⟨.outside e, { s with shared := x }, he, ?_⟩
  simp only [EventLoop.Loop.Step, ofStep, EventLoop.Loop.step, hidle, Option.isNone_none, if_true]
  rw [show (eventLoop digest unicode cfg queue n).outside = Application.outside queue from rfl,
    houtside]
  rfl

/-- While some worker is alive and none can take a step, a handler that awaits the future of its
item can go on, unless its task was cancelled. -/
theorem wakes_of_resting (h : Running.Reached digest unicode cfg queue clock s)
    (hidle : s.running = none) (hrest : s.shared.queueManager.Resting) {w : Fin n}
    (hw : s.shared.queueManager.workers w ≠ .dead) {t} (ht : t ∈ s.tasks)
    (hlive : t.cancelled = false) {item : QueueItem DispatchCall}
    {next : Except (FutureException Unit) Response → Route Outcome}
    (hawaits : t.rest = .call (.handler (.await item)) next) (reply : Reply) :
  ∃ answer, Application.wake (.handler (.await item)) reply s.shared = some (answer, s.shared)
  := by
  have hcall := reachable_inOrder h t ht
  rw [hawaits] at hcall
  obtain ⟨-, position, henqueued⟩ := hcall.1
  have henqueue := mem_handlerEvents.mp henqueued
  have hadmitted : { item with position := position } ∈ s.shared.queueManager.admitted :=
    reachable_recorded h t ht _ henqueue
  have hdone := PriorityQueueManager.resolved_of_resting (reachable_alive h hidle hw) hrest hw
    _ hadmitted
  cases hf : s.shared.queueManager.futures item.future with
  | pending =>
      rw [hf] at hdone
      cases hdone
  | cancelled =>
      obtain ⟨u, hu, hcancelled, hcreated⟩ := reachable_abandoned h hf
      obtain rfl := reachable_owner h ht hu (reachable_enqueued h ht henqueue) hcreated
      cases hlive.symm.trans hcancelled
  | result response =>
      exact ⟨.ok response, congrArg (Option.map fun a => (a, s.shared))
        (congrArg Application.awaited? hf)⟩
  | exception e =>
      exact ⟨.error e, congrArg (Option.map fun a => (a, s.shared))
        (congrArg Application.awaited? hf)⟩

/-- Every handler that awaits the future of its item can go on, unless its task was
cancelled. -/
def NoneHangs (s : Running cfg n) : Prop :=
  ∀ t ∈ s.tasks, t.cancelled = false → ∀ (item : QueueItem DispatchCall) next,
    t.rest = .call (.handler (.await item)) next → ∀ reply, ∃ answer,
      Application.wake (.handler (.await item)) reply s.shared = some (answer, s.shared)

/-- From every state in which no task runs, the workers come to rest after a bounded number of
steps, until then some worker can take a step, and when they rest no handler hangs, as long as
some worker is alive. -/
theorem reachable_progress (h : Running.Reached digest unicode cfg queue clock s)
    (hidle : s.running = none) {as : List (EventLoop.Action (Purpose cfg) Reply (Occurrence n))}
    (hrun : Run (eventLoop digest unicode cfg queue n).Step s as s')
    (hworkers : ∀ a ∈ as, ofWorkers a = true) :
  as.length ≤ s.shared.queueManager.rank
    ∧ (¬ s'.shared.queueManager.Resting →
      ∃ a s'', ofWorkers a = true ∧ (eventLoop digest unicode cfg queue n).Step s' a s'')
    ∧ (s'.shared.queueManager.Resting → (∃ w, s'.shared.queueManager.workers w ≠ .dead) →
      NoneHangs s')
  := by
  obtain ⟨hrank, hrunning⟩ := run_ofWorkers hrun hworkers
  have hreached := h.trans ⟨as, hrun⟩
  have hidle' := hrunning.trans hidle
  refine ⟨by omega, fun hrest => exists_step hreached hidle' hrest (.error ()), ?_⟩
  rintro hrest ⟨w, hw⟩ t ht hlive item next hawaits reply
  exact wakes_of_resting hreached hidle' hrest hw ht hlive hawaits reply

end

/-- A worker executes the item of the first request. -/
def sampleDispatch : List (EventLoop.Action (Purpose sampleConfig) Reply (Occurrence 1)) :=
  [.outside (.work 0), .outside (.finish 0 (.ok ⟨200, .stream, []⟩)), .outside (.work 0)]

/-- The only worker waits, and some task awaits the future of its item. -/
def isServed (s : Running sampleConfig 1) : Bool :=
  (match s.shared.queueManager.workers 0 with
    | .waiting => true
    | _ => false)
    && s.tasks.any fun t => match t.rest with
      | .call (.handler (.await _)) _ => true
      | _ => false

/-- After the dispatch of the item its handler does not hang. -/
theorem sampleDispatch_progress :
  ∃ s, Running.Reached id .ascii sampleConfig .default 0 (n := 1) s ∧ isServed s = true
    ∧ NoneHangs s
  := by
  have hexec : ((exec (eventLoop id .ascii sampleConfig .default 1).step
      (Running.initial sampleConfig 1 0) (sampleRun.take 19)).bind fun s =>
        if s.running.isNone then
          exec (eventLoop id .ascii sampleConfig .default 1).step s sampleDispatch
        else none).any isServed = true := by
    decide +kernel
  obtain ⟨s', hs', hserved⟩ := (Option.any_eq_true _ _).mp hexec
  obtain ⟨s, hs, hdispatch⟩ := Option.bind_eq_some_iff.mp hs'
  split_ifs at hdispatch with hidle
  have hreached : Running.Reached id .ascii sampleConfig .default 0 s :=
    ⟨_, run_of_exec hs⟩
  have hrun := run_of_exec hdispatch
  have hwaiting : s'.shared.queueManager.workers 0 = .waiting := by
    have hplace := (Bool.and_eq_true_iff.mp hserved).1
    split at hplace
    · assumption
    · cases hplace
  refine ⟨s', hreached.trans ⟨_, hrun⟩, hserved, ?_⟩
  refine (reachable_progress hreached (Option.isNone_iff_eq_none.mp hidle) hrun ?_).2.2 ?_ ⟨0, ?_⟩
  · decide
  · intro w
    obtain rfl : w = 0 := Subsingleton.elim w 0
    exact .inl hwaiting
  · rw [hwaiting]
    simp

end OllamaQueueProxy
