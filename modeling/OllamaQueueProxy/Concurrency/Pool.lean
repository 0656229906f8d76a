import OllamaQueueProxy.Concurrency.Permits
import OllamaQueueProxy.Queue.Workers

/-!
# The worker pool and the caps of the clients

The `dispatch_fn` of an item first calls `acquire` for its client and only then
`dispatch_request`, so a worker that takes an item of a client at its cap waits inside the
pool for a permit of that client.  The pool is a queue manager whose workers call a
concurrency manager; every run of it is a run of the queue manager
(`Reachable.queue`).

As long as no worker takes an item for which `acquire` has to wait, and none is lost, no
client waits because of the cap of another (`always_capsApart`).
-/

open Transition

namespace OllamaQueueProxy

/-- What the `dispatch_fn` of an item dispatches. -/
structure Job where
  clientId : Option String
  reentries : ℤ

/-- Where the `dispatch_fn` that a worker executes is. -/
inductive Phase (n : ℕ) where
  /-- It waits for the cap of its client. -/
  | acquiring
  /-- It is inside `dispatch_request`, after the call of `acquire`. -/
  | upstream (call : Holder (Fin n))

/-- The queue, the concurrency manager, and the phases of the workers that execute an
item. -/
structure Pool (ρ ε : Type) (n : ℕ) where
  queue : PriorityQueueManager Job ρ ε n
  concurrency : ClientConcurrencyManager (Fin n)
  phases : Fin n → Phase n

/-- The actions on a pool. -/
inductive PoolAction (ρ ε : Type) (n : ℕ) where
  /-- An action on the queue. -/
  | act (a : Action Job ρ ε n)
  /-- A worker that waits for the cap of client `c` was handed a permit and runs. -/
  | enter (w : Fin n) (c : String)

namespace Pool

variable {ρ ε : Type} {n : ℕ}

/-- The pool after `start_workers`, for the configured keys. -/
def initial (ρ ε : Type) (n : ℕ) (keys : List ApiKeyConfig) : Pool ρ ε n where
  queue := .initial Job ρ ε n
  concurrency := .new keys
  phases _ := .acquiring

/-- The start of the `dispatch_fn` of the item that worker `w` took, if it took one to
dispatch. -/
def beginDispatch (s : Pool ρ ε n) (w : Fin n) : Pool ρ ε n :=
  match s.queue.workers w with
  | .executing item =>
      let acquired := s.concurrency.acquire w item.dispatchFn.clientId item.dispatchFn.reentries
      { s with
        concurrency := acquired.1
        phases := Function.update s.phases w (match acquired.2 with
          | none => .acquiring
          | some call => .upstream call) }
  | _ => s

/-- The state after an action; `none` if the action is not possible. -/
def step (cfg : QueueConfig) (s : Pool ρ ε n) : PoolAction ρ ε n → Option (Pool ρ ε n)
  | .act (.work w now) => (s.queue.step cfg (.work w now)).map fun q =>
      beginDispatch { s with queue := q } w
  | .act (.finish w now outcome) =>
      match s.phases w with
      | .acquiring => none
      | .upstream call => (s.queue.step cfg (.finish w now outcome)).map fun q =>
          { s with
            queue := q
            concurrency := s.concurrency.release call }
  | .act a => (s.queue.step cfg a).map fun q => { s with queue := q }
  | .enter w c =>
      match s.queue.workers w with
      | .executing _ => (s.concurrency.step (.resume c w)).map fun m =>
          { s with
            concurrency := m
            phases := Function.update s.phases w (.upstream ⟨w, c, .permit⟩) }
      | _ => none

/-- The transitions of a pool. -/
abbrev Step (cfg : QueueConfig) : Pool ρ ε n → PoolAction ρ ε n → Pool ρ ε n → Prop :=
  ofStep (step cfg)

/-- The worker is idle and free to take an item. -/
def Idle (s : Pool ρ ε n) (w : Fin n) : Prop :=
  s.queue.workers w = .waiting ∨ s.queue.workers w = .ready

/-- The worker is inside `dispatch_request`. -/
def InDispatch (s : Pool ρ ε n) (w : Fin n) : Prop :=
  ∃ item call, s.queue.workers w = .executing item ∧ s.phases w = .upstream call

/-- If an item of a client waits that is not at its cap, some worker is free to take it or
all workers are inside `dispatch_request`. -/
def CapsApart (s : Pool ρ ε n) : Prop :=
  ∀ t, ∀ item ∈ s.queue.queues t, s.concurrency.isAtCap item.dispatchFn.clientId = false →
    (∃ w, s.Idle w) ∨ ∀ w, s.InDispatch w

/-- A worker takes no item for which it would have to wait for the cap of its client, and
no expired item whose future is done. -/
def TakesNoBlocked (cfg : QueueConfig) (s : Pool ρ ε n) : PoolAction ρ ε n → Prop
  | .act (.work _ now) => ∀ t item rest, s.queue.getNowait = some (t, item, rest) →
      if PriorityQueueManager.stale cfg now item then
        (s.queue.futures item.future).done = false
      else s.concurrency.wouldBlock item.dispatchFn.clientId item.dispatchFn.reentries = false
  | _ => True

/-! ### The queue of a pool -/

variable {cfg : QueueConfig} {s s' : Pool ρ ε n}

@[simp]
theorem beginDispatch_queue (s : Pool ρ ε n) (w : Fin n) :
  (s.beginDispatch w).queue = s.queue
  := by
  unfold beginDispatch
  split <;> rfl

/-- An action on the queue of a pool is that action on it. -/
theorem Step.act_inv {b : Action Job ρ ε n} (h : Step cfg s (.act b) s') :
  PriorityQueueManager.Step cfg s.queue b s'.queue
  := by
  cases b with
  | work w now =>
      obtain ⟨q, hq, rfl⟩ := Option.map_eq_some_iff.mp h
      rw [beginDispatch_queue]
      apply hq
  | finish w now outcome =>
      simp only [Step, ofStep, step] at h
      split at h
      · cases h
      · obtain ⟨q, hq, rfl⟩ := Option.map_eq_some_iff.mp h
        apply hq
  | enqueue | flush | pause | resume | cancel =>
      simp only [Step, ofStep, step] at h
      obtain ⟨q, hq, rfl⟩ := Option.map_eq_some_iff.mp h
      exact hq

/-- A worker that is handed a permit leaves the queue alone. -/
theorem Step.enter_inv {w : Fin n} {c : String} (h : Step cfg s (.enter w c) s') :
  s'.queue = s.queue
  := by
  simp only [Step, ofStep, step] at h
  split at h
  · obtain ⟨m, hm, rfl⟩ := Option.map_eq_some_iff.mp h
    rfl
  · cases h

/-- An action on a pool is the action on its queue, or leaves the queue alone. -/
theorem Step.queue {a : PoolAction ρ ε n} (h : Step cfg s a s') :
  (∃ b, a = .act b ∧ PriorityQueueManager.Step cfg s.queue b s'.queue)
    ∨ s'.queue = s.queue
  := by
  cases a with
  | act b => exact .inl ⟨b, rfl, h.act_inv⟩
  | enter w c => exact .inr h.enter_inv

/-- Every run of a pool is a run of its queue. -/
theorem Reachable.queue {keys : List ApiKeyConfig}
    (h : Reachable (Step cfg) (initial ρ ε n keys) s) :
  Reachable (PriorityQueueManager.Step cfg) (.initial Job ρ ε n) s.queue
  := by
  apply Reachable.invariant h
    (I := fun u => Reachable (PriorityQueueManager.Step cfg) (.initial Job ρ ε n) u.queue)
  · apply Reachable.refl
  · intro t a u ht hstep
    rcases Step.queue hstep with ⟨b, -, hb⟩ | hsame
    · apply ht.step hb
    · rw [hsame]
      apply ht

/-! ### The phases of the workers -/

/-- No worker is lost, and those that execute an item are inside `dispatch_request`. -/
structure Unparked (s : Pool ρ ε n) : Prop where
  healthy : s.queue.Healthy
  dispatching : ∀ w item, s.queue.workers w = .executing item → s.InDispatch w

/-- Without parked workers the caps of the clients are apart. -/
theorem Unparked.capsApart (h : Unparked s) :
  CapsApart s
  := by
  intro t item _ _
  by_cases hidle : ∃ w, s.Idle w
  · left
    apply hidle
  · right
    intro w
    have halive := h.healthy.alive w
    have hbusy : ¬ s.Idle w := fun hw => hidle ⟨w, hw⟩
    cases hw : s.queue.workers w with
    | waiting => cases hbusy (Or.inl hw)
    | ready => cases hbusy (Or.inr hw)
    | dead => cases halive hw
    | executing item => exact h.dispatching w item hw

theorem beginDispatch_phases_of_ne {v w : Fin n} (hne : v ≠ w) (s : Pool ρ ε n) :
  (s.beginDispatch w).phases v = s.phases v
  := by
  unfold beginDispatch
  split
  · apply Function.update_of_ne hne
  · rfl

/-- The `dispatch_fn` of an item goes on to `dispatch_request` exactly when `acquire` need
not wait. -/
theorem beginDispatch_inDispatch {w : Fin n} {item : QueueItem Job}
    (hw : s.queue.workers w = .executing item) :
  (s.beginDispatch w).InDispatch w
    ↔ s.concurrency.wouldBlock item.dispatchFn.clientId item.dispatchFn.reentries = false
  := by
  have hblock := s.concurrency.acquire_eq_none_iff w item.dispatchFn.clientId
    item.dispatchFn.reentries
  have hphase : (s.beginDispatch w).phases w = match (s.concurrency.acquire w
      item.dispatchFn.clientId item.dispatchFn.reentries).2 with
      | none => .acquiring
      | some call => .upstream call := by
    simp [beginDispatch, hw]
  rw [← Bool.not_eq_true, ← hblock]
  constructor
  · rintro ⟨i, call, -, hcall⟩ hnone
    rw [hphase, hnone] at hcall
    cases hcall
  · intro hsome
    obtain ⟨call, hcall⟩ := Option.ne_none_iff_exists'.mp hsome
    use item, call
    rw [beginDispatch_queue, hphase, hcall]
    use hw

namespace Unparked

/-- A worker that takes a turn stays out of the way exactly when it takes no blocked item. -/
theorem work_iff {w : Fin n} {now : ℚ} (h : Unparked s)
    (hstep : Step cfg s (.act (.work w now)) s') :
  Unparked s' ↔ TakesNoBlocked cfg s (.act (.work w now))
  := by
  obtain ⟨q, hq, rfl⟩ := Option.map_eq_some_iff.mp hstep
  have heffect := PriorityQueueManager.Step.work_inv hq
  have hhealthy := h.healthy.step_iff hq
  constructor
  · intro h' t item rest hnext
    have hpending := hhealthy.mp (by simpa using h'.healthy) t item rest hnext
    split_ifs with hstale
    · apply hpending hstale
    · have hw := heffect.executes hnext (by simpa using hstale)
      apply (beginDispatch_inDispatch (s := { s with queue := q }) hw).mp
      apply h'.dispatching w item
      rw [beginDispatch_queue]
      apply hw
  · intro hok
    constructor
    · rw [beginDispatch_queue]
      apply hhealthy.mpr
      intro t item rest hnext hstale
      have htaken := hok t item rest hnext
      rw [if_pos hstale] at htaken
      apply htaken
    · intro v item hv
      rw [beginDispatch_queue] at hv
      by_cases hvw : v = w
      · subst hvw
        rw [beginDispatch_inDispatch (s := { s with queue := q }) hv]
        rcases heffect.executing hv with hbefore | ⟨now', t, rest, ha, hnext, hfresh⟩
        · rw [heffect.ready] at hbefore
          cases hbefore
        · obtain rfl : now = now' := by simpa using ha
          have htaken := hok t item rest hnext
          rw [hfresh, if_neg Bool.false_ne_true] at htaken
          apply htaken
      · rcases heffect.executing hv with hbefore | ⟨_, _, _, ha, -⟩
        · obtain ⟨i, call, hi, hcall⟩ := h.dispatching v item hbefore
          use item, call
          rw [beginDispatch_queue, beginDispatch_phases_of_ne hvw]
          use hv, hcall
        · cases ha
          cases hvw rfl

/-- An action other than a turn of a worker. -/
theorem act {a : Action Job ρ ε n} (ha : ∀ w now, a ≠ .work w now) (h : Unparked s)
    (hstep : PriorityQueueManager.Step cfg s.queue a s'.queue) (hphases : s'.phases = s.phases) :
  Unparked s'
  := by
  constructor
  · apply (h.healthy.step_iff hstep).mpr
    cases a with
    | work w now => cases ha w now rfl
    | enqueue | finish | flush | pause | resume | cancel => trivial
  · intro w item hw
    have hbefore := PriorityQueueManager.Step.executing hstep ha hw
    obtain ⟨i, call, -, hcall⟩ := h.dispatching w item hbefore
    use item, call, hw
    rw [hphases]
    apply hcall

theorem step_iff {a : PoolAction ρ ε n} (h : Unparked s) (hstep : Step cfg s a s') :
  Unparked s' ↔ TakesNoBlocked cfg s a
  := by
  cases a with
  | act b =>
      cases b with
      | work w now => exact h.work_iff hstep
      | finish w now outcome =>
          refine ⟨fun _ => trivial, fun _ => ?_⟩
          simp only [Step, ofStep, step] at hstep
          split at hstep
          · cases hstep
          · obtain ⟨q, hq, rfl⟩ := Option.map_eq_some_iff.mp hstep
            refine h.act (a := .finish w now outcome) (by simp) hq rfl
      | enqueue | flush | pause | resume | cancel =>
          refine ⟨fun _ => trivial, fun _ => ?_⟩
          simp only [Step, ofStep, step] at hstep
          obtain ⟨q, hq, rfl⟩ := Option.map_eq_some_iff.mp hstep
          exact h.act (by simp) hq rfl
  | enter w c =>
      refine ⟨fun _ => trivial, fun _ => ?_⟩
      simp only [Step, ofStep, step] at hstep
      split at hstep
      · obtain ⟨m, hm, rfl⟩ := Option.map_eq_some_iff.mp hstep
        use h.healthy
        intro v item hv
        by_cases hvw : v = w
        · subst hvw
          use item, ⟨v, c, .permit⟩, hv
          apply Function.update_self
        · obtain ⟨i, call, hi, hcall⟩ := h.dispatching v item hv
          use item, call, hv
          simpa [hvw] using hcall
      · cases hstep

end Unparked

theorem Unparked.initial (keys : List ApiKeyConfig) :
  Unparked (initial ρ ε n keys)
  := by
  constructor
  · apply PriorityQueueManager.Healthy.initial
  · intro w item hw
    simp [Pool.initial, PriorityQueueManager.initial] at hw

/-- In all states of a run no worker is lost or waits for the cap of a client exactly when
no worker takes an item for which it would have to, or an expired one whose future is
done. -/
theorem always_unparked_iff (keys : List ApiKeyConfig) (as : List (PoolAction ρ ε n)) :
  Always (Step cfg) (Pool.initial ρ ε n keys) as Unparked
    ↔ AllSteps (Step cfg) (Pool.initial ρ ε n keys) as (TakesNoBlocked cfg)
  := always_iff_allSteps (I := fun _ => True) trivial (Unparked.initial keys)
    (fun _ _ _ => trivial) (fun _ h hstep => h.step_iff hstep)

/-- When no worker takes an item for which it would have to wait for the cap of its client,
nor an expired one whose future is done, no client waits because of the cap of another. -/
theorem always_capsApart (keys : List ApiKeyConfig) (as : List (PoolAction ρ ε n))
    (h : AllSteps (Step cfg) (Pool.initial ρ ε n keys) as (TakesNoBlocked cfg)) :
  Always (Step cfg) (Pool.initial ρ ε n keys) as CapsApart
  := by
  intro bs t hbs hrun
  apply Unparked.capsApart
  apply (always_unparked_iff keys as).mpr h bs t hbs hrun

/-- A key whose client may have one request upstream at a time, and one without a cap. -/
def batchAndChat : List ApiKeyConfig :=
  [⟨"k1", "batch", .low, .inference, 1⟩, ⟨"k2", "chat", .high, .inference, 0⟩]

/-- Two workers take an item of each client. -/
def oneOfEach : List (PoolAction Unit Unit 2) :=
  [.act (.enqueue ⟨.low, 0, "a", ⟨"batch", 0⟩, 5⟩), .act (.enqueue ⟨.high, 0, "c", ⟨"chat", 0⟩, 5⟩),
    .act (.work 0 1), .act (.work 1 1), .act (.finish 0 2 (.ok ()))]

/-- The test that an action takes no blocked item. -/
def takesNoBlocked (cfg : QueueConfig) (s : Pool ρ ε n) : PoolAction ρ ε n → Bool
  | .act (.work _ now) => s.queue.getNowait.all fun (_, item, _) =>
      if PriorityQueueManager.stale cfg now item then !(s.queue.futures item.future).done
      else !s.concurrency.wouldBlock item.dispatchFn.clientId item.dispatchFn.reentries
  | _ => true

theorem takesNoBlocked_sound (a : PoolAction ρ ε n) (h : takesNoBlocked cfg s a = true) :
  TakesNoBlocked cfg s a
  := by
  cases a with
  | enter => trivial
  | act b =>
      cases b with
      | work w now =>
          intro t item rest hnext
          rw [takesNoBlocked, hnext, Option.all_some] at h
          split_ifs with hstale
          · simpa [hstale] using h
          · simpa [hstale] using h
      | enqueue | finish | flush | pause | resume | cancel => trivial

theorem oneOfEach_capsApart :
  Always (Step .default) (Pool.initial Unit Unit 2 batchAndChat) oneOfEach CapsApart
  := by
  apply always_capsApart
  refine allSteps_of_checkSteps (b := takesNoBlocked .default) ?_ ?_
  · decide +kernel
  · intro s a h
    apply takesNoBlocked_sound a h

/-- Two workers take an item each of the capped client; then one of the other client
arrives. -/
def batchThenChat : List (PoolAction Unit Unit 2) :=
  [.act (.enqueue ⟨.low, 0, "a", ⟨"batch", 0⟩, 5⟩), .act (.enqueue ⟨.low, 0, "b", ⟨"batch", 0⟩, 5⟩),
    .act (.work 0 1), .act (.work 1 1), .act (.enqueue ⟨.high, 2, "c", ⟨"chat", 0⟩, 5⟩)]

/-- An item of a client that is not at its cap waits. -/
def hasWaiting (s : Pool ρ ε n) : Bool :=
  Tier.all.any fun t => (s.queue.queues t).any fun item =>
    s.concurrency.isAtCap item.dispatchFn.clientId == false

/-- The worker executes an item. -/
def isBusy (s : Pool ρ ε n) (w : Fin n) : Bool :=
  match s.queue.workers w with
  | .executing _ => true
  | _ => false

/-- The phase of the worker is that in which it waits for the cap of a client. -/
def isParked (s : Pool ρ ε n) (w : Fin n) : Bool :=
  match s.phases w with
  | .acquiring => true
  | _ => false

theorem not_idle_of_isBusy {w : Fin n} (h : s.isBusy w = true) :
  ¬ s.Idle w
  := by
  rintro (hw | hw) <;> simp [isBusy, hw] at h

theorem not_inDispatch_of_isParked {w : Fin n} (h : s.isParked w = true) :
  ¬ s.InDispatch w
  := by
  rintro ⟨item, call, -, hcall⟩
  simp [isParked, hcall] at h

/-- In the run above worker 1 waits for the cap of `batch` while the item of `chat` waits
for a worker. -/
theorem not_always_capsApart :
  ¬ Always (Step .default) (Pool.initial Unit Unit 2 batchAndChat) batchThenChat CapsApart
  := by
  apply not_always_of_exec
    (b := fun s => s.hasWaiting && (s.isBusy 0 && s.isBusy 1 && s.isParked 1))
  · decide +kernel
  · intro s hblocked h
    obtain ⟨hwaiting, hworkers⟩ := Bool.and_eq_true_iff.mp hblocked
    obtain ⟨hbusy, hparked⟩ := Bool.and_eq_true_iff.mp hworkers
    obtain ⟨hzero, hone⟩ := Bool.and_eq_true_iff.mp hbusy
    obtain ⟨t, -, htier⟩ := List.any_eq_true.mp hwaiting
    obtain ⟨item, hitem, hcap⟩ := List.any_eq_true.mp htier
    rcases h t item hitem (by simpa using hcap) with hidle | hdispatch
    · rcases Fin.exists_fin_two.mp hidle with hidle | hidle
      · apply not_idle_of_isBusy hzero hidle
      · apply not_idle_of_isBusy hone hidle
    · apply not_inDispatch_of_isParked hparked (hdispatch 1)

end Pool

end OllamaQueueProxy
