import OllamaQueueProxy.Concurrency.Pool
import OllamaQueueProxy.Queue.Conservation

/-!
# The age of items that are dispatched

A worker computes the age of an item when it takes it, and compares it with the maximal wait of
its tier.  The item grows older before `dispatch_request` is entered, above all if `acquire` then
waits for the cap of the client.  The timed pool runs a pool under a clock that never goes back,
and records when items are taken and when `dispatch_request` is entered for them.

No item that was too old when it was taken is dispatched (`entered_fresh`); one may be too old
when it is dispatched (`not_entered_fresh`).
-/

open Transition

namespace OllamaQueueProxy

/-- An item for which `dispatch_request` was entered. -/
structure Entered where
  item : QueueItem Job
  /-- When the worker that took it read the clock. -/
  takenAt : ℚ
  enteredAt : ℚ

structure TimedPool (ρ ε : Type) (n : ℕ) where
  pool : Pool ρ ε n
  /-- When the last action ended. -/
  now : ℚ
  /-- When the workers that took the items that they execute read the clock. -/
  takenAt : Fin n → ℚ
  entered : List Entered

/-- An action, and the time at which it ends. -/
structure TimedAction (ρ ε : Type) (n : ℕ) where
  now : ℚ
  action : PoolAction ρ ε n

/-- The time that an action reads. -/
def PoolAction.time? {ρ ε : Type} {n : ℕ} : PoolAction ρ ε n → Option ℚ
  | .act (.work _ now) | .act (.finish _ now _) => some now
  | _ => none

/-- The item for which the worker is inside `dispatch_request`. -/
def Pool.dispatched? {ρ ε : Type} {n : ℕ} (p : Pool ρ ε n) (w : Fin n) :
    Option (QueueItem Job) :=
  match p.queue.workers w, p.phases w with
  | .executing item, .upstream _ => some item
  | _, _ => none

namespace TimedPool

variable {ρ ε : Type} {n : ℕ}

/-- The pool after `start_workers`, at the time `start`. -/
def initial (ρ ε : Type) (n : ℕ) (keys : List ApiKeyConfig) (start : ℚ) : TimedPool ρ ε n where
  pool := .initial ρ ε n keys
  now := start
  takenAt _ := start
  entered := []

/-- An action leads to the pool `p`, and ends at the time `now`. -/
def advance (s : TimedPool ρ ε n) (now : ℚ) (p : Pool ρ ε n) :
    PoolAction ρ ε n → TimedPool ρ ε n
  | .act (.work w readAt) => {
      pool := p
      now := now
      takenAt := Function.update s.takenAt w readAt
      entered := s.entered ++ ((p.dispatched? w).map fun item => ⟨item, readAt, now⟩).toList }
  | .enter w _ => { s with
      pool := p
      now := now
      entered := s.entered
        ++ ((p.dispatched? w).map fun item => ⟨item, s.takenAt w, now⟩).toList }
  | _ => { s with
      pool := p
      now := now }

/-- The state after an action; `none` if the action is not possible then. -/
def step (cfg : QueueConfig) (s : TimedPool ρ ε n) (a : TimedAction ρ ε n) :
    Option (TimedPool ρ ε n) :=
  if s.now ≤ a.now ∧ ∀ t ∈ a.action.time?, s.now ≤ t ∧ t ≤ a.now then
    (s.pool.step cfg a.action).map fun p => s.advance a.now p a.action
  else none

abbrev Step (cfg : QueueConfig) :
    TimedPool ρ ε n → TimedAction ρ ε n → TimedPool ρ ε n → Prop :=
  ofStep (step cfg)

/-- The age that is computed for the item at the time is at most the maximal wait of its
tier. -/
def Fresh (cfg : QueueConfig) (item : QueueItem Job) (time : ℚ) : Prop :=
  Binary64.sub time item.enqueueTime ≤ (cfg.tier item.tier).maxWait

/-- Every item that was dispatched was not too old when a worker took it. -/
structure EnteredFresh (cfg : QueueConfig) (s : TimedPool ρ ε n) : Prop where
  taken : ∀ e ∈ s.entered, Fresh cfg e.item e.takenAt ∧ e.takenAt ≤ e.enteredAt
  /-- It did not expire. -/
  unexpired : ∀ e ∈ s.entered, e.item ∉ s.pool.queue.expired

variable {cfg : QueueConfig} {s s' : TimedPool ρ ε n}

theorem step_inv {a : TimedAction ρ ε n} (h : Step cfg s a s') :
  s.now ≤ a.now ∧ (∀ t ∈ a.action.time?, s.now ≤ t ∧ t ≤ a.now)
    ∧ ∃ p, Pool.Step cfg s.pool a.action p ∧ s' = s.advance a.now p a.action
  := by
  simp only [Step, ofStep, step] at h
  split_ifs at h with hguard
  obtain ⟨p, hp, rfl⟩ := Option.map_eq_some_iff.mp h
  exact ⟨hguard.1, hguard.2, p, hp, rfl⟩

@[simp]
theorem advance_pool (s : TimedPool ρ ε n) (now : ℚ) (p : Pool ρ ε n)
    (a : PoolAction ρ ε n) :
  (s.advance now p a).pool = p
  := by
  unfold advance
  split <;> rfl

@[simp]
theorem advance_now (s : TimedPool ρ ε n) (now : ℚ) (p : Pool ρ ε n)
    (a : PoolAction ρ ε n) :
  (s.advance now p a).now = now
  := by
  unfold advance
  split <;> rfl

/-! ### The queue -/

/-- Every run of a timed pool is a run of its pool. -/
theorem Reachable.pool {t : TimedPool ρ ε n} (h : Reachable (Step cfg) s t) :
  Reachable (Pool.Step cfg) s.pool t.pool
  := by
  apply h.invariant (I := fun u => Reachable (Pool.Step cfg) s.pool u.pool) (Reachable.refl _)
  intro t a u ht hstep
  obtain ⟨-, -, p, hp, rfl⟩ := step_inv hstep
  rw [advance_pool]
  exact ht.step hp

theorem fresh_iff {item : QueueItem Job} {time : ℚ} :
  Fresh cfg item time ↔ PriorityQueueManager.stale cfg time item = false
  := by
  simp [Fresh, PriorityQueueManager.stale]

/-- What the times of the workers and of the dispatched items say. -/
structure Clocked (cfg : QueueConfig) (s : TimedPool ρ ε n) : Prop where
  worker : ∀ w item, s.pool.queue.workers w = .executing item →
    Fresh cfg item (s.takenAt w) ∧ s.takenAt w ≤ s.now
  entered : ∀ e ∈ s.entered, Fresh cfg e.item e.takenAt ∧ e.takenAt ≤ e.enteredAt
    ∧ e.item ∈ s.pool.queue.started

theorem started_of_executing {q : PriorityQueueManager Job ρ ε n} (h : q.Tracked) {w : Fin n}
    {item : QueueItem Job} (hw : q.workers w = .executing item) :
  item ∈ q.started
  := by
  rw [PriorityQueueManager.started, Station.served_eq h.run]
  apply Multiset.mem_add.mpr (.inl _)
  exact PriorityQueueManager.mem_held.mpr ⟨w, hw⟩

theorem executing_of_dispatched? {p : Pool ρ ε n} {w : Fin n} {item : QueueItem Job}
    (h : p.dispatched? w = some item) :
  p.queue.workers w = .executing item
  := by
  unfold Pool.dispatched? at h
  split at h
  · rename_i hw _
    obtain rfl := Option.some.inj h
    exact hw
  · cases h

/-- What was started or has expired remains so. -/
theorem started_le {q q' : PriorityQueueManager Job ρ ε n} {a : Action Job ρ ε n}
    (h : PriorityQueueManager.Step cfg q a q') :
  q.started ≤ q'.started ∧ q.expired ≤ q'.expired
  := by
  apply PriorityQueueManager.Step.invariant
    (I := fun u => q.started ≤ u.started ∧ q.expired ≤ u.expired) _ ⟨le_rfl, le_rfl⟩ h
  rintro t u ⟨hstarted, hexpired⟩ heffect
  obtain ⟨ms, haccounts⟩ := heffect.accounts
  constructor
  · apply hstarted.trans
    rw [PriorityQueueManager.started, PriorityQueueManager.started, haccounts.moves,
      Station.tally_append]
    exact Multiset.le_add_right _ _
  · apply hexpired.trans
    rw [PriorityQueueManager.expired, PriorityQueueManager.expired, haccounts.moves,
      Station.tally_append]
    exact Multiset.le_add_right _ _

/-- A worker that executes an item executed it before, or takes it by its turn when it is not
too old. -/
theorem executing_cases {p p' : Pool ρ ε n} {a : PoolAction ρ ε n}
    (h : Pool.Step cfg p a p') {v : Fin n} {item : QueueItem Job}
    (hv : p'.queue.workers v = .executing item) :
  (p.queue.workers v = .executing item ∧ ∀ now, a ≠ .act (.work v now))
    ∨ ∃ now, a = .act (.work v now) ∧ Fresh cfg item now
  := by
  cases a with
  | enter w c =>
      rw [h.enter_inv] at hv
      refine .inl ⟨hv, ?_⟩
      simp
  | act b =>
      have hqueue := h.act_inv
      cases b with
      | work w now =>
          have heffect := PriorityQueueManager.Step.work_inv hqueue
          obtain hbefore | ⟨now', t, rest, hsame, -, hfresh⟩ := heffect.executing hv
          · refine .inl ⟨hbefore, ?_⟩
            rintro now' hsame
            obtain ⟨rfl, rfl⟩ : w = v ∧ now = now' := by simpa using hsame
            cases heffect.ready.symm.trans hbefore
          · obtain ⟨rfl, rfl⟩ : w = v ∧ now = now' := by simpa using hsame
            exact .inr ⟨now, rfl, fresh_iff.mpr hfresh⟩
      | enqueue | finish | flush | pause | resume | cancel =>
          refine .inl ⟨PriorityQueueManager.Step.executing hqueue (by simp) hv, ?_⟩
          simp

theorem mem_entered {entered : List Entered} {found : Option (QueueItem Job)}
    {f : QueueItem Job → Entered} {e : Entered}
    (h : e ∈ entered ++ (found.map f).toList) :
  e ∈ entered ∨ ∃ item, found = some item ∧ e = f item
  := by
  obtain hold | hnew := List.mem_append.mp h
  · exact .inl hold
  · obtain ⟨item, hitem, rfl⟩ := Option.map_eq_some_iff.mp (Option.mem_toList.mp hnew)
    exact .inr ⟨item, hitem, rfl⟩

/-- What a worker executed before is as fresh as it was. -/
theorem Clocked.worker_of_le (h : Clocked cfg s) {time : ℚ} (hnow : s.now ≤ time) {v : Fin n}
    {item : QueueItem Job} (hv : s.pool.queue.workers v = .executing item) :
  Fresh cfg item (s.takenAt v) ∧ s.takenAt v ≤ time
  := by
  obtain ⟨hfresh, hle⟩ := h.worker v item hv
  exact ⟨hfresh, hle.trans hnow⟩

theorem Clocked.entered_of_step (h : Clocked cfg s) {a : PoolAction ρ ε n} {p : Pool ρ ε n}
    (hp : Pool.Step cfg s.pool a p) :
  ∀ e ∈ s.entered, Fresh cfg e.item e.takenAt ∧ e.takenAt ≤ e.enteredAt
    ∧ e.item ∈ p.queue.started
  := by
  intro e he
  obtain ⟨hfresh, hle, hstarted⟩ := h.entered e he
  refine ⟨hfresh, hle, ?_⟩
  obtain ⟨b, -, hb⟩ | hsame := Pool.Step.queue hp
  · exact Multiset.mem_of_le (started_le hb).1 hstarted
  · rwa [hsame]

/-- An item that waited for the cap was taken before. -/
theorem Clocked.enter (h : Clocked cfg s) {p : Pool ρ ε n} (htracked : p.queue.Tracked)
    {time : ℚ} (hnow : s.now ≤ time) {w : Fin n} {c : String}
    (hp : Pool.Step cfg s.pool (.enter w c) p) :
  Clocked cfg (s.advance time p (.enter w c))
  := by
  have hqueue := hp.enter_inv
  constructor
  · intro v item hv
    change p.queue.workers v = .executing item at hv
    rw [hqueue] at hv
    exact h.worker_of_le hnow hv
  · intro e he
    obtain he | ⟨item, hitem, rfl⟩ := mem_entered he
    · exact h.entered_of_step hp e he
    · have hw := executing_of_dispatched? hitem
      have hbefore := hw
      rw [hqueue] at hbefore
      obtain ⟨hfresh, hle⟩ := h.worker_of_le hnow hbefore
      exact ⟨hfresh, hle, started_of_executing htracked hw⟩

/-- The worker that has its turn takes an item that is not too old, and leaves the others alone. -/
theorem Clocked.work (h : Clocked cfg s) {p : Pool ρ ε n} (htracked : p.queue.Tracked)
    {readAt time : ℚ} (hread : s.now ≤ readAt) (hle : readAt ≤ time) {w : Fin n}
    (hp : Pool.Step cfg s.pool (.act (.work w readAt)) p) :
  Clocked cfg (s.advance time p (.act (.work w readAt)))
  := by
  have htaken {item : QueueItem Job} (hw : p.queue.workers w = .executing item) :
      Fresh cfg item readAt := by
    obtain ⟨-, hno⟩ | ⟨readAt', hsame, hfresh⟩ := executing_cases hp hw
    · exact absurd rfl (hno readAt)
    · obtain rfl : readAt = readAt' := by simpa using hsame
      exact hfresh
  constructor
  · intro v item hv
    rw [advance_pool] at hv
    by_cases hvw : v = w
    · subst hvw
      have hnew : (s.advance time p (.act (.work v readAt))).takenAt v = readAt :=
        Function.update_self _ _ _
      rw [hnew, advance_now]
      exact ⟨htaken hv, hle⟩
    · have hsame : (s.advance time p (.act (.work w readAt))).takenAt v = s.takenAt v :=
        Function.update_of_ne hvw _ _
      rw [hsame, advance_now]
      obtain ⟨hbefore, -⟩ | ⟨readAt', hno, -⟩ := executing_cases hp hv
      · exact h.worker_of_le (hread.trans hle) hbefore
      · obtain ⟨rfl, -⟩ : w = v ∧ readAt = readAt' := by simpa using hno
        exact absurd rfl hvw
  · intro e he
    obtain he | ⟨item, hitem, rfl⟩ := mem_entered he
    · exact h.entered_of_step hp e he
    · have hw := executing_of_dispatched? hitem
      exact ⟨htaken hw, hle, started_of_executing htracked hw⟩

theorem Clocked.step {a : TimedAction ρ ε n} (h : Clocked cfg s)
    (htracked : s'.pool.queue.Tracked) (hstep : Step cfg s a s') :
  Clocked cfg s'
  := by
  obtain ⟨hnow, htime, p, hp, rfl⟩ := step_inv hstep
  obtain ⟨time, action⟩ := a
  rw [advance_pool] at htracked
  cases action with
  | enter w c => exact h.enter htracked hnow hp
  | act b =>
      cases b with
      | work w readAt =>
          obtain ⟨hread, hle⟩ := htime readAt rfl
          exact h.work htracked hread hle hp
      | enqueue | finish | flush | pause | resume | cancel =>
          refine ⟨?_, h.entered_of_step hp⟩
          intro v item hv
          obtain ⟨hbefore, -⟩ | ⟨now', hno, -⟩ := executing_cases hp hv
          · exact h.worker_of_le hnow hbefore
          · simp at hno

/-! ### Runs -/

variable {keys : List ApiKeyConfig} {start : ℚ}

theorem tracked_of_reachable (h : Reachable (Step cfg) (initial ρ ε n keys start) s) :
  s.pool.queue.Tracked
  := PriorityQueueManager.Reachable.tracked (Pool.Reachable.queue (Reachable.pool h))

theorem enteredFresh_of_reachable (h : Reachable (Step cfg) (initial ρ ε n keys start) s) :
  EnteredFresh cfg s
  := by
  have hclocked : Clocked cfg s
      ∧ Reachable (Step cfg) (initial ρ ε n keys start) s := by
    apply h.invariant (I := fun t => Clocked cfg t
      ∧ Reachable (Step cfg) (initial ρ ε n keys start) t)
    · refine ⟨⟨?_, List.forall_mem_nil _⟩, Reachable.refl _⟩
      intro w item hw
      cases hw
    · rintro t a u ⟨ht, hreach⟩ hstep
      have hu := hreach.step hstep
      exact ⟨ht.step (tracked_of_reachable hu) hstep, hu⟩
  have htracked := tracked_of_reachable h
  constructor
  · intro e he
    obtain ⟨hfresh, hle, -⟩ := hclocked.1.entered e he
    exact ⟨hfresh, hle⟩
  · intro e he
    exact (htracked.unstarted (hclocked.1.entered e he).2.2).2

/-- What has expired remains so, and a future that is done keeps its result. -/
theorem queue_of_reachable (h : Reachable (Step cfg) s s') :
  s.pool.queue.expired ≤ s'.pool.queue.expired
    ∧ ∀ k, (s.pool.queue.futures k).done = true →
      s'.pool.queue.futures k = s.pool.queue.futures k
  := by
  apply h.invariant (I := fun u => s.pool.queue.expired ≤ u.pool.queue.expired
    ∧ ∀ k, (s.pool.queue.futures k).done = true →
      u.pool.queue.futures k = s.pool.queue.futures k)
  · exact ⟨le_rfl, fun _ _ => rfl⟩
  · rintro t a u ⟨hexpired, hfutures⟩ hstep
    obtain ⟨-, -, p, hp, rfl⟩ := step_inv hstep
    rw [advance_pool]
    obtain ⟨b, -, hb⟩ | hsame := Pool.Step.queue hp
    · use hexpired.trans (started_le hb).2
      intro k hk
      rw [← hfutures k hk]
      apply PriorityQueueManager.Step.keeps_done hb
      rwa [hfutures k hk]
    · rw [hsame]
      exact ⟨hexpired, hfutures⟩

/-- What becomes of an item that is too old when a worker takes it. -/
structure Expires (cfg : QueueConfig) (s s' : TimedPool ρ ε n) (item : QueueItem Job) :
    Prop where
  expired : item ∈ s'.pool.queue.expired
  undispatched : ∀ u, Reachable (Step cfg) s' u → ∀ e ∈ u.entered, e.item ≠ item
  resolved : (s.pool.queue.futures item.future).done = false →
    ∀ u, Reachable (Step cfg) s' u →
      u.pool.queue.futures item.future = .exception (.requestExpired item.tier item.requestId)

/-- In every run the items that are dispatched were not too old when a worker took them, and
those that were expire and are never dispatched. -/
theorem entered_fresh (h : Reachable (Step cfg) (initial ρ ε n keys start) s) :
  EnteredFresh cfg s ∧ ∀ w readAt now t item rest s',
    s.pool.queue.getNowait = some (t, item, rest) → ¬ Fresh cfg item readAt →
      Step cfg s ⟨now, .act (.work w readAt)⟩ s' → Expires cfg s s' item
  := by
  use enteredFresh_of_reachable h
  intro w readAt now t item rest s' hnext hold hstep
  have hs' := h.step hstep
  obtain ⟨-, -, p, hp, rfl⟩ := step_inv hstep
  have heffect := PriorityQueueManager.Step.work_inv (Pool.Step.act_inv hp)
  rw [fresh_iff, Bool.not_eq_false] at hold
  obtain ⟨hexpired, hresolved⟩ := heffect.expires hnext hold
  have hstays (u : TimedPool ρ ε n)
      (hu : Reachable (Step cfg) (s.advance now p (.act (.work w readAt))) u) :=
    queue_of_reachable hu
  constructor
  · rw [advance_pool]
    exact hexpired
  · rintro u hu e he rfl
    have hfresh := enteredFresh_of_reachable (hs'.trans hu)
    apply hfresh.unexpired e he
    apply Multiset.mem_of_le (hstays u hu).1
    rw [advance_pool]
    exact hexpired
  · intro hpending u hu
    have hfuture := hresolved hpending
    rw [← hfuture, (hstays u hu).2, advance_pool]
    rw [advance_pool, hfuture]
    rfl

/-- A worker takes an item of the capped client while another is dispatched, and waits for its
cap until the first has returned. -/
def parkedTooLong : List (TimedAction Unit Unit 2) :=
  [⟨0, .act (.enqueue ⟨.low, 0, "a", ⟨"batch", 0⟩, 5⟩)⟩,
    ⟨0, .act (.enqueue ⟨.low, 0, "b", ⟨"batch", 0⟩, 5⟩)⟩, ⟨1, .act (.work 0 1)⟩,
    ⟨1, .act (.work 1 1)⟩, ⟨900, .act (.finish 0 900 (.ok ()))⟩, ⟨900, .enter 1 "batch"⟩]

/-- In the run above an item is dispatched when it is too old. -/
theorem not_entered_fresh :
  ∃ s, Reachable (Step .default) (initial Unit Unit 2 Pool.batchAndChat 0) s
    ∧ ∃ e ∈ s.entered,
      (QueueConfig.default.tier e.item.tier).maxWait < e.enteredAt - e.item.enqueueTime
  := by
  have hexec : (exec (step .default) (initial Unit Unit 2 Pool.batchAndChat 0)
      parkedTooLong).any (fun s => s.entered.any fun e =>
        (QueueConfig.default.tier e.item.tier).maxWait < e.enteredAt - e.item.enqueueTime)
        = true := by
    decide +kernel
  obtain ⟨s, hs, hold⟩ := (Option.any_eq_true _ _).mp hexec
  obtain ⟨e, he, hlate⟩ := List.any_eq_true.mp hold
  exact ⟨s, ⟨_, run_of_exec hs⟩, e, he, of_decide_eq_true hlate⟩

/-- The only item of the queue expires when a worker takes it too late. -/
theorem entered_fresh_late :
  ∃ s s' item, Reachable (Step .default) (initial Unit Unit 2 Pool.batchAndChat 0) s
    ∧ Step .default s ⟨601, .act (.work 0 601)⟩ s' ∧ Expires .default s s' item
  := by
  have hexec : (exec (step .default) (initial Unit Unit 2 Pool.batchAndChat 0)
      (parkedTooLong.take 1)).any (fun s =>
        (s.step .default ⟨601, .act (.work 0 601)⟩).isSome
          && s.pool.queue.getNowait.any fun next =>
            PriorityQueueManager.stale .default 601 next.2.1) = true := by
    decide +kernel
  obtain ⟨s, hs, htest⟩ := (Option.any_eq_true _ _).mp hexec
  obtain ⟨hstep, hlate⟩ := Bool.and_eq_true_iff.mp htest
  obtain ⟨s', hs'⟩ := Option.isSome_iff_exists.mp hstep
  obtain ⟨⟨t, item, rest⟩, hnext, hstale⟩ := (Option.any_eq_true _ _).mp hlate
  have hreachable : Reachable (Step .default) (initial Unit Unit 2 Pool.batchAndChat 0) s :=
    ⟨_, run_of_exec hs⟩
  use s, s', item, hreachable, hs'
  apply (entered_fresh hreachable).2 0 601 601 t item rest s' hnext _ hs'
  rw [fresh_iff, show PriorityQueueManager.stale .default 601 item = true from hstale]
  exact Bool.noConfusion

end TimedPool

end OllamaQueueProxy
