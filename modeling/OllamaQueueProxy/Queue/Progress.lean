import OllamaQueueProxy.Queue.Shutdown
import OllamaQueueProxy.Queue.Wakeup

/-!
# Progress of the workers

Every turn of a worker, and every end of a dispatch, leaves the workers with less to do
(`step_rank_lt`): without new items, flushes or cancellations they come to rest after a bounded
number of steps.  As long as one of them is alive they do not rest before every admitted item
has its future resolved (`resolved_of_resting`).
-/

open Transition

namespace OllamaQueueProxy

/-- The action is one of a worker. -/
def Action.ofWorker {δ ρ ε : Type} {n : ℕ} : Action δ ρ ε n → Bool
  | .work _ _ | .finish _ _ _ => true
  | _ => false

/-- How many steps a worker may still take without taking an item. -/
def Worker.rank {δ : Type} : Worker δ → ℕ
  | .waiting | .dead => 0
  | .ready => 1
  | .executing _ => 2

namespace PriorityQueueManager

variable {δ ρ ε : Type} {n : ℕ} {cfg : QueueConfig} {s s' : PriorityQueueManager δ ρ ε n}

/-- How much the workers still have to do: for each item its turn, the end of its dispatch and
the next turn of the worker. -/
def rank (s : PriorityQueueManager δ ρ ε n) : ℕ :=
  3 * s.waitingCount + ∑ w, (s.workers w).rank

/-- No worker can take a step. -/
def Resting (s : PriorityQueueManager δ ρ ε n) : Prop :=
  ∀ w, s.workers w = .waiting ∨ s.workers w = .dead

/-- A worker that takes at most one item and comes to be in a place of a lower rank. -/
theorem rank_lt_of_turn {w : Fin n} {x : Worker δ} {taken : ℕ}
    (hworkers : s'.workers = Function.update s.workers w x)
    (hcount : s'.waitingCount + taken = s.waitingCount)
    (hrank : x.rank < (s.workers w).rank + 3 * taken) :
  s'.rank < s.rank
  := by
  have hsum := Tally.sum_update Worker.rank s.workers w x
  rw [rank, rank, hworkers]
  omega

/-- An item is taken off a queue. -/
theorem waitingCount_remove {t : Tier} {item : QueueItem δ} {rest : List (QueueItem δ)}
    (hnext : s.getNowait = some (t, item, rest))
    (h : s'.queues = Function.update s.queues t rest) :
  s'.waitingCount + 1 = s.waitingCount
  := by
  have hsum := Tally.sum_update List.length s.queues t rest
  rw [(getNowait_eq hnext).1, List.length_cons] at hsum
  rw [waitingCount, waitingCount, h]
  omega

theorem waitingCount_congr (h : s'.queues = s.queues) :
  s'.waitingCount + 0 = s.waitingCount
  := by
  rw [waitingCount, waitingCount, h, add_zero]

/-- A worker that goes back to the top of its loop is ready or waits. -/
theorem rank_loopTop_le (b : Bool) :
  (if b = true then Worker.ready else (Worker.waiting : Worker δ)).rank ≤ 1
  := by
  cases b
  · exact Nat.zero_le 1
  · exact le_rfl

/-- A step of a worker leaves less to do. -/
theorem Effect.rank_lt {a : Action δ ρ ε n} (ha : a.ofWorker = true)
    (heffect : Effect cfg a s s') :
  s'.rank < s.rank
  := by
  cases heffect with
  | note | fire | createFuture | accept | drop | pause | resume | cancel => cases ha
  | @idle _ w now hready hempty =>
      refine rank_lt_of_turn (w := w) (x := .waiting) rfl (waitingCount_congr rfl) ?_
      rw [hready]
      exact Nat.zero_lt_one
  | @start _ w now t item rest hready hpermit hnext hfresh =>
      refine rank_lt_of_turn (w := w) rfl (waitingCount_remove hnext rfl) ?_
      rw [hready]
      simp [Worker.rank]
  | @expire _ w now t item rest hready hpermit hnext hstale hpending =>
      refine rank_lt_of_turn (settle_workers _ w)
        (waitingCount_remove hnext (settle_queues _ w)) ?_
      exact (rank_loopTop_le _).trans_lt (by omega)
  | @crash _ w now t item rest hready hpermit hnext hstale hdone =>
      refine rank_lt_of_turn (w := w) rfl (waitingCount_remove hnext rfl) ?_
      exact Nat.lt_add_left _ (by simp [Worker.rank])
  | @complete _ w now r item f hexecuting hf hsame =>
      refine rank_lt_of_turn (settle_workers _ w) (waitingCount_congr (settle_queues _ w)) ?_
      rw [hexecuting]
      exact (rank_loopTop_le _).trans_lt (by simp [Worker.rank])
  | @fail _ w now e item f hexecuting hf hsame =>
      refine rank_lt_of_turn (settle_workers _ w) (waitingCount_congr (settle_queues _ w)) ?_
      rw [hexecuting]
      exact (rank_loopTop_le _).trans_lt (by simp [Worker.rank])

theorem step_rank_lt {a : Action δ ρ ε n} (ha : a.ofWorker = true) (h : Step cfg s a s') :
  s'.rank < s.rank
  := by
  cases a with
  | work w now => exact h.work_inv.rank_lt rfl
  | finish w now outcome => exact h.finish_inv.rank_lt rfl
  | enqueue | flush | pause | resume | cancel => cases ha

/-! ### Workers at rest -/

/-- While some worker is alive and none can take a step, every admitted item has its future
resolved. -/
theorem resolved_of_resting (h : Reachable (Step cfg) (initial δ ρ ε n) s) (hrest : Resting s)
    {w : Fin n} (hw : s.workers w ≠ .dead) :
  AllResolved s
  := by
  have hwaiting : s.workers w = .waiting := (hrest w).resolve_right hw
  have hempty (t : Tier) : s.queues t = [] := by
    by_contra ht
    exact (reachable_awake h ⟨t, ht⟩).2 w hwaiting
  have hresolved : Resolved s :=
    h.invariant (List.forall_mem_nil _) (Step.invariant Resolved.effect)
  apply allResolved_of_empty (Reachable.tracked h) hresolved hempty
  intro v item hexecuting
  obtain hv | hv := hrest v <;> rw [hexecuting] at hv <;> cases hv

/-- Unless the workers rest, one can take its turn or executes an item. -/
theorem exists_step_of_not_resting (h : Reachable (Step cfg) (initial δ ρ ε n) s)
    (hrest : ¬ Resting s) (now : ℚ) :
  (∃ w s', Step cfg s (.work w now) s') ∨ ∃ w item, s.workers w = .executing item
  := by
  obtain ⟨w, hw⟩ := not_forall.mp hrest
  cases hplace : s.workers w with
  | waiting => exact (hw (.inl hplace)).elim
  | dead => exact (hw (.inr hplace)).elim
  | ready => exact .inl ⟨w, reachable_work_enabled h hplace now⟩
  | executing item => exact .inr ⟨w, item, hplace⟩

end PriorityQueueManager

end OllamaQueueProxy
