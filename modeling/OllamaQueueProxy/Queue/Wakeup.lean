import OllamaQueueProxy.Queue.Admission
import OllamaQueueProxy.Queue.Workers

/-!
# Wake-ups

All workers wait for one event, `_has_items`, which `enqueue` sets, and which a worker clears
when its scan found nothing.  Between the scan and the clearing the worker does not suspend,
so the event is cleared when all queues are empty only, and it is set as long as some item
waits.  No worker is then parked on the event (`reachable_awake`), and a worker that is not
can always take its turn, since there is a permit for each (`reachable_work_enabled`).
-/

open Transition

namespace OllamaQueueProxy

namespace PriorityQueueManager

variable {δ ρ ε : Type} {n : ℕ} {cfg : QueueConfig} {s s' : PriorityQueueManager δ ρ ε n}

@[simp]
theorem settle_hasItems (s : PriorityQueueManager δ ρ ε n) (w : Fin n) :
  (s.settle w).hasItems = s.hasItems
  := by
  unfold settle
  split <;> rfl

/-- While some item waits, the event is set and no worker waits for it. -/
def Awake (s : PriorityQueueManager δ ρ ε n) : Prop :=
  (∃ t, s.queues t ≠ []) → s.hasItems = true ∧ ∀ w, s.workers w ≠ .waiting

/-- The event is set while some item waits, and workers wait for it while it is not set. -/
structure Signalled (s : PriorityQueueManager δ ρ ε n) : Prop where
  set : ∀ t, s.queues t ≠ [] → s.hasItems = true
  parked : ∀ w, s.workers w = .waiting → s.hasItems = false

theorem Signalled.awake (h : Signalled s) :
  Awake s
  := by
  rintro ⟨t, ht⟩
  have hset := h.set t ht
  use hset
  intro w hw
  rw [h.parked w hw] at hset
  cases hset

/-- A worker that waits after a worker was given a state other than waiting waited
before. -/
theorem waiting_of_update {workers : Fin n → Worker δ} {v w : Fin n} {x : Worker δ}
    (hx : x ≠ .waiting) (h : Function.update workers w x v = .waiting) :
  workers v = .waiting
  := by
  by_cases hv : v = w
  · subst hv
    rw [Function.update_self] at h
    cases hx h
  · rwa [Function.update_of_ne hv] at h

/-- A worker that waits after a worker went back to the top of its loop waited before, or the
event is not set. -/
theorem waiting_of_loopTop {workers : Fin n → Worker δ} {v w : Fin n} {b : Bool}
    (h : Function.update workers w (if b then .ready else .waiting) v = .waiting) :
  workers v = .waiting ∨ b = false
  := by
  cases b with
  | true =>
      left
      apply waiting_of_update _ h
      simp
  | false =>
      right
      rfl

/-- No worker waits after the event was set. -/
theorem workers_setHasItems_ne (h : ∀ w, s.workers w = .waiting → s.hasItems = false)
    (w : Fin n) :
  s.setHasItems.workers w ≠ .waiting
  := by
  unfold setHasItems
  split
  · rename_i hset
    intro hw
    rw [h w hw] at hset
    cases hset
  · cases hw : s.workers w <;> simp [hw]

/-- After an item was put in a queue, the event is set and no worker waits. -/
theorem signalled_put (h : ∀ w, s.workers w = .waiting → s.hasItems = false)
    (item : QueueItem δ) :
  Signalled (s.put item)
  := by
  constructor
  · intro t _
    exact (appended_put s item).hasItems
  · intro w hw
    apply absurd hw
    rw [put, record_workers]
    apply workers_setHasItems_ne
    exact h

/-- Changes that leave the event alone and let no worker wait for it while it is set. -/
theorem Signalled.congr (h : Signalled s) (hqueues : Shrinks s s')
    (hevent : s'.hasItems = s.hasItems)
    (hworkers : ∀ w, s'.workers w = .waiting → s.workers w = .waiting ∨ s.hasItems = false) :
  Signalled s'
  := by
  constructor
  · intro t ht
    rw [hevent]
    apply h.set t
    intro hempty
    apply ht
    have hsublist := hqueues t
    rw [hempty] at hsublist
    exact List.sublist_nil.mp hsublist
  · intro w hw
    rw [hevent]
    obtain hwaiting | hcleared := hworkers w hw
    · apply h.parked w hwaiting
    · exact hcleared

theorem Signalled.effect {a : Action δ ρ ε n} (h : Signalled s) (heffect : Effect cfg a s s') :
  Signalled s'
  := by
  cases heffect with
  | note | fire | createFuture | pause | resume | cancel =>
      exact h.congr (Shrinks.congr rfl) rfl fun _ hw => .inl hw
  | accept request =>
      apply signalled_put
      exact h.parked
  | @idle _ w now hready hempty =>
      constructor
      · intro t ht
        cases ht (hempty t)
      · intro v _
        rfl
  | start _ _ hnext =>
      refine h.congr (Shrinks.tail (getNowait_eq hnext).1 rfl) rfl ?_
      intro v hv
      left
      apply waiting_of_update _ hv
      simp
  | @expire _ w _ _ _ _ _ _ hnext =>
      refine h.congr (Shrinks.tail (getNowait_eq hnext).1 (settle_queues _ w))
        (settle_hasItems _ w) ?_
      intro v hv
      rw [settle_workers] at hv
      apply waiting_of_loopTop hv
  | crash _ _ hnext =>
      refine h.congr (Shrinks.tail (getNowait_eq hnext).1 rfl) rfl ?_
      intro v hv
      left
      apply waiting_of_update _ hv
      simp
  | @complete _ w | @fail _ w =>
      refine h.congr (Shrinks.congr (settle_queues _ w)) (settle_hasItems _ w) ?_
      intro v hv
      rw [settle_workers] at hv
      apply waiting_of_loopTop hv
  | drop hhead => exact h.congr (Shrinks.tail hhead rfl) rfl fun _ hw => .inl hw

theorem signalled_initial :
  Signalled (initial δ ρ ε n)
  := by
  constructor
  · intro t ht
    cases ht rfl
  · intro w _
    rfl

/-- In every state of every run the event is set while some item waits, and no worker waits
for it. -/
theorem reachable_awake (h : Reachable (Step cfg) (initial δ ρ ε n) s) :
  Awake s
  := by
  apply Signalled.awake
  apply h.invariant signalled_initial
  intro t a u ht hstep
  apply Step.invariant Signalled.effect ht hstep

/-- One worker takes the only item, the other one finds the queues empty and clears the event,
and an item is enqueued. -/
def clearedRun : List (Action Unit Unit Unit 2) :=
  [.enqueue ⟨.normal, 0, "a", (), 5⟩, .work 0 1, .work 1 1, .enqueue ⟨.low, 1, "b", (), 6⟩]

theorem cleared_awake :
  ∃ s, Run (Step .default) (initial Unit Unit Unit 2) clearedRun s ∧ Awake s
  := by
  obtain ⟨s, hrun⟩ : ∃ s, Run (Step .default) (initial Unit Unit Unit 2) clearedRun s :=
    exists_run_of_exec (by decide +kernel)
  use s, hrun
  apply reachable_awake ⟨clearedRun, hrun⟩

/-! ### Permits -/

@[simp]
theorem setHasItems_semaphore (s : PriorityQueueManager δ ρ ε n) :
  s.setHasItems.semaphore = s.semaphore
  := by
  unfold setHasItems
  split <;> rfl

@[simp]
theorem settle_semaphore (s : PriorityQueueManager δ ρ ε n) (w : Fin n) :
  (s.settle w).semaphore = s.semaphore + 1
  := by
  unfold settle
  split <;> rfl

/-- There is a permit for every worker: those that are not free are held by the workers that
execute an item. -/
def Permitted (s : PriorityQueueManager δ ρ ε n) : Prop := s.semaphore + s.held.card = n

theorem Permitted.effect {a : Action δ ρ ε n} (h : Permitted s) (heffect : Effect cfg a s s') :
  Permitted s'
  := by
  rw [Permitted] at h ⊢
  cases heffect with
  | note | fire | createFuture | pause | resume | cancel | drop => exact h
  | accept request =>
      have hheld : (s.createFuture.put { request.item s.created with
          position := s.nextPosition request.tier }).held = s.held := setHasItems_held _
      rw [hheld, put, record_semaphore, setHasItems_semaphore]
      exact h
  | idle hready =>
      rw [held_loopTop (by simp [hready, Worker.items])]
      exact h
  | start hready hpermit =>
      rw [held_start (by simp [hready, Worker.items]), Multiset.card_cons, setWorker_semaphore,
        record_semaphore, take_semaphore]
      change _ + (s.held.card + 1) = n
      omega
  | @expire _ w _ _ _ _ hready hpermit =>
      rw [held_settle (by simp [hready, Worker.items]), settle_semaphore, setFuture_semaphore,
        countExpired_semaphore, take_semaphore]
      change _ + s.held.card = n
      omega
  | crash hready hpermit =>
      rw [crash, held_setWorker_idle (by simp [hready, Worker.items]) rfl]
      change s.semaphore - 1 + 1 + s.held.card = n
      omega
  | @complete _ w now _ item f hexecuting =>
      have hstop := held_settle_stop
        (s := (s.setFuture item.future f).countProcessed item (now - item.enqueueTime))
        hexecuting
      have hcard := congrArg Multiset.card hstop
      rw [Multiset.card_cons] at hcard
      rw [settle_semaphore, countProcessed_semaphore, setFuture_semaphore]
      change s.held.card = _ at hcard
      omega
  | @fail _ w _ _ item f hexecuting =>
      have hstop := held_settle_stop
        (s := (s.setFuture item.future f).record (.raised item)) hexecuting
      have hcard := congrArg Multiset.card hstop
      rw [Multiset.card_cons] at hcard
      rw [settle_semaphore, record_semaphore, setFuture_semaphore]
      change s.held.card = _ at hcard
      omega

/-- A worker that executes no item leaves a permit free. -/
theorem Permitted.pos (h : Permitted s) {w : Fin n} (hw : (s.workers w).items = 0) :
  0 < s.semaphore
  := by
  have hcard : s.held.card = ∑ v, (s.workers v).items.card := map_sum Multiset.cardHom _ _
  have hlt : ∑ v, (s.workers v).items.card < ∑ _v : Fin n, 1 := by
    apply Finset.sum_lt_sum
    · intro v _
      cases s.workers v <;> simp [Worker.items]
    · exact ⟨w, Finset.mem_univ w, by simp [hw]⟩
  rw [Permitted, hcard] at h
  simp only [Finset.sum_const, Finset.card_univ, Fintype.card_fin, Nat.nsmul_eq_mul,
    mul_one] at hlt
  omega

theorem permitted_initial :
  Permitted (initial δ ρ ε n)
  := by
  simp [Permitted, initial, held, Worker.items]

/-- In every state of every run a worker that is ready can take its turn. -/
theorem reachable_work_enabled (h : Reachable (Step cfg) (initial δ ρ ε n) s) {w : Fin n}
    (hready : s.workers w = .ready) (now : ℚ) :
  ∃ s', Step cfg s (.work w now) s'
  := by
  have hpermitted : Permitted s := by
    apply h.invariant permitted_initial
    intro t a u ht hstep
    apply Step.invariant Permitted.effect ht hstep
  have hidle := items_of_ready hready
  use s.work cfg w now
  simp only [Step, ofStep, step, hready, if_pos (hpermitted.pos hidle)]

end PriorityQueueManager

end OllamaQueueProxy
