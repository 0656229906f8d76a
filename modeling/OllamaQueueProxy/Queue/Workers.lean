import OllamaQueueProxy.Queue.Refinement

/-!
# The workers

A worker that takes an expired item sets the exception of its future without asking whether
the future is done, as it does after a dispatch.  When the caller was cancelled while the
item waited, the future is done, and `InvalidStateError` leaves the loop of the worker.  We
show that this is the only way in which workers are lost: the states of a run are all
`Healthy` exactly when no worker takes an expired item whose future is done
(`always_healthy_iff`).
-/

open Transition

namespace OllamaQueueProxy

/-- An exception left the loop of the worker. -/
def Worker.isDead {δ : Type} : Worker δ → Bool
  | .dead => true
  | _ => false

theorem Worker.isDead_iff {δ : Type} {x : Worker δ} :
  x.isDead = true ↔ x = .dead
  := by
  cases x <;> simp [isDead]

namespace PriorityQueueManager

variable {δ ρ ε : Type} {n : ℕ} {cfg : QueueConfig} {s s' : PriorityQueueManager δ ρ ε n}

/-- All workers are alive, and `active` is the number of the items they execute. -/
structure Healthy (s : PriorityQueueManager δ ρ ε n) : Prop where
  alive : ∀ w, s.workers w ≠ .dead
  active : s.active = s.held.card

/-- A worker that takes an expired item finds its future pending. -/
def ExpiredPending (cfg : QueueConfig) (s : PriorityQueueManager δ ρ ε n) :
    Action δ ρ ε n → Prop
  | .work _ now => ∀ t item rest, s.getNowait = some (t, item, rest) →
      stale cfg now item = true → (s.futures item.future).done = false
  | _ => True

theorem alive_setWorker (h : ∀ w, s.workers w ≠ .dead) (w : Fin n) {x : Worker δ}
    (hx : x ≠ .dead) (v : Fin n) :
  (s.setWorker w x).workers v ≠ .dead
  := by
  by_cases hv : v = w
  · subst hv
    simpa using hx
  · simpa [hv] using h v

theorem alive_loopTop (h : ∀ w, s.workers w ≠ .dead) (w v : Fin n) :
  (s.loopTop w).workers v ≠ .dead
  := by
  apply alive_setWorker h
  split <;> simp

theorem alive_settle (h : ∀ w, s.workers w ≠ .dead) (w v : Fin n) :
  (s.settle w).workers v ≠ .dead
  := by
  unfold settle
  split <;> exact alive_loopTop h w v

theorem alive_setHasItems (h : ∀ w, s.workers w ≠ .dead) (v : Fin n) :
  s.setHasItems.workers v ≠ .dead
  := by
  have hv := h v
  unfold setHasItems
  split
  · apply hv
  · cases hw : s.workers v <;> simp_all

theorem setHasItems_active (s : PriorityQueueManager δ ρ ε n) :
  s.setHasItems.active = s.active
  := by
  unfold setHasItems
  split <;> rfl

@[simp]
theorem settle_active (s : PriorityQueueManager δ ρ ε n) (w : Fin n) :
  (s.settle w).active = s.active - 1
  := by
  unfold settle
  split <;> rfl

namespace Healthy

/-- An effect of an action keeps the workers healthy, unless a worker takes an expired item
whose future is done. -/
theorem effect {a : Action δ ρ ε n} (h : Healthy s) (hok : ExpiredPending cfg s a)
    (heffect : Effect cfg a s s') :
  Healthy s'
  := by
  cases heffect with
  | note | fire | createFuture | pause | resume | cancel | drop => exact ⟨h.alive, h.active⟩
  | accept request =>
      constructor
      · apply alive_setHasItems
        apply h.alive
      · rw [put, record_active, setHasItems_active]
        apply h.active.trans
        congr 2
        symm
        apply setHasItems_held
  | @idle _ w now hready hempty =>
      constructor
      · apply alive_loopTop
        apply h.alive
      · rw [held_loopTop]
        · apply h.active
        · simp [hready, Worker.items]
  | @start _ w now t item rest hready =>
      constructor
      · apply alive_setWorker _ w (by simp)
        apply h.alive
      · rw [held_start (by simp [hready, Worker.items]), Multiset.card_cons]
        push_cast
        rw [setWorker_active, record_active, take_active, h.active]
        rfl
  | @expire _ w now t item rest hready =>
      constructor
      · apply alive_settle
        apply h.alive
      · rw [held_settle (by simp [hready, Worker.items]), settle_active, setFuture_active,
          countExpired_active, take_active, h.active]
        apply add_sub_cancel_right
  | @crash _ w now t item rest _ _ hnext hstale hdone =>
      have hpending := hok t item rest hnext hstale
      rw [hdone] at hpending
      cases hpending
  | @complete _ w now r item f hexecuting =>
      constructor
      · apply alive_settle
        apply h.alive
      · have hstop := held_settle_stop
          (s := (s.setFuture item.future f).countProcessed item (now - item.enqueueTime))
          hexecuting
        have hcard := congrArg Multiset.card hstop
        rw [Multiset.card_cons] at hcard
        rw [settle_active, countProcessed_active, setFuture_active, h.active]
        change s.held.card = _ at hcard
        omega
  | @fail _ w now e item f hexecuting =>
      constructor
      · apply alive_settle
        apply h.alive
      · have hstop := held_settle_stop
          (s := (s.setFuture item.future f).record (.raised item)) hexecuting
        have hcard := congrArg Multiset.card hstop
        rw [Multiset.card_cons] at hcard
        rw [settle_active, record_active, setFuture_active, h.active]
        change s.held.card = _ at hcard
        omega

/-- A worker that is still alive after it took an expired item found its future pending. -/
theorem expiredPending {w : Fin n} {now : ℚ} (hs' : Healthy s')
    (heffect : Effect cfg (.work w now) s s') :
  ExpiredPending cfg s (.work w now)
  := by
  intro t item rest hnext hstale
  cases heffect with
  | idle _ hempty =>
      have hhead := (getNowait_eq hnext).1
      rw [hempty t] at hhead
      cases hhead
  | start _ _ hnext' hfresh =>
      rw [hnext] at hnext'
      cases hnext'
      rw [hfresh] at hstale
      cases hstale
  | expire _ _ hnext' _ hpending =>
      rw [hnext] at hnext'
      cases hnext'
      apply Future.done_eq_false_iff.mpr hpending
  | crash =>
      have hdead := hs'.alive w
      simp at hdead

/-- A step out of a healthy state ends in a healthy state exactly when no worker takes an
expired item whose future is done. -/
theorem step_iff {a : Action δ ρ ε n} (h : Healthy s) (hstep : Step cfg s a s') :
  Healthy s' ↔ ExpiredPending cfg s a
  := by
  have hother (hok : ∀ s, ExpiredPending cfg s a) : Healthy s' ↔ ExpiredPending cfg s a := by
    constructor
    · intro _
      apply hok
    · intro _
      apply Step.invariant _ h hstep
      intro s s' hs heffect
      apply hs.effect (hok s) heffect
  cases a with
  | work w now =>
      constructor
      · intro hs'
        apply hs'.expiredPending hstep.work_inv
      · intro hok
        apply h.effect hok hstep.work_inv
  | enqueue | finish | flush | pause | resume | cancel => exact hother fun _ => trivial

theorem initial :
  Healthy (initial δ ρ ε n)
  := by
  constructor
  · intro w
    simp [PriorityQueueManager.initial]
  · simp [PriorityQueueManager.initial, held, Worker.items]

end Healthy

/-! ### Executing workers -/

@[simp]
theorem settle_workers (s : PriorityQueueManager δ ρ ε n) (w : Fin n) :
  (s.settle w).workers
    = Function.update s.workers w (if s.hasItems then .ready else .waiting)
  := by
  unfold settle
  split <;> rfl

theorem setHasItems_executing {w : Fin n} {item : QueueItem δ}
    (h : s.setHasItems.workers w = .executing item) :
  s.workers w = .executing item
  := by
  unfold setHasItems at h
  split at h
  · apply h
  · cases hw : s.workers w <;> simp_all

theorem executing_of_update {workers : Fin n → Worker δ} {v w : Fin n} {x : Worker δ}
    {item : QueueItem δ} (hx : x ≠ .executing item)
    (h : Function.update workers w x v = .executing item) :
  v ≠ w ∧ workers v = .executing item
  := by
  by_cases hv : v = w
  · subst hv
    rw [Function.update_self] at h
    cases hx h
  · rw [Function.update_of_ne hv] at h
    use hv

/-- A worker that executes an item after an effect executed it before, or takes it by its
turn. -/
theorem Effect.executing {a : Action δ ρ ε n} (heffect : Effect cfg a s s') {v : Fin n}
    {item : QueueItem δ} (h : s'.workers v = .executing item) :
  s.workers v = .executing item
    ∨ ∃ now t rest, a = .work v now ∧ s.getNowait = some (t, item, rest)
      ∧ stale cfg now item = false
  := by
  have hidle (b : Bool) : (if b then Worker.ready else Worker.waiting) ≠ .executing item := by
    cases b <;> simp
  cases heffect with
  | note | fire | createFuture | drop | pause | resume | cancel =>
      left
      exact h
  | accept =>
      left
      apply setHasItems_executing h
  | idle =>
      left
      apply (executing_of_update (hidle _) h).2
  | @start _ w now t i rest _ _ hnext hfresh =>
      by_cases hv : v = w
      · subst hv
        right
        obtain rfl : i = item := by simpa using h
        use now, t, rest
      · left
        simpa [hv] using h
  | expire | complete | fail =>
      left
      rw [settle_workers] at h
      apply (executing_of_update (hidle _) h).2
  | crash =>
      left
      apply (executing_of_update _ h).2
      simp

/-- A worker that takes a turn was ready. -/
theorem Effect.ready {w : Fin n} {now : ℚ} (heffect : Effect cfg (.work w now) s s') :
  s.workers w = .ready
  := by
  cases heffect with
  | idle hready | start hready | expire hready | crash hready => exact hready

/-- A worker whose turn finds an item that has not expired executes it. -/
theorem Effect.executes {w : Fin n} {now : ℚ} {t : Tier} {item : QueueItem δ}
    {rest : List (QueueItem δ)} (heffect : Effect cfg (.work w now) s s')
    (hnext : s.getNowait = some (t, item, rest)) (hfresh : stale cfg now item = false) :
  s'.workers w = .executing item
  := by
  cases heffect with
  | idle _ hempty =>
      have hhead := (getNowait_eq hnext).1
      rw [hempty t] at hhead
      cases hhead
  | start _ _ hnext' =>
      rw [hnext] at hnext'
      cases hnext'
      apply Function.update_self
  | expire _ _ hnext' hstale | crash _ _ hnext' hstale =>
      rw [hnext] at hnext'
      cases hnext'
      rw [hfresh] at hstale
      cases hstale

/-- A worker that executes an item after an action other than a turn executed it before. -/
theorem Step.executing {a : Action δ ρ ε n} (h : Step cfg s a s')
    (ha : ∀ w now, a ≠ .work w now) {v : Fin n} {item : QueueItem δ}
    (hv : s'.workers v = .executing item) :
  s.workers v = .executing item
  := by
  apply Step.invariant (I := fun u => u.workers v = .executing item →
    s.workers v = .executing item) _ id h hv
  intro t u ht heffect hu
  rcases heffect.executing hu with hbefore | ⟨now, -, -, rfl, -⟩
  · apply ht hbefore
  · cases ha v now rfl

/-- The states of a run are all healthy exactly when no worker takes an expired item whose
future is done. -/
theorem always_healthy_iff (cfg : QueueConfig) (as : List (Action δ ρ ε n)) :
  Always (Step cfg) (initial δ ρ ε n) as Healthy
    ↔ AllSteps (Step cfg) (initial δ ρ ε n) as (ExpiredPending cfg)
  := always_iff_allSteps (I := fun _ => True) trivial Healthy.initial
    (fun _ _ _ => trivial) (fun _ h hstep => h.step_iff hstep)

/-- A caller is cancelled while its item waits, and the only worker takes the item after it
has expired. -/
def cancelledThenExpired : List (Action Unit Unit Unit 1) :=
  [.enqueue ⟨.normal, 0, "r", (), 0⟩, .cancel 0, .work 0 301]

/-- The run above leaves no worker alive. -/
theorem not_always_healthy :
  ¬ Always (Step .default) (initial Unit Unit Unit 1) cancelledThenExpired Healthy
  := by
  apply not_always_of_exec (b := fun s => (s.workers 0).isDead)
  · decide +kernel
  · intro s hdead hs
    apply hs.alive 0
    apply Worker.isDead_iff.mp hdead

end PriorityQueueManager

end OllamaQueueProxy
