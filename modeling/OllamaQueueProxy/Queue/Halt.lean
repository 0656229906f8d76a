import OllamaQueueProxy.Queue.Resolution
import OllamaQueueProxy.Queue.Shutdown

/-!
# The queue after its workers were cancelled

Apart from the workers and the permits they hold, nothing that is done to the queue depends on
whether the workers were cancelled.  A run of the lifespan is therefore a run of the queue,
whose workers are gone once `stop_workers` was called (`reachable_halted`): items are
conserved, limits are kept and the order is kept beyond the shutdown.
-/

open Transition

namespace OllamaQueueProxy

namespace PriorityQueueManager

variable {δ ρ ε : Type} {n : ℕ} {cfg : QueueConfig} {s s' : PriorityQueueManager δ ρ ε n}

/-- The manager with its workers gone and `permits` free permits. -/
def halt (s : PriorityQueueManager δ ρ ε n) (permits : ℕ) : PriorityQueueManager δ ρ ε n :=
  { s with
    semaphore := permits
    workers := fun _ => .dead }

variable (permits : ℕ)

theorem setHasItems_halt (s : PriorityQueueManager δ ρ ε n) :
  (s.halt permits).setHasItems = s.setHasItems.halt permits
  := by
  unfold setHasItems
  by_cases h : s.hasItems = true
  · rw [if_pos h, if_pos (show (s.halt permits).hasItems = true from h)]
  · rw [if_neg h, if_neg (show ¬ (s.halt permits).hasItems = true from h)]
    rfl

theorem put_halt (s : PriorityQueueManager δ ρ ε n) (item : QueueItem δ) :
  (s.halt permits).put item = (s.put item).halt permits
  := by
  have hset := setHasItems_halt permits { s.setQueue item.tier (s.queues item.tier ++ [item]) with
    queuedBytes := s.queuedBytes + item.nbytes }
  exact congrArg (·.record (.admitted item)) hset

theorem checkWatermark_halt (s : PriorityQueueManager δ ρ ε n) (t : Tier) :
  checkWatermark cfg (s.halt permits) t = (checkWatermark cfg s t).map (·.halt permits)
  := by
  unfold checkWatermark
  rw [show ((s.halt permits).queues t).length = (s.queues t).length from rfl]
  cases depthPct (s.queues t).length (cfg.tier t).maxDepth with
  | none => rfl
  | some pct =>
      rw [show (s.halt permits).watermarkFired = s.watermarkFired from rfl]
      dsimp only
      split_ifs <;> rfl

theorem enqueue_halt (s : PriorityQueueManager δ ρ ε n) (item : QueueItem δ) :
  (s.halt permits).enqueue cfg item
    = ((s.enqueue cfg item).1.halt permits, (s.enqueue cfg item).2)
  := by
  have hput : (s.halt permits).put { item with position := (s.halt permits).nextPosition item.tier }
      = (s.put { item with position := s.nextPosition item.tier }).halt permits :=
    put_halt permits s _
  unfold enqueue
  rw [show (s.halt permits).paused = s.paused from rfl,
    show (s.halt permits).full cfg item.tier = s.full cfg item.tier from rfl,
    show (s.halt permits).queuedBytes = s.queuedBytes from rfl,
    show (s.halt permits).allEmpty = s.allEmpty from rfl, hput]
  dsimp only
  rw [checkWatermark_halt]
  split_ifs
  · rfl
  · rfl
  · rfl
  · let admitted := { item with position := s.nextPosition item.tier }
    cases checkWatermark cfg (s.put admitted) item.tier <;> rfl

theorem flushItems_halt (t : Tier) (q : List (QueueItem δ)) :
  ∀ s : PriorityQueueManager δ ρ ε n,
    flushItems t q (s.halt permits) = ((flushItems t q s).1.halt permits, (flushItems t q s).2)
  := by
  induction q with
  | nil => exact fun s => rfl
  | cons item rest ih =>
      intro s
      have hremove : ((s.halt permits).setQueue t rest).record (.flushed item)
          = ((s.setQueue t rest).record (.flushed item)).halt permits := rfl
      have hset (f : Future ρ ε) :
          (((s.setQueue t rest).record (.flushed item)).halt permits).setFuture item.future f
            = (((s.setQueue t rest).record (.flushed item)).setFuture item.future f).halt permits :=
        rfl
      simp only [flushItems, hremove, hset, ih]
      rw [show (((s.setQueue t rest).record (.flushed item)).halt permits).futures
        = ((s.setQueue t rest).record (.flushed item)).futures from rfl]
      split <;> rfl

theorem flushTiers_halt (ts : List Tier) :
  ∀ s : PriorityQueueManager δ ρ ε n,
    flushTiers ts (s.halt permits) = ((flushTiers ts s).1.halt permits, (flushTiers ts s).2)
  := by
  induction ts with
  | nil => exact fun s => rfl
  | cons t ts ih =>
      intro s
      simp only [flushTiers]
      rw [show (s.halt permits).queues = s.queues from rfl, flushItems_halt]
      cases h : flushItems t (s.queues t) s with
      | mk s' dropped =>
          cases dropped with
          | none => rfl
          | some dropped =>
              dsimp only
              rw [ih]

/-- What is done to the queue after its workers are gone could be done before. -/
theorem step_halt {a : Action δ ρ ε n} (h : Step cfg (s.halt permits) a s') :
  ∃ m, Step cfg s a m ∧ s' = m.halt permits
  := by
  cases a with
  | enqueue request =>
      obtain rfl := Option.some.inj h
      refine ⟨_, rfl, ?_⟩
      exact congrArg Prod.fst (enqueue_halt permits s.createFuture (request.item s.created))
  | work | finish => cases h
  | flush tier =>
      obtain rfl := Option.some.inj h
      exact ⟨_, rfl, congrArg Prod.fst (flushTiers_halt permits (tiersOf tier) s)⟩
  | pause | resume =>
      obtain rfl := Option.some.inj h
      exact ⟨_, rfl, rfl⟩
  | cancel k =>
      simp only [Step, ofStep, step] at h
      split_ifs at h with hk
      obtain rfl := Option.some.inj h
      exact ⟨_, if_pos hk, rfl⟩

end PriorityQueueManager

namespace Lifespan

variable {δ ρ ε : Type} {n : ℕ} {cfg : QueueConfig} {s s' : Lifespan δ ρ ε n}

/-- The manager is `m`, or `m` after its workers were cancelled. -/
def Follows (s m : PriorityQueueManager δ ρ ε n) : Prop :=
  s = m ∨ ∃ permits, s = m.halt permits

theorem Follows.step {s s' m : PriorityQueueManager δ ρ ε n} {a : Action δ ρ ε n}
    (hs : Follows s m) (h : PriorityQueueManager.Step cfg s a s') :
  ∃ m', PriorityQueueManager.Step cfg m a m' ∧ Follows s' m'
  := by
  obtain rfl | ⟨permits, rfl⟩ := hs
  · exact ⟨s', h, .inl rfl⟩
  · obtain ⟨m', hstep, rfl⟩ := PriorityQueueManager.step_halt permits h
    exact ⟨m', hstep, .inr ⟨permits, rfl⟩⟩

theorem Follows.stopWorkers {s m : PriorityQueueManager δ ρ ε n} (hs : Follows s m) :
  Follows s.stopWorkers m
  := by
  obtain rfl | ⟨permits, rfl⟩ := hs
  · exact .inr ⟨_, rfl⟩
  · exact .inr ⟨_, rfl⟩

/-- What an action of the lifespan does to the queue. -/
inductive QueueEffect (cfg : QueueConfig) (s s' : PriorityQueueManager δ ρ ε n) : Prop where
  | same (h : s' = s)
  | step (a : Action δ ρ ε n) (h : PriorityQueueManager.Step cfg s a s')
  | stopWorkers (h : s' = s.stopWorkers)

theorem Step.queueEffect {act : LifespanAction δ ρ ε n} (h : Step cfg s act s') :
  QueueEffect cfg s.manager s'.manager
  := by
  cases act with
  | pass | leave | shutdown | drain =>
      simp only [Step, ofStep, Lifespan.step] at h
      split_ifs at h
      obtain rfl := Option.some.inj h
      exact .same rfl
  | enqueue request =>
      simp only [Step, ofStep, Lifespan.step] at h
      split_ifs at h
      obtain ⟨m, hstep, rfl⟩ := Option.map_eq_some_iff.mp h
      exact .step _ hstep
  | queue a =>
      cases a with
      | enqueue => cases h
      | work | finish | flush | pause | resume | cancel =>
          simp only [Step, ofStep, Lifespan.step] at h
          obtain ⟨m, hstep, rfl⟩ := Option.map_eq_some_iff.mp h
          exact .step _ hstep
  | stopWorkers =>
      simp only [Step, ofStep, Lifespan.step] at h
      split at h
      · obtain rfl := Option.some.inj h
        exact .stopWorkers rfl
      · cases h
  | stopped =>
      simp only [Step, ofStep, Lifespan.step] at h
      split at h
      · obtain rfl := Option.some.inj h
        exact .same rfl
      · cases h

/-- What is done to the queue in the lifespan is done to it in a run of its own, but for the
workers, which the shutdown cancels. -/
theorem reachable_halted (h : Reachable (Step cfg) (initial δ ρ ε n) s) :
  ∃ m, Reachable (PriorityQueueManager.Step cfg) (.initial δ ρ ε n) m ∧ Follows s.manager m
  := by
  refine h.invariant (I := fun s => ∃ m, Reachable (PriorityQueueManager.Step cfg)
    (.initial δ ρ ε n) m ∧ Follows s.manager m) ⟨_, .refl _, .inl rfl⟩ ?_
  rintro s act s' ⟨m, hreach, hfollows⟩ hstep
  cases Step.queueEffect hstep with
  | same heq =>
      rw [heq]
      exact ⟨m, hreach, hfollows⟩
  | step a hqueue =>
      obtain ⟨m', hstep', hfollows'⟩ := hfollows.step hqueue
      exact ⟨m', hreach.step hstep', hfollows'⟩
  | stopWorkers heq =>
      rw [heq]
      exact ⟨m, hreach, hfollows.stopWorkers⟩

end Lifespan

end OllamaQueueProxy
