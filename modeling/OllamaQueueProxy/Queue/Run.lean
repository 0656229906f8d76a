import OllamaQueueProxy.Library.Station
import OllamaQueueProxy.Queue.Manager
import Mathlib.Algebra.BigOperators.Group.Finset.Basic

/-!
# Runs of the queue

The actions on a queue manager with `n` workers, at the points where the tasks suspend, and
the effects they have.  `step` performs an action; `Effect` lists what can happen to a
manager, guards included, and `Step.effects` says that every step is a sequence of effects.
A property of managers that every effect preserves therefore holds in every state of every
run (`Step.invariant`).
-/

open Transition

namespace OllamaQueueProxy

/-- What a caller hands to `enqueue`. -/
structure Submission (δ : Type) where
  tier : Tier
  enqueueTime : ℚ
  requestId : String
  dispatchFn : δ
  nbytes : ℕ

/-- The item a caller builds from its submission and a future. -/
def Submission.item {δ : Type} (r : Submission δ) (future : ℕ) : QueueItem δ where
  tier := r.tier
  enqueueTime := r.enqueueTime
  requestId := r.requestId
  future := future
  dispatchFn := r.dispatchFn
  position := 0
  nbytes := r.nbytes

/-- The actions on a manager with `n` workers. -/
inductive Action (δ ρ ε : Type) (n : ℕ) where
  /-- A caller creates a future and enqueues an item. -/
  | enqueue (request : Submission δ)
  /-- A worker that is ready performs a turn of its loop at time `now`. -/
  | work (w : Fin n) (now : ℚ)
  /-- The dispatch a worker awaits ends at time `now`. -/
  | finish (w : Fin n) (now : ℚ) (outcome : Except ε ρ)
  | flush (tier : Option Tier)
  | pause (tier : Option Tier)
  | resume (tier : Option Tier)
  /-- The caller that awaits the future is cancelled. -/
  | cancel (future : ℕ)

/-- Runs with one or two workers name them by numerals. -/
instance neZero_one : NeZero 1 := ⟨Nat.one_ne_zero⟩

instance neZero_two : NeZero 2 := ⟨two_ne_zero⟩

namespace PriorityQueueManager

variable {δ ρ ε : Type} {n : ℕ}

/-- The state after an action; `none` if the action is not possible. -/
def step (cfg : QueueConfig) (s : PriorityQueueManager δ ρ ε n) :
    Action δ ρ ε n → Option (PriorityQueueManager δ ρ ε n)
  | .enqueue request =>
      some (enqueue cfg s.createFuture (request.item s.created)).1
  | .work w now =>
      match s.workers w with
      | .ready => if 0 < s.semaphore then some (s.work cfg w now) else none
      | _ => none
  | .finish w now outcome =>
      match s.workers w with
      | .executing item => some (s.finish w item now outcome)
      | _ => none
  | .flush tier => some (s.flush tier).1
  | .pause tier => some (s.pause tier)
  | .resume tier => some (s.resume tier)
  | .cancel k => if k < s.created then some (s.setFuture k (s.futures k).cancel) else none

/-- The transitions of a manager. -/
abbrev Step (cfg : QueueConfig) :
    PriorityQueueManager δ ρ ε n → Action δ ρ ε n → PriorityQueueManager δ ρ ε n → Prop :=
  ofStep (step cfg)

/-! ### Effects -/

/-- The statistics `x'` differ from `x` in other counts than those of processed and expired
items only. -/
def SameCounts (x x' : Tier → TierStats) : Prop :=
  ∀ t, (x' t).processed = (x t).processed ∧ (x' t).expired = (x t).expired

/-- What an action can do to a manager. -/
inductive Effect (cfg : QueueConfig) :
    Action δ ρ ε n → PriorityQueueManager δ ρ ε n → PriorityQueueManager δ ρ ε n → Prop where
  /-- Rejections are counted or watermarks are noted. -/
  | note {s : PriorityQueueManager δ ρ ε n} {request : Submission δ}
      (stats : Tier → TierStats) (watermarkFired : Tier → Bool)
      (hstats : SameCounts s.stats stats) :
      Effect cfg (.enqueue request) s { s with
        stats := stats, watermarkFired := watermarkFired }
  /-- An event is fired. -/
  | fire {s : PriorityQueueManager δ ρ ε n} {request : Submission δ} (event : QueueEvent) :
      Effect cfg (.enqueue request) s (s.fireEvent event)
  | createFuture {s : PriorityQueueManager δ ρ ε n} {request : Submission δ} :
      Effect cfg (.enqueue request) s s.createFuture
  /-- A future is created and its item put in the queue. -/
  | accept {s : PriorityQueueManager δ ρ ε n} (request : Submission δ) :
      Effect cfg (.enqueue request) s (s.createFuture.put
        { request.item s.created with position := s.nextPosition request.tier })
  /-- A worker finds all queues empty and goes back to wait. -/
  | idle {s : PriorityQueueManager δ ρ ε n} {w : Fin n} {now : ℚ}
      (hready : s.workers w = .ready) (hempty : ∀ t, s.queues t = []) :
      Effect cfg (.work w now) s (loopTop { s with hasItems := false } w)
  /-- A worker takes an item and starts its dispatch. -/
  | start {s : PriorityQueueManager δ ρ ε n} {w : Fin n} {now : ℚ} {t : Tier}
      {item : QueueItem δ} {rest : List (QueueItem δ)} (hready : s.workers w = .ready)
      (hpermit : 0 < s.semaphore) (hnext : s.getNowait = some (t, item, rest))
      (hfresh : stale cfg now item = false) :
      Effect cfg (.work w now) s (((s.take t item rest).record (.started item)).setWorker w
        (.executing item))
  /-- A worker takes an expired item and resolves its future. -/
  | expire {s : PriorityQueueManager δ ρ ε n} {w : Fin n} {now : ℚ} {t : Tier}
      {item : QueueItem δ} {rest : List (QueueItem δ)} (hready : s.workers w = .ready)
      (hpermit : 0 < s.semaphore) (hnext : s.getNowait = some (t, item, rest))
      (hstale : stale cfg now item = true) (hpending : s.futures item.future = .pending) :
      Effect cfg (.work w now) s ((((s.take t item rest).countExpired item).setFuture
        item.future (.exception (.requestExpired item.tier item.requestId))).settle w)
  /-- A worker takes an expired item whose future is done, and an exception leaves its
  loop. -/
  | crash {s : PriorityQueueManager δ ρ ε n} {w : Fin n} {now : ℚ} {t : Tier}
      {item : QueueItem δ} {rest : List (QueueItem δ)} (hready : s.workers w = .ready)
      (hpermit : 0 < s.semaphore) (hnext : s.getNowait = some (t, item, rest))
      (hstale : stale cfg now item = true) (hdone : (s.futures item.future).done = true) :
      Effect cfg (.work w now) s (((s.take t item rest).countExpired item).crash w)
  /-- The dispatch of an item returns. -/
  | complete {s : PriorityQueueManager δ ρ ε n} {w : Fin n} {now : ℚ} {r : ρ}
      {item : QueueItem δ} {f : Future ρ ε} (hexecuting : s.workers w = .executing item)
      (hf : f.done = true) (hsame : (s.futures item.future).done = true →
        f = s.futures item.future) :
      Effect cfg (.finish w now (.ok r)) s (((s.setFuture item.future f).countProcessed item
        (now - item.enqueueTime)).settle w)
  /-- The dispatch of an item raises an exception. -/
  | fail {s : PriorityQueueManager δ ρ ε n} {w : Fin n} {now : ℚ} {e : ε}
      {item : QueueItem δ} {f : Future ρ ε} (hexecuting : s.workers w = .executing item)
      (hf : f.done = true) (hsame : (s.futures item.future).done = true →
        f = s.futures item.future) :
      Effect cfg (.finish w now (.error e)) s (((s.setFuture item.future f).record
        (.raised item)).settle w)
  /-- `flush` removes an item and resolves its future, unless it is done. -/
  | drop {s : PriorityQueueManager δ ρ ε n} {tier : Option Tier} {t : Tier}
      {item : QueueItem δ} {rest : List (QueueItem δ)} {f : Future ρ ε}
      (hhead : s.queues t = item :: rest) (hf : f.done = true)
      (hsame : (s.futures item.future).done = true → f = s.futures item.future) :
      Effect cfg (.flush tier) s (((s.setQueue t rest).record (.flushed item)).setFuture
        item.future f)
  | pause {s : PriorityQueueManager δ ρ ε n} (tier : Option Tier) :
      Effect cfg (.pause tier) s (s.pause tier)
  | resume {s : PriorityQueueManager δ ρ ε n} (tier : Option Tier) :
      Effect cfg (.resume tier) s (s.resume tier)
  /-- A caller is cancelled. -/
  | cancel {s : PriorityQueueManager δ ρ ε n} {k : ℕ} (hk : k < s.created) :
      Effect cfg (.cancel k) s (s.setFuture k (s.futures k).cancel)

/-- Some sequence of effects of an action. -/
abbrev Effects (cfg : QueueConfig) (a : Action δ ρ ε n) :
    PriorityQueueManager δ ρ ε n → PriorityQueueManager δ ρ ε n → Prop :=
  Relation.ReflTransGen (Effect cfg a)

variable {cfg : QueueConfig} {s s' : PriorityQueueManager δ ρ ε n}

theorem setFuture_self (s : PriorityQueueManager δ ρ ε n) (k : ℕ) :
  s.setFuture k (s.futures k) = s
  := by
  simp [setFuture]

theorem SameCounts.refl (x : Tier → TierStats) :
  SameCounts x x
  := fun _ => ⟨rfl, rfl⟩

theorem checkWatermark_effects {request : Submission δ} {t : Tier}
    (h : checkWatermark cfg s t = some s') :
  Effects cfg (.enqueue request) s s'
  := by
  unfold checkWatermark at h
  split at h
  · cases h
  · split_ifs at h
    · obtain rfl := Option.some.inj h
      apply Relation.ReflTransGen.tail _ (Effect.fire _)
      apply Relation.ReflTransGen.single (Effect.note _ _ (SameCounts.refl s.stats))
    · obtain rfl := Option.some.inj h
      apply Relation.ReflTransGen.single (Effect.note _ _ (SameCounts.refl s.stats))
    · obtain rfl := Option.some.inj h
      apply Relation.ReflTransGen.refl

theorem reject_effects {request : Submission δ} (s : PriorityQueueManager δ ρ ε n) (t : Tier)
    (e : QueueEvent) :
  Effects cfg (.enqueue request) s (s.reject t e)
  := by
  apply Relation.ReflTransGen.tail _ (Effect.fire e)
  apply Relation.ReflTransGen.single
  apply Effect.note _ s.watermarkFired
  intro t'
  by_cases h : t' = t
  · subst h
    simp
  · simp [h]

theorem enqueue_effects (s : PriorityQueueManager δ ρ ε n) (request : Submission δ) :
  Effects cfg (.enqueue request) s
    (enqueue cfg s.createFuture (request.item s.created)).1
  := by
  have hcreate : Effects cfg (.enqueue request) s s.createFuture :=
    Relation.ReflTransGen.single .createFuture
  have haccept : Effects cfg (.enqueue request) s (s.createFuture.put
      { request.item s.created with position := s.nextPosition request.tier }) :=
    Relation.ReflTransGen.single (.accept request)
  simp only [enqueue]
  split_ifs
  · apply hcreate
  · apply hcreate.trans (reject_effects _ _ _)
  · apply hcreate.trans (reject_effects _ _ _)
  · split
    · apply haccept
    · rename_i h
      apply haccept.trans (checkWatermark_effects h)

/-- The scan finds the first item of a queue whose tier has the greatest rank. -/
theorem getNowait_eq {t : Tier} {item : QueueItem δ} {rest : List (QueueItem δ)}
    (h : s.getNowait = some (t, item, rest)) :
  s.queues t = item :: rest ∧ ∀ t', t < t' → s.queues t' = []
  := by
  simp only [getNowait, Tier.all, List.findSome?_cons, List.findSome?_nil] at h
  rcases hhigh : s.queues .high with _ | ⟨i, is⟩
  · rcases hnormal : s.queues .normal with _ | ⟨j, js⟩
    · rcases hlow : s.queues .low with _ | ⟨k, ks⟩
      · simp [hhigh, hnormal, hlow] at h
      · obtain ⟨rfl, rfl, rfl⟩ : .low = t ∧ k = item ∧ ks = rest := by
          simpa [hhigh, hnormal, hlow] using h
        use hlow
        rintro (_ | _ | _) ht
        · apply hhigh
        · apply hnormal
        · cases lt_irrefl _ ht
    · obtain ⟨rfl, rfl, rfl⟩ : .normal = t ∧ j = item ∧ js = rest := by
        simpa [hhigh, hnormal] using h
      use hnormal
      rintro (_ | _ | _) ht
      · apply hhigh
      · cases lt_irrefl _ ht
      · simp [Tier.lt_iff, Tier.rank] at ht
  · obtain ⟨rfl, rfl, rfl⟩ : .high = t ∧ i = item ∧ is = rest := by
      simpa [hhigh] using h
    use hhigh
    rintro (_ | _ | _) ht
    · cases lt_irrefl _ ht
    · simp [Tier.lt_iff, Tier.rank] at ht
    · simp [Tier.lt_iff, Tier.rank] at ht

theorem queues_eq_nil_of_getNowait (h : s.getNowait = none) (t : Tier) :
  s.queues t = []
  := by
  have ht := List.findSome?_eq_none_iff.mp h t (Tier.mem_all t)
  cases hq : s.queues t with
  | nil => rfl
  | cons => simp [hq] at ht

theorem work_effect {w : Fin n} (now : ℚ) (hready : s.workers w = .ready)
    (hpermit : 0 < s.semaphore) :
  Effect cfg (.work w now) s (s.work cfg w now)
  := by
  simp only [work]
  split
  · rename_i h
    have hempty := queues_eq_nil_of_getNowait h
    have hall : s.allEmpty = true := by simp [allEmpty, hempty]
    rw [hall]
    apply Effect.idle hready hempty
  · rename_i t item rest h
    split_ifs with hstale
    · split
      · rename_i hf
        apply Effect.crash hready hpermit h hstale (Future.setException_eq_none hf)
      · rename_i hf
        obtain ⟨hpending, rfl⟩ := Future.setException_eq_some hf
        apply Effect.expire hready hpermit h hstale hpending
    · apply Effect.start hready hpermit h
      simpa using hstale

/-- Resolving a future leaves a future that is done as it was. -/
theorem resolve_eq (s : PriorityQueueManager δ ρ ε n) (k : ℕ) (resolved : Option (Future ρ ε))
    (hnone : resolved = none → (s.futures k).done = true)
    (hsome : ∀ f, resolved = some f → s.futures k = .pending ∧ f.done = true) :
  ∃ f, f.done = true ∧ ((s.futures k).done = true → f = s.futures k)
    ∧ s.resolve k resolved = s.setFuture k f
  := by
  cases resolved with
  | none =>
      use s.futures k, hnone rfl, fun _ => rfl
      rw [setFuture_self]
      rfl
  | some f =>
      obtain ⟨hpending, hdone⟩ := hsome f rfl
      use f, hdone
      constructor
      · rw [hpending]
        intro h
        cases h
      · rfl

theorem resolve_result_eq (s : PriorityQueueManager δ ρ ε n) (k : ℕ) (r : ρ) :
  ∃ f, f.done = true ∧ ((s.futures k).done = true → f = s.futures k)
    ∧ s.resolve k ((s.futures k).setResult r) = s.setFuture k f
  := by
  apply resolve_eq s k _ Future.setResult_eq_none
  intro f hf
  obtain ⟨hpending, rfl⟩ := Future.setResult_eq_some hf
  use hpending
  rfl

theorem resolve_exception_eq (s : PriorityQueueManager δ ρ ε n) (k : ℕ)
    (e : FutureException ε) :
  ∃ f, f.done = true ∧ ((s.futures k).done = true → f = s.futures k)
    ∧ s.resolve k ((s.futures k).setException e) = s.setFuture k f
  := by
  apply resolve_eq s k _ Future.setException_eq_none
  intro f hf
  obtain ⟨hpending, rfl⟩ := Future.setException_eq_some hf
  use hpending
  rfl

theorem finish_effect {w : Fin n} {item : QueueItem δ} (now : ℚ) (outcome : Except ε ρ)
    (hexecuting : s.workers w = .executing item) :
  Effect cfg (.finish w now outcome) s (s.finish w item now outcome)
  := by
  cases outcome with
  | ok r =>
      obtain ⟨f, hdone, hsame, heq⟩ := resolve_result_eq s item.future r
      simp only [finish, heq]
      apply Effect.complete hexecuting hdone hsame
  | error e =>
      obtain ⟨f, hdone, hsame, heq⟩ := resolve_exception_eq s item.future (.dispatch e)
      simp only [finish, heq]
      apply Effect.fail hexecuting hdone hsame

theorem flushItems_effects {tier : Option Tier} (t : Tier) (q : List (QueueItem δ)) :
  ∀ {s : PriorityQueueManager δ ρ ε n}, s.queues t = q →
    Effects cfg (.flush tier) s (flushItems t q s).1
  := by
  induction q with
  | nil =>
      intro s _
      apply Relation.ReflTransGen.refl
  | cons item rest ih =>
      intro s hq
      simp only [flushItems]
      split
      · rename_i hf
        apply Relation.ReflTransGen.single
        rw [← setFuture_self (PriorityQueueManager.record _ _) item.future]
        apply Effect.drop hq (Future.setException_eq_none hf)
        intro _
        rfl
      · rename_i f hf
        obtain ⟨hpending, rfl⟩ := Future.setException_eq_some hf
        apply Relation.ReflTransGen.trans _ (ih _)
        · apply Relation.ReflTransGen.single
          apply Effect.drop hq rfl
          intro hdone
          simp_all [Future.done]
        · simp

theorem flushTiers_effects {tier : Option Tier} (ts : List Tier) :
  ∀ {s : PriorityQueueManager δ ρ ε n}, Effects cfg (.flush tier) s (flushTiers ts s).1
  := by
  induction ts with
  | nil =>
      intro s
      apply Relation.ReflTransGen.refl
  | cons t ts ih =>
      intro s
      have hitems : Effects cfg (.flush tier) s (flushItems t (s.queues t) s).1 :=
        flushItems_effects t _ rfl
      simp only [flushTiers]
      split
      · rename_i h
        rw [h] at hitems
        apply hitems
      · rename_i h
        rw [h] at hitems
        apply hitems.trans ih

/-- A worker has one effect at a time. -/
theorem Step.work_inv {w : Fin n} {now : ℚ} (h : Step cfg s (.work w now) s') :
  Effect cfg (.work w now) s s'
  := by
  simp only [Step, ofStep, step] at h
  split at h
  · split_ifs at h with hpermit
    obtain rfl := Option.some.inj h
    apply work_effect now _ hpermit
    assumption
  · cases h

theorem Step.finish_inv {w : Fin n} {now : ℚ} {outcome : Except ε ρ}
    (h : Step cfg s (.finish w now outcome) s') :
  Effect cfg (.finish w now outcome) s s'
  := by
  simp only [Step, ofStep, step] at h
  split at h
  · obtain rfl := Option.some.inj h
    apply finish_effect
    assumption
  · cases h

/-- Every step is a sequence of effects of its action. -/
theorem Step.effects {a : Action δ ρ ε n} (h : Step cfg s a s') :
  Effects cfg a s s'
  := by
  cases a with
  | enqueue request =>
      obtain rfl := Option.some.inj h
      apply enqueue_effects
  | work w now => exact Relation.ReflTransGen.single h.work_inv
  | finish w now outcome => exact Relation.ReflTransGen.single h.finish_inv
  | flush tier =>
      obtain rfl := Option.some.inj h
      apply flushTiers_effects
  | pause tier =>
      obtain rfl := Option.some.inj h
      apply Relation.ReflTransGen.single (Effect.pause tier)
  | resume tier =>
      obtain rfl := Option.some.inj h
      apply Relation.ReflTransGen.single (Effect.resume tier)
  | cancel k =>
      simp only [Step, ofStep, step] at h
      split_ifs at h with hk
      obtain rfl := Option.some.inj h
      apply Relation.ReflTransGen.single (Effect.cancel hk)

/-- A property every effect of an action preserves is preserved by the action. -/
theorem Step.invariant {I : PriorityQueueManager δ ρ ε n → Prop} {a : Action δ ρ ε n}
    (hI : ∀ {s s'}, I s → Effect cfg a s s' → I s') (hs : I s) (h : Step cfg s a s') :
  I s'
  := by
  have heffects := h.effects
  clear h
  induction heffects with
  | refl => apply hs
  | tail _ heffect ih => apply hI ih heffect

end PriorityQueueManager

end OllamaQueueProxy
