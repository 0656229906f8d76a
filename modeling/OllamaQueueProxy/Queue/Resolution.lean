import OllamaQueueProxy.Queue.Admission
import OllamaQueueProxy.Queue.Conservation

/-!
# The resolution of futures

A future that is pending is resolved by the action that concerns its item: the item is found
expired, its dispatch ends, it is flushed, or its caller is cancelled; and then it says which
(`step_resolution`).  No other action changes a future.
-/

open Transition

namespace OllamaQueueProxy

namespace PriorityQueueManager

variable {δ ρ ε : Type} {n : ℕ} {cfg : QueueConfig} {s s' : PriorityQueueManager δ ρ ε n}

/-- The action resolves the future `k`, which becomes `f`. -/
inductive Resolution (s : PriorityQueueManager δ ρ ε n) :
    Action δ ρ ε n → ℕ → Future ρ ε → Prop where
  | expired {w : Fin n} {now : ℚ} {t : Tier} {item : QueueItem δ} {rest : List (QueueItem δ)}
      (hnext : s.getNowait = some (t, item, rest)) :
      Resolution s (.work w now) item.future
        (.exception (.requestExpired item.tier item.requestId))
  | returned {w : Fin n} {now : ℚ} {item : QueueItem δ} {r : ρ}
      (hexecuting : s.workers w = .executing item) :
      Resolution s (.finish w now (.ok r)) item.future (.result r)
  | raised {w : Fin n} {now : ℚ} {item : QueueItem δ} {e : ε}
      (hexecuting : s.workers w = .executing item) :
      Resolution s (.finish w now (.error e)) item.future (.exception (.dispatch e))
  | flushed {tier : Option Tier} {t : Tier} {item : QueueItem δ} (ht : t ∈ tiersOf tier)
      (hitem : item ∈ s.queues t) :
      Resolution s (.flush tier) item.future (.exception (.queueFlushed t))
  | cancelled (k : ℕ) : Resolution s (.cancel k) k .cancelled

/-- The future `k` is what it was, or it was pending and the action has resolved it. -/
def KeepsOrResolves (s : PriorityQueueManager δ ρ ε n) (a : Action δ ρ ε n) (k : ℕ)
    (f : Future ρ ε) : Prop :=
  f = s.futures k ∨ s.futures k = .pending ∧ Resolution s a k f

theorem step_pause (cfg : QueueConfig) (s : PriorityQueueManager δ ρ ε n) (tier : Option Tier) :
  Step cfg s (.pause tier) (s.pause tier)
  := rfl

theorem step_resume (cfg : QueueConfig) (s : PriorityQueueManager δ ρ ε n) (tier : Option Tier) :
  Step cfg s (.resume tier) (s.resume tier)
  := rfl

theorem step_flush (cfg : QueueConfig) (s : PriorityQueueManager δ ρ ε n) (tier : Option Tier) :
  Step cfg s (.flush tier) (s.flush tier).1
  := rfl

/-! ### Operations that resolve nothing -/

/-- The futures, and whether the tiers are paused, are as before. -/
structure SameFutures (s s' : PriorityQueueManager δ ρ ε n) : Prop where
  futures : s'.futures = s.futures
  created : s'.created = s.created
  paused : s'.paused = s.paused

theorem SameFutures.refl (s : PriorityQueueManager δ ρ ε n) :
  SameFutures s s
  := ⟨rfl, rfl, rfl⟩

theorem setHasItems_paused (s : PriorityQueueManager δ ρ ε n) :
  s.setHasItems.paused = s.paused
  := by
  unfold setHasItems
  split <;> rfl

theorem checkWatermark_sameFutures {t : Tier} (h : checkWatermark cfg s t = some s') :
  SameFutures s s'
  := by
  unfold checkWatermark at h
  split at h
  · cases h
  · split_ifs at h <;> obtain rfl := Option.some.inj h <;> exact ⟨rfl, rfl, rfl⟩

theorem put_sameFutures (s : PriorityQueueManager δ ρ ε n) (item : QueueItem δ) :
  SameFutures s (s.put item)
  := ⟨setHasItems_futures _, setHasItems_created _, setHasItems_paused _⟩

/-- `enqueue` resolves no future. -/
theorem enqueue_sameFutures (s : PriorityQueueManager δ ρ ε n) (item : QueueItem δ) :
  SameFutures s (s.enqueue cfg item).1
  := by
  simp only [enqueue]
  split_ifs
  · exact .refl s
  · exact ⟨rfl, rfl, rfl⟩
  · exact ⟨rfl, rfl, rfl⟩
  · split
    · exact put_sameFutures _ _
    · rename_i h
      have hput := put_sameFutures s { item with position := s.nextPosition item.tier }
      have hcheck := checkWatermark_sameFutures h
      exact ⟨hcheck.futures.trans hput.futures, hcheck.created.trans hput.created,
        hcheck.paused.trans hput.paused⟩

/-! ### Turns, dispatches and flushes -/

/-- Setting a pending future resolves it and keeps the others. -/
theorem keepsOrResolves_update {a : Action δ ρ ε n} {j : ℕ} {f : Future ρ ε}
    (hpending : s.futures j = .pending) (hf : Resolution s a j f) (k : ℕ) :
  KeepsOrResolves s a k (Function.update s.futures j f k)
  := by
  by_cases hk : k = j
  · subst hk
    rw [Function.update_self]
    exact .inr ⟨hpending, hf⟩
  · rw [Function.update_of_ne hk]
    exact .inl rfl

theorem work_resolution (w : Fin n) (now : ℚ) (k : ℕ) :
  KeepsOrResolves s (.work w now) k ((s.work cfg w now).futures k)
  := by
  simp only [work]
  split
  · exact .inl rfl
  · rename_i t item rest hnext
    split_ifs
    · split
      · exact .inl rfl
      · rename_i f hf
        obtain ⟨hpending, rfl⟩ := Future.setException_eq_some hf
        rw [settle_futures]
        exact keepsOrResolves_update (s := s) hpending (.expired hnext) k
    · exact .inl rfl

theorem finish_resolution {w : Fin n} {item : QueueItem δ} (now : ℚ) (outcome : Except ε ρ)
    (hexecuting : s.workers w = .executing item) (k : ℕ) :
  KeepsOrResolves s (.finish w now outcome) k ((s.finish w item now outcome).futures k)
  := by
  cases outcome with
  | ok r =>
      simp only [finish, settle_futures, countProcessed_futures]
      cases hf : (s.futures item.future).setResult r with
      | none => exact .inl rfl
      | some f =>
          obtain ⟨hpending, rfl⟩ := Future.setResult_eq_some hf
          exact keepsOrResolves_update hpending (.returned hexecuting) k
  | error e =>
      simp only [finish, settle_futures, record_futures]
      cases hf : (s.futures item.future).setException (.dispatch e) with
      | none => exact .inl rfl
      | some f =>
          obtain ⟨hpending, rfl⟩ := Future.setException_eq_some hf
          exact keepsOrResolves_update hpending (.raised hexecuting) k

/-- The loop of `flush` over a queue resolves the futures of its items. -/
theorem flushItems_resolution (t : Tier) (q : List (QueueItem δ)) :
  ∀ (s : PriorityQueueManager δ ρ ε n) (k : ℕ), (flushItems t q s).1.futures k = s.futures k
    ∨ s.futures k = .pending ∧ (flushItems t q s).1.futures k = .exception (.queueFlushed t)
      ∧ ∃ item ∈ q, item.future = k
  := by
  induction q with
  | nil => exact fun s k => .inl rfl
  | cons item rest ih =>
      intro s k
      simp only [flushItems]
      split
      · exact .inl rfl
      · rename_i f hf
        obtain ⟨hpending, rfl⟩ := Future.setException_eq_some hf
        by_cases hk : k = item.future
        · subst hk
          right
          use hpending
          obtain hkept | ⟨hpending', -⟩ := ih (((s.setQueue t rest).record
            (.flushed item)).setFuture item.future (.exception (.queueFlushed t))) item.future
          · rw [hkept, setFuture_futures, Function.update_self]
            exact ⟨rfl, item, List.mem_cons_self, rfl⟩
          · rw [setFuture_futures, Function.update_self] at hpending'
            cases hpending'
        · have hsame : (((s.setQueue t rest).record (.flushed item)).setFuture item.future
              (.exception (.queueFlushed t))).futures k = s.futures k := by
            rw [setFuture_futures, Function.update_of_ne hk]
            rfl
          obtain hkept | ⟨hpending', hflushed, i, hi, hfuture⟩ := ih (((s.setQueue t rest).record
            (.flushed item)).setFuture item.future (.exception (.queueFlushed t))) k
          · exact .inl (hkept.trans hsame)
          · exact .inr ⟨hsame.symm.trans hpending', hflushed, i, List.mem_cons_of_mem _ hi, hfuture⟩

theorem flushItems_shrinks {t : Tier} {q : List (QueueItem δ)} (hq : s.queues t = q) :
  Shrinks s (flushItems t q s).1
  := by
  have heffects : Effects QueueConfig.default (.flush none) s (flushItems t q s).1 :=
    flushItems_effects t q hq
  generalize (flushItems t q s).1 = s' at heffects ⊢
  induction heffects with
  | refl => exact fun _ => List.Sublist.refl _
  | tail _ heffect ih =>
      intro u
      exact (heffect.shrinks (by simp) u).trans (ih u)

/-- What a flush resolves in a state with fewer items it resolves. -/
theorem Resolution.of_shrinks {tier : Option Tier} {k : ℕ} {f : Future ρ ε}
    (h : Resolution s' (.flush tier) k f) (hshrinks : Shrinks s s') :
  Resolution s (.flush tier) k f
  := by
  cases h with
  | flushed ht hitem => exact .flushed ht ((hshrinks _).subset hitem)

/-- The loop of `flush` over tiers resolves the futures of the items in their queues. -/
theorem flushTiers_resolution {tier : Option Tier} {ts : List Tier} (hts : ts ⊆ tiersOf tier) :
  ∀ (s : PriorityQueueManager δ ρ ε n) (k : ℕ),
    KeepsOrResolves s (.flush tier) k ((flushTiers ts s).1.futures k)
  := by
  induction ts with
  | nil => exact fun s k => .inl rfl
  | cons t ts ih =>
      intro s k
      obtain ⟨ht, hrest⟩ := List.cons_subset.mp hts
      have hitems : KeepsOrResolves s (.flush tier) k
          ((flushItems t (s.queues t) s).1.futures k) := by
        obtain hkept | ⟨hpending, hflushed, item, hitem, rfl⟩ :=
          flushItems_resolution t (s.queues t) s k
        · exact .inl hkept
        · rw [hflushed]
          exact .inr ⟨hpending, .flushed ht hitem⟩
      have hshrinks : Shrinks s (flushItems t (s.queues t) s).1 := flushItems_shrinks rfl
      simp only [flushTiers]
      split
      · rename_i s' h
        rw [h] at hitems
        exact hitems
      · rename_i s' dropped h
        rw [h] at hitems hshrinks
        dsimp only at hitems hshrinks ⊢
        obtain hkept | ⟨hpending, hresolved⟩ := ih hrest s' k
        · rwa [hkept]
        · obtain hbefore | ⟨-, hdone⟩ := hitems
          · exact .inr ⟨hbefore.symm.trans hpending, hresolved.of_shrinks hshrinks⟩
          · rw [hpending] at hdone
            cases hdone

/-! ### Steps -/

/-- Futures are created by `enqueue` only, one at a time. -/
theorem Effect.created_le {a : Action δ ρ ε n} (heffect : Effect cfg a s s') :
  s.created ≤ s'.created
  := by
  cases heffect with
  | createFuture => exact Nat.le_succ _
  | accept =>
      rw [(put_sameFutures _ _).created]
      exact Nat.le_succ _
  | expire | complete | fail =>
      rw [settle_created]
      exact le_rfl
  | note | fire | idle | start | crash | drop | pause | resume | cancel => exact le_rfl

theorem step_created_le {a : Action δ ρ ε n} (h : Step cfg s a s') :
  s.created ≤ s'.created
  := Step.invariant (fun hs heffect => le_trans hs heffect.created_le) le_rfl h

/-- Only `enqueue` creates futures. -/
theorem Effect.created_eq {a : Action δ ρ ε n} (ha : ∀ request, a ≠ .enqueue request)
    (heffect : Effect cfg a s s') :
  s'.created = s.created
  := by
  cases heffect with
  | note | fire | createFuture | accept => cases ha _ rfl
  | expire | complete | fail =>
      rw [settle_created]
      rfl
  | idle | start | crash | drop | pause | resume | cancel => rfl

theorem step_created_eq {a : Action δ ρ ε n} (ha : ∀ request, a ≠ .enqueue request)
    (h : Step cfg s a s') :
  s'.created = s.created
  := Step.invariant (I := fun m => m.created = s.created)
    (fun hs heffect => (heffect.created_eq ha).trans hs) rfl h

theorem settle_paused (s : PriorityQueueManager δ ρ ε n) (w : Fin n) :
  (s.settle w).paused = s.paused
  := by
  unfold settle
  split <;> rfl

/-- Tiers are paused and resumed by `pause` and `resume` only. -/
theorem Effect.paused_eq {a : Action δ ρ ε n} (hpause : ∀ tier, a ≠ .pause tier)
    (hresume : ∀ tier, a ≠ .resume tier) (heffect : Effect cfg a s s') :
  s'.paused = s.paused
  := by
  cases heffect with
  | pause tier => cases hpause tier rfl
  | resume tier => cases hresume tier rfl
  | accept => exact (put_sameFutures _ _).paused
  | expire | complete | fail =>
      rw [settle_paused]
      rfl
  | note | fire | createFuture | idle | start | crash | drop | cancel => rfl

theorem step_paused_eq {a : Action δ ρ ε n} (hpause : ∀ tier, a ≠ .pause tier)
    (hresume : ∀ tier, a ≠ .resume tier) (h : Step cfg s a s') :
  s'.paused = s.paused
  := Step.invariant (I := fun m => m.paused = s.paused)
    (fun hs heffect => (heffect.paused_eq hpause hresume).trans hs) rfl h

/-- A future is told that its item was flushed only by a flush of its tier. -/
theorem Resolution.flushes {a : Action δ ρ ε n} {k : ℕ} {t : Tier}
    (h : Resolution s a k (.exception (.queueFlushed t))) :
  ∃ tier, a = .flush tier ∧ t ∈ tiersOf tier
  := by
  cases h with
  | flushed ht _ => exact ⟨_, rfl, ht⟩

/-- By every step, a future stays what it was, unless it was pending and the action resolves
it. -/
theorem step_resolution {a : Action δ ρ ε n} (h : Step cfg s a s') (k : ℕ) :
  KeepsOrResolves s a k (s'.futures k)
  := by
  cases a with
  | enqueue request =>
      obtain rfl := Option.some.inj h
      rw [(enqueue_sameFutures _ _).futures]
      exact .inl rfl
  | work w now =>
      simp only [Step, ofStep, step] at h
      split at h
      · split_ifs at h
        obtain rfl := Option.some.inj h
        exact work_resolution w now k
      · cases h
  | finish w now outcome =>
      simp only [Step, ofStep, step] at h
      split at h
      · rename_i hexecuting
        obtain rfl := Option.some.inj h
        exact finish_resolution now outcome hexecuting k
      · cases h
  | flush tier =>
      obtain rfl := Option.some.inj h
      exact flushTiers_resolution (List.Subset.refl _) s k
  | pause | resume =>
      obtain rfl := Option.some.inj h
      exact .inl rfl
  | cancel j =>
      simp only [Step, ofStep, step] at h
      split_ifs at h with hj
      obtain rfl := Option.some.inj h
      rw [setFuture_futures]
      cases hf : s.futures j with
      | pending => exact keepsOrResolves_update hf (.cancelled j) k
      | result | exception | cancelled =>
          rw [Future.cancel_of_done (by rfl), ← hf, Function.update_eq_self]
          exact .inl rfl

end PriorityQueueManager

end OllamaQueueProxy
