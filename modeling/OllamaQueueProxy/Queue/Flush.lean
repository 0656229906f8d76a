import OllamaQueueProxy.Queue.Bytes

/-!
# Flushing

`flush` takes the items off the queues of its tiers one after the other, and sets the
exception of the future of each.  It does what it is to do exactly when all these futures are
pending (`flush_iff`): the first that is done makes it raise `InvalidStateError`, after its
item was removed, and leaves the other items where they are.
-/

open Transition

namespace OllamaQueueProxy

namespace PriorityQueueManager

variable {δ ρ ε : Type} {n : ℕ} {cfg : QueueConfig} {s s' : PriorityQueueManager δ ρ ε n}

/-- A flush of the tiers leads to the state, and returns the number of the items that it
removed; it returns none if it raises. -/
structure Flushes (ts : List Tier) (s s' : PriorityQueueManager δ ρ ε n)
    (dropped : Option ℕ) : Prop where
  dropped : dropped = some (ts.flatMap s.queues).length
  emptied : ∀ t ∈ ts, s'.queues t = []
  resolved : ∀ t ∈ ts, ∀ item ∈ s.queues t, (s.futures item.future).done = false →
    s'.futures item.future = .exception (.queueFlushed t)
  queues : ∀ t, t ∉ ts → s'.queues t = s.queues t
  paused : s'.paused = s.paused
  stats : s'.stats = s.stats

theorem flushItems_stats (t : Tier) (q : List (QueueItem δ)) (s : PriorityQueueManager δ ρ ε n) :
  (flushItems t q s).1.paused = s.paused ∧ (flushItems t q s).1.stats = s.stats
  := by
  induction q generalizing s with
  | nil => exact ⟨rfl, rfl⟩
  | cons item rest ih =>
      simp only [flushItems]
      split
      · exact ⟨rfl, rfl⟩
      · exact ih _

/-- The loop over one queue empties it if all futures are pending. -/
theorem flushItems_pending (t : Tier) {q : List (QueueItem δ)}
    (hq : (q.map QueueItem.future).Nodup) (s : PriorityQueueManager δ ρ ε n)
    (hs : s.queues t = q) (hpending : ∀ item ∈ q, (s.futures item.future).done = false) :
  (flushItems t q s).2 = some q.length ∧ (flushItems t q s).1.queues t = []
    ∧ ∀ item ∈ q, (flushItems t q s).1.futures item.future = .exception (.queueFlushed t)
  := by
  induction q generalizing s with
  | nil => exact ⟨rfl, hs, List.forall_mem_nil _⟩
  | cons item rest ih =>
      obtain ⟨hitem, hrest⟩ := List.nodup_cons.mp hq
      have hfuture : ((s.setQueue t rest).record (.flushed item)).futures item.future
          = .pending :=
        Future.done_eq_false_iff.mp (hpending item List.mem_cons_self)
      have hothers := update_futures s.futures (.exception (.queueFlushed t)) hitem
      have hlater : ∀ i ∈ rest, ((((s.setQueue t rest).record (.flushed item)).setFuture
          item.future (.exception (.queueFlushed t))).futures i.future).done = false := by
        intro i hi
        rw [setFuture_futures, record_futures, setQueue_futures, hothers i hi]
        exact hpending i (List.mem_cons_of_mem item hi)
      obtain ⟨hcount, hqueue, hfutures⟩ := ih hrest _ (by simp) hlater
      simp only [flushItems, hfuture, Future.setException]
      refine ⟨?_, hqueue, ?_⟩
      · rw [hcount]
        rfl
      · intro i hi
        obtain rfl | hi := List.mem_cons.mp hi
        · rw [(flushItems_frame t rest _).2.2 i.future hitem]
          simp
        · exact hfutures i hi

/-- What waits in other tiers is left by the loop over one queue. -/
theorem flatMap_queues_flushItems {t : Tier} {ts : List Tier} (ht : t ∉ ts)
    (s : PriorityQueueManager δ ρ ε n) :
  ts.flatMap (flushItems t (s.queues t) s).1.queues = ts.flatMap s.queues
  := by
  apply List.flatMap_congr
  intro t' ht'
  apply (flushItems_frame t (s.queues t) s).1
  rintro rfl
  exact ht ht'

/-- The loop over the tiers leaves the other queues and the other futures alone. -/
theorem flushTiers_frame {ts : List Tier} (hts : ts.Nodup)
    (s : PriorityQueueManager δ ρ ε n) :
  (∀ t, t ∉ ts → (flushTiers ts s).1.queues t = s.queues t)
    ∧ ∀ k, k ∉ (ts.flatMap s.queues).map QueueItem.future →
      (flushTiers ts s).1.futures k = s.futures k
  := by
  induction ts generalizing s with
  | nil => exact ⟨fun _ _ => rfl, fun _ _ => rfl⟩
  | cons t ts ih =>
      obtain ⟨ht, hts⟩ := List.nodup_cons.mp hts
      obtain ⟨hqueues, -, hfutures⟩ := flushItems_frame t (s.queues t) s
      obtain ⟨hqueues', hfutures'⟩ := ih hts (flushItems t (s.queues t) s).1
      rw [flatMap_queues_flushItems ht] at hfutures'
      have hstay : (∀ t', t' ∉ t :: ts →
          (flushItems t (s.queues t) s).1.queues t' = s.queues t')
          ∧ ∀ k, k ∉ ((t :: ts).flatMap s.queues).map QueueItem.future →
            (flushItems t (s.queues t) s).1.futures k = s.futures k := by
        constructor
        · intro t' ht'
          exact hqueues t' (List.ne_of_not_mem_cons ht')
        · intro k hk
          rw [List.flatMap_cons, List.map_append, List.mem_append, not_or] at hk
          exact hfutures k hk.1
      simp only [flushTiers]
      split
      · rename_i s' h
        rw [h] at hstay
        exact hstay
      · rename_i s' dropped h
        rw [h] at hstay hqueues' hfutures'
        constructor
        · intro t' ht'
          exact (hqueues' t' (List.not_mem_of_not_mem_cons ht')).trans (hstay.1 t' ht')
        · intro k hk
          have hrest := hk
          rw [List.flatMap_cons, List.map_append, List.mem_append, not_or] at hrest
          exact (hfutures' k hrest.2).trans (hstay.2 k hk)

theorem anyDone_eq_false {futures : ℕ → Future ρ ε} {q : List (QueueItem δ)} :
  anyDone futures q = false ↔ ∀ item ∈ q, (futures item.future).done = false
  := by
  simp [anyDone]

/-! ### One tier after the other -/

theorem flushTiers_cons_of_some {t : Tier} {ts : List Tier} {s : PriorityQueueManager δ ρ ε n}
    {dropped : ℕ} (h : (flushItems t (s.queues t) s).2 = some dropped) :
  flushTiers (t :: ts) s
    = ((flushTiers ts (flushItems t (s.queues t) s).1).1,
      (flushTiers ts (flushItems t (s.queues t) s).1).2.map (dropped + ·))
  := by
  rw [flushTiers]
  split
  · rename_i hraises
    rw [hraises] at h
    cases h
  · rename_i s' dropped' hflushed
    rw [hflushed] at h
    obtain rfl := Option.some.inj h
    rw [hflushed]

theorem flushTiers_cons_of_none {t : Tier} {ts : List Tier} {s : PriorityQueueManager δ ρ ε n}
    (h : (flushItems t (s.queues t) s).2 = none) :
  (flushTiers (t :: ts) s).2 = none
  := by
  rw [flushTiers]
  split
  · rfl
  · rename_i hflushed
    rw [hflushed] at h
    cases h

/-- The loop over one queue flushes its tier if all futures are pending. -/
theorem flushes_flushItems (t : Tier) (s : PriorityQueueManager δ ρ ε n)
    (hq : ((s.queues t).map QueueItem.future).Nodup)
    (hpending : ∀ item ∈ s.queues t, (s.futures item.future).done = false) :
  Flushes [t] s (flushItems t (s.queues t) s).1 (some (s.queues t).length)
  := by
  obtain ⟨-, hempty, hresolved⟩ := flushItems_pending t hq s rfl hpending
  obtain ⟨hpaused, hstats⟩ := flushItems_stats t (s.queues t) s
  constructor
  · simp
  · simpa using hempty
  · simpa using fun item hitem _ => hresolved item hitem
  · intro t' ht'
    exact (flushItems_frame t (s.queues t) s).1 t' (by simpa using ht')
  · exact hpaused
  · exact hstats

/-- A tier is flushed before the others, which have items with other futures. -/
theorem Flushes.cons {t : Tier} {ts : List Tier} {s s₁ s₂ : PriorityQueueManager δ ρ ε n}
    {m : ℕ} {dropped : Option ℕ} (ht : t ∉ ts)
    (hfutures : (((t :: ts).flatMap s.queues).map QueueItem.future).Nodup)
    (hfirst : Flushes [t] s s₁ (some m))
    (hothers : ∀ k, k ∉ (s.queues t).map QueueItem.future → s₁.futures k = s.futures k)
    (hrest : Flushes ts s₁ s₂ dropped)
    (hothers' : ∀ k, k ∉ (ts.flatMap s₁.queues).map QueueItem.future →
      s₂.futures k = s₁.futures k) :
  Flushes (t :: ts) s s₂ (dropped.map (m + ·))
  := by
  have hkept : ∀ t' ∈ ts, s₁.queues t' = s.queues t' := by
    intro t' ht'
    apply hfirst.queues t'
    rintro hmem
    obtain rfl := List.mem_singleton.mp hmem
    exact ht ht'
  have hsame : ts.flatMap s₁.queues = ts.flatMap s.queues := List.flatMap_congr hkept
  rw [hsame] at hothers'
  rw [List.flatMap_cons, List.map_append] at hfutures
  obtain ⟨-, -, hdisjoint⟩ := List.nodup_append.mp hfutures
  constructor
  · have hm : m = (s.queues t).length := by simpa using hfirst.dropped
    rw [hrest.dropped, hsame, List.flatMap_cons, List.length_append, hm]
    rfl
  · intro t' ht'
    obtain rfl | ht' := List.mem_cons.mp ht'
    · rw [hrest.queues t' ht]
      exact hfirst.emptied t' (List.mem_singleton_self t')
    · exact hrest.emptied t' ht'
  · intro t' ht' item hitem hpending
    obtain rfl | ht' := List.mem_cons.mp ht'
    · rw [hothers' item.future]
      · exact hfirst.resolved t' (List.mem_singleton_self t') item hitem hpending
      · intro hmem
        exact hdisjoint _ (List.mem_map_of_mem hitem) _ hmem rfl
    · have hmem : item ∈ ts.flatMap s.queues := List.mem_flatMap.mpr ⟨t', ht', hitem⟩
      apply hrest.resolved t' ht' item
      · rwa [hkept t' ht']
      · rwa [hothers item.future]
        intro hsame'
        exact hdisjoint _ hsame' _ (List.mem_map_of_mem hmem) rfl
  · intro t' ht'
    rw [hrest.queues t' (List.not_mem_of_not_mem_cons ht')]
    apply hfirst.queues t'
    rw [List.mem_singleton]
    exact List.ne_of_not_mem_cons ht'
  · exact hrest.paused.trans hfirst.paused
  · exact hrest.stats.trans hfirst.stats

/-- The loop over the tiers does what it is to do if all futures are pending, and an exception
leaves it otherwise. -/
theorem flushTiers_spec {ts : List Tier} (hts : ts.Nodup) (s : PriorityQueueManager δ ρ ε n)
    (hfutures : ((ts.flatMap s.queues).map QueueItem.future).Nodup) :
  if anyDone s.futures (ts.flatMap s.queues) then (flushTiers ts s).2 = none
    else Flushes ts s (flushTiers ts s).1 (flushTiers ts s).2
  := by
  induction ts generalizing s with
  | nil =>
      exact ⟨rfl, List.forall_mem_nil _, List.forall_mem_nil _, fun _ _ => rfl, rfl, rfl⟩
  | cons t ts ih =>
      obtain ⟨ht, hts⟩ := List.nodup_cons.mp hts
      have hsplit := hfutures
      rw [List.flatMap_cons, List.map_append] at hsplit
      obtain ⟨hfirst, hrest, hdisjoint⟩ := List.nodup_append.mp hsplit
      have hany : anyDone s.futures ((t :: ts).flatMap s.queues)
          = (anyDone s.futures (s.queues t) || anyDone s.futures (ts.flatMap s.queues)) := by
        rw [anyDone, List.flatMap_cons, List.any_append]
        rfl
      cases hdone : anyDone s.futures (s.queues t) with
      | true =>
          rw [hany, hdone, Bool.true_or, if_pos rfl]
          exact flushTiers_cons_of_none ((flushItems_spec t hfirst s rfl).2.mpr hdone)
      | false =>
          have hpending := anyDone_eq_false.mp hdone
          have hframe := (flushItems_frame t (s.queues t) s).2.2
          have hothers : ∀ i ∈ ts.flatMap s.queues,
              (flushItems t (s.queues t) s).1.futures i.future = s.futures i.future := by
            intro i hi
            apply hframe
            intro hmem
            exact hdisjoint _ hmem _ (List.mem_map_of_mem hi) rfl
          have hlater := ih hts (flushItems t (s.queues t) s).1
            (by rwa [flatMap_queues_flushItems ht])
          rw [flatMap_queues_flushItems ht, anyDone_congr hothers] at hlater
          rw [hany, hdone, Bool.false_or,
            flushTiers_cons_of_some (flushItems_pending t hfirst s rfl hpending).1]
          split at hlater
          · rename_i hraises
            rw [if_pos hraises, hlater]
            rfl
          · rename_i hnone
            rw [if_neg hnone]
            exact (flushes_flushItems t s hfirst hpending).cons ht hfutures hframe hlater
              (flushTiers_frame hts (flushItems t (s.queues t) s).1).2

/-- From every state that can be reached, `flush` does what it is to do exactly when no item of
its tiers has a future that is done. -/
theorem flush_iff (h : Reachable (Step cfg) (initial δ ρ ε n) s) (tier : Option Tier) :
  Flushes (tiersOf tier) s (s.flush tier).1 (s.flush tier).2
    ↔ ∀ t ∈ tiersOf tier, ∀ item ∈ s.queues t, (s.futures item.future).done = false
  := by
  have htracked := Reachable.tracked h
  have htiers := nodup_tiersOf tier
  have hspec := flushTiers_spec htiers s (htracked.flatMap_nodup htiers)
  have hpending : (∀ t ∈ tiersOf tier, ∀ item ∈ s.queues t,
      (s.futures item.future).done = false)
      ↔ anyDone s.futures ((tiersOf tier).flatMap s.queues) = false := by
    rw [anyDone_eq_false]
    simp only [List.mem_flatMap]
    constructor
    · rintro h item ⟨t, ht, hitem⟩
      exact h t ht item hitem
    · intro h t ht item hitem
      exact h item ⟨t, ht, hitem⟩
  rw [hpending]
  cases hdone : anyDone s.futures ((tiersOf tier).flatMap s.queues) with
  | true =>
      rw [hdone, if_pos rfl] at hspec
      apply iff_of_false
      · intro hflushes
        rw [flush, hspec] at hflushes
        cases hflushes.dropped
      · exact Bool.noConfusion
  | false =>
      rw [hdone, if_neg Bool.false_ne_true] at hspec
      exact iff_of_true hspec rfl

/-- Two items are enqueued, and the caller of the first is cancelled. -/
def enqueuedThenCancelled : List (Action Unit Unit Unit 1) :=
  [.enqueue ⟨.normal, 0, "r", (), 7⟩, .enqueue ⟨.normal, 0, "q", (), 7⟩, .cancel 0]

/-- After the run above `flush` raises. -/
theorem not_flushes :
  ∃ s, Reachable (Step .default) (initial Unit Unit Unit 1) s
    ∧ ¬ Flushes (tiersOf none) s (s.flush none).1 (s.flush none).2
  := by
  have hexec : (exec (step .default) (initial Unit Unit Unit 1) enqueuedThenCancelled).any
      (fun s => (s.flush none).2.isNone) = true := by
    decide +kernel
  obtain ⟨s, hs, hraises⟩ := (Option.any_eq_true _ _).mp hexec
  use s, ⟨_, run_of_exec hs⟩
  intro h
  rw [h.dropped] at hraises
  cases hraises

/-- Before the caller is cancelled `flush` does what it is to do. -/
theorem flush_iff_enqueued :
  ∃ s, Reachable (Step .default) (initial Unit Unit Unit 1) s
    ∧ Flushes (tiersOf none) s (s.flush none).1 (s.flush none).2
  := by
  have hexec : (exec (step .default) (initial Unit Unit Unit 1)
      (enqueuedThenCancelled.take 2)).any
      (fun s => Tier.all.all fun t => (s.queues t).all fun item =>
        !(s.futures item.future).done) = true := by
    decide +kernel
  obtain ⟨s, hs, hall⟩ := (Option.any_eq_true _ _).mp hexec
  have hreachable : Reachable (Step .default) (initial Unit Unit Unit 1) s :=
    ⟨_, run_of_exec hs⟩
  use s, hreachable
  apply (flush_iff hreachable none).mpr
  intro t ht item hitem
  simpa using List.all_eq_true.mp (List.all_eq_true.mp hall t ht) item hitem

end PriorityQueueManager

end OllamaQueueProxy
