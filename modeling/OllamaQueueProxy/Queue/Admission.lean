import OllamaQueueProxy.Queue.Bytes
import Mathlib.Algebra.BigOperators.Ring.Finset
import Mathlib.Algebra.Order.BigOperators.Group.Finset

/-!
# Admission

What `enqueue` does to the queues.  It refuses an item and leaves the queues as they were,
or it appends the item to the queue of its tier; but when the maximal depth of the tier is
zero, the check of the high watermark then divides by zero, and the caller is told that
`enqueue` failed although the item waits (`allOrNothing_iff`).

What is admitted bounds what waits: `queued_bytes` is never less than the total size of the
waiting items, although `flush` lets it become greater, so the ceiling on the former is one
on the latter, except for an item that waits alone (`reachable_withinLimits`).
-/

open Transition

namespace OllamaQueueProxy

/-- The exception tells the caller that the item was not put in a queue. -/
inductive EnqueueError.IsRefusal : EnqueueError → Prop where
  | queuePaused (tier : Tier) : IsRefusal (.queuePaused tier)
  | queueFull (tier : Tier) (statusCode : ℕ) : IsRefusal (.queueFull tier statusCode)
  | queueOverCapacity (tier : Tier) (statusCode : ℕ) :
      IsRefusal (.queueOverCapacity tier statusCode)

/-- The event reports that an item was not put in a queue. -/
inductive QueueEvent.IsRefusal : QueueEvent → Prop where
  | full (tier : Tier) (clientId : String) : IsRefusal (.full tier clientId)
  | overCapacity (tier : Tier) (clientId : String) : IsRefusal (.overCapacity tier clientId)

namespace PriorityQueueManager

variable {δ ρ ε : Type} {n : ℕ} {cfg : QueueConfig} {s s' : PriorityQueueManager δ ρ ε n}

/-- The queues, what is counted of them and the watermarks are as before. -/
structure SameQueues (s s' : PriorityQueueManager δ ρ ε n) : Prop where
  queues : s'.queues = s.queues
  queuedBytes : s'.queuedBytes = s.queuedBytes
  hasItems : s'.hasItems = s.hasItems
  watermarkFired : s'.watermarkFired = s.watermarkFired

/-- The item is appended to the queue of its tier. -/
structure Appended (item : QueueItem δ) (s s' : PriorityQueueManager δ ρ ε n) : Prop where
  queues : s'.queues = Function.update s.queues item.tier (s.queues item.tier ++ [item])
  queuedBytes : s'.queuedBytes = s.queuedBytes + item.nbytes
  hasItems : s'.hasItems = true

/-- `enqueue` returns a position and has appended the item, or it raises an exception and has
changed nothing. -/
def AllOrNothing (cfg : QueueConfig) (s : PriorityQueueManager δ ρ ε n) (item : QueueItem δ) :
    Prop :=
  (∃ position, (s.enqueue cfg item).2 = .ok position ∧ position = s.nextPosition item.tier
      ∧ Appended { item with position := position } s (s.enqueue cfg item).1)
    ∨ ∃ e, (s.enqueue cfg item).2 = .error e ∧ e.IsRefusal ∧ SameQueues s (s.enqueue cfg item).1

/-- The checks that precede the insertion let the item pass. -/
structure Admits (cfg : QueueConfig) (s : PriorityQueueManager δ ρ ε n) (item : QueueItem δ) :
    Prop where
  paused : s.paused item.tier = false
  full : s.full cfg item.tier = false
  capacity : s.allEmpty = false → (s.queuedBytes + item.nbytes : ℤ) ≤ cfg.maxQueuedBytes

theorem checkWatermark_eq_none_iff {t : Tier} :
  checkWatermark cfg s t = none ↔ (cfg.tier t).maxDepth = 0
  := by
  unfold checkWatermark depthPct
  split_ifs with hzero
  · exact iff_of_true rfl hzero
  · dsimp only
    split_ifs <;> simp [hzero]

theorem Appended.checkWatermark {item : QueueItem δ} {s'' : PriorityQueueManager δ ρ ε n}
    {t : Tier} (h : Appended item s s') (hcheck : checkWatermark cfg s' t = some s'') :
  Appended item s s''
  := by
  unfold PriorityQueueManager.checkWatermark at hcheck
  split at hcheck
  · cases hcheck
  · split_ifs at hcheck <;> obtain rfl := Option.some.inj hcheck
    · exact ⟨h.queues, h.queuedBytes, h.hasItems⟩
    · exact ⟨h.queues, h.queuedBytes, h.hasItems⟩
    · exact h

theorem appended_put (s : PriorityQueueManager δ ρ ε n) (item : QueueItem δ) :
  Appended item s (s.put item)
  := by
  constructor
  · rw [put, record_queues, setHasItems_queues]
    rfl
  · rw [put, record_queuedBytes, setHasItems_queuedBytes]
  · rw [put, record_hasItems, setHasItems]
    split
    · assumption
    · rfl

/-- An item that the checks do not let pass is refused, which may be counted and reported. -/
theorem enqueue_refuses {item : QueueItem δ} (h : ¬ Admits cfg s item) :
  ∃ e : EnqueueError, e.IsRefusal ∧ (s.enqueue cfg item = (s, .error e)
    ∨ ∃ event : QueueEvent, event.IsRefusal
      ∧ s.enqueue cfg item = (s.reject item.tier event, .error e))
  := by
  unfold enqueue
  split_ifs with hpaused hfull hcapacity
  · exact ⟨_, .queuePaused _, .inl rfl⟩
  · exact ⟨_, .queueFull _ _, .inr ⟨_, .full _ _, rfl⟩⟩
  · exact ⟨_, .queueOverCapacity _ _, .inr ⟨_, .overCapacity _ _, rfl⟩⟩
  · apply absurd _ h
    constructor
    · simpa using hpaused
    · simpa using hfull
    · intro hempty
      by_contra hover
      exact hcapacity ⟨lt_of_not_ge hover, hempty⟩

theorem enqueue_of_not_admits {item : QueueItem δ} (h : ¬ Admits cfg s item) :
  ∃ e, (s.enqueue cfg item).2 = .error e ∧ e.IsRefusal ∧ SameQueues s (s.enqueue cfg item).1
  := by
  obtain ⟨e, hrefusal, hsame | ⟨event, -, hreject⟩⟩ := enqueue_refuses h
  · rw [hsame]
    exact ⟨e, rfl, hrefusal, ⟨rfl, rfl, rfl, rfl⟩⟩
  · rw [hreject]
    exact ⟨e, rfl, hrefusal, ⟨rfl, rfl, rfl, rfl⟩⟩

/-- An item that the checks let pass is appended; `enqueue` then returns its position, unless
the maximal depth of its tier is zero. -/
theorem enqueue_of_admits {item : QueueItem δ} (h : Admits cfg s item) :
  Appended { item with position := s.nextPosition item.tier } s (s.enqueue cfg item).1
    ∧ (s.enqueue cfg item).2 = if (cfg.tier item.tier).maxDepth = 0 then .error .zeroDivision
      else .ok (s.nextPosition item.tier)
  := by
  have hput := appended_put s { item with position := s.nextPosition item.tier }
  have hcapacity : ¬ (cfg.maxQueuedBytes < s.queuedBytes + item.nbytes ∧ s.allEmpty = false) := by
    rintro ⟨hover, hempty⟩
    exact absurd (h.capacity hempty) (not_le_of_gt hover)
  simp only [enqueue, h.paused, h.full, if_neg hcapacity, Bool.false_eq_true, if_false]
  cases hcheck : checkWatermark cfg
      (s.put { item with position := s.nextPosition item.tier }) item.tier with
  | none =>
      rw [if_pos (checkWatermark_eq_none_iff.mp hcheck)]
      exact ⟨hput, rfl⟩
  | some s'' =>
      have hdepth : (cfg.tier item.tier).maxDepth ≠ 0 := by
        intro hzero
        rw [checkWatermark_eq_none_iff.mpr hzero] at hcheck
        cases hcheck
      rw [if_neg hdepth]
      exact ⟨hput.checkWatermark hcheck, rfl⟩

/-- `enqueue` is all or nothing exactly when it does not insert an item in a tier whose
maximal depth is zero. -/
theorem allOrNothing_iff (cfg : QueueConfig) (s : PriorityQueueManager δ ρ ε n)
    (item : QueueItem δ) :
  AllOrNothing cfg s item ↔ (Admits cfg s item → (cfg.tier item.tier).maxDepth ≠ 0)
  := by
  constructor
  · intro hall hadmits hzero
    obtain ⟨_, hresult⟩ := enqueue_of_admits hadmits
    rw [if_pos hzero] at hresult
    obtain ⟨position, hok, _⟩ | ⟨e, herror, hrefusal, _⟩ := hall
    · rw [hresult] at hok
      cases hok
    · rw [hresult] at herror
      obtain rfl := Except.error.inj herror
      cases hrefusal
  · intro hdepth
    by_cases hadmits : Admits cfg s item
    · obtain ⟨happended, hresult⟩ := enqueue_of_admits hadmits
      rw [if_neg (hdepth hadmits)] at hresult
      exact .inl ⟨_, hresult, rfl, happended⟩
    · exact .inr (enqueue_of_not_admits hadmits)

/-- The default configuration with a maximal depth of zero for the tier `high`. -/
def unboundedHigh : QueueConfig := { QueueConfig.default with high := ⟨0, 120, 80⟩ }

/-- The first item of a tier whose maximal depth is zero waits, although `enqueue` raises an
exception. -/
theorem not_allOrNothing :
  ¬ AllOrNothing unboundedHigh (initial Unit Unit Unit 1)
    ((⟨.high, 0, "r", (), 7⟩ : Submission Unit).item 0)
  := by
  rw [allOrNothing_iff]
  intro h
  apply h _ rfl
  constructor
  · rfl
  · rfl
  · intro hempty
    cases hempty

/-! ### What waits -/

/-- The number of the items that wait in the queues. -/
def waitingCount (s : PriorityQueueManager δ ρ ε n) : ℕ := ∑ t, (s.queues t).length

/-- The total size of the waiting items is within the ceiling, unless there is one of them
only, and no queue is longer than its maximal depth. -/
structure WithinLimits (cfg : QueueConfig) (s : PriorityQueueManager δ ρ ε n) : Prop where
  bytes : (s.waitingBytes : ℤ) ≤ cfg.maxQueuedBytes ∨ s.waitingCount ≤ 1
  depth : ∀ t, 1 ≤ (cfg.tier t).maxDepth → ((s.queues t).length : ℤ) ≤ (cfg.tier t).maxDepth

/-- `queued_bytes` is at least the total size of the items that wait. -/
def BytesCounted (s : PriorityQueueManager δ ρ ε n) : Prop := s.waitingBytes ≤ s.queuedBytes

/-- What waits in `s'` waits in `s`. -/
def Shrinks (s s' : PriorityQueueManager δ ρ ε n) : Prop :=
  ∀ t, (s'.queues t).Sublist (s.queues t)

theorem totalBytes_le_of_sublist {q r : List (QueueItem δ)} (h : q.Sublist r) :
  totalBytes q ≤ totalBytes r
  := (h.map QueueItem.nbytes).sum_le_sum fun _ _ => Nat.zero_le _

theorem Shrinks.waitingBytes_le (h : Shrinks s s') :
  s'.waitingBytes ≤ s.waitingBytes
  := by
  apply Finset.sum_le_sum
  intro t _
  apply totalBytes_le_of_sublist (h t)

theorem Shrinks.waitingCount_le (h : Shrinks s s') :
  s'.waitingCount ≤ s.waitingCount
  := by
  apply Finset.sum_le_sum
  intro t _
  apply (h t).length_le

theorem Shrinks.congr (h : s'.queues = s.queues) :
  Shrinks s s'
  := by
  intro t
  rw [h]

theorem Shrinks.tail {t : Tier} {item : QueueItem δ} {rest : List (QueueItem δ)}
    (hhead : s.queues t = item :: rest) (h : s'.queues = Function.update s.queues t rest) :
  Shrinks s s'
  := by
  intro t'
  rw [h]
  by_cases ht : t' = t
  · subst ht
    rw [Function.update_self, hhead]
    apply List.sublist_cons_self
  · rw [Function.update_of_ne ht]

theorem Shrinks.withinLimits (h : Shrinks s s') (hs : WithinLimits cfg s) :
  WithinLimits cfg s'
  := by
  have hbytes := h.waitingBytes_le
  have hcount := h.waitingCount_le
  constructor
  · obtain hle | hone := hs.bytes
    · left
      omega
    · right
      omega
  · intro t ht
    have hlength := (h t).length_le
    have hdepth := hs.depth t ht
    omega

/-- Only `enqueue` adds to what waits. -/
theorem Effect.shrinks {a : Action δ ρ ε n} (ha : ∀ request, a ≠ .enqueue request)
    (heffect : Effect cfg a s s') :
  Shrinks s s'
  := by
  cases heffect with
  | note | fire | createFuture | accept => cases ha _ rfl
  | idle | pause | resume | cancel => exact Shrinks.congr rfl
  | start _ _ hnext | crash _ _ hnext => exact Shrinks.tail (getNowait_eq hnext).1 rfl
  | @expire _ w _ _ _ _ _ _ hnext =>
      exact Shrinks.tail (getNowait_eq hnext).1 (settle_queues _ w)
  | @complete _ w => exact Shrinks.congr (settle_queues _ w)
  | @fail _ w => exact Shrinks.congr (settle_queues _ w)
  | drop hhead => exact Shrinks.tail hhead rfl

/-- A worker subtracts at most the size of the item it takes, and nothing else subtracts. -/
theorem BytesCounted.effect {a : Action δ ρ ε n} (ha : ∀ request, a ≠ .enqueue request)
    (h : BytesCounted s) (heffect : Effect cfg a s s') :
  BytesCounted s'
  := by
  have hle := (heffect.shrinks ha).waitingBytes_le
  have htake {t : Tier} {item : QueueItem δ} {rest : List (QueueItem δ)}
      (hnext : s.getNowait = some (t, item, rest)) : BytesCounted (s.take t item rest) := by
    have hremove := waitingBytes_remove (getNowait_eq hnext).1
    change (s.setQueue t rest).waitingBytes ≤ s.queuedBytes - item.nbytes
    rw [BytesCounted] at h
    omega
  cases heffect with
  | note | fire | createFuture | accept => cases ha _ rfl
  | idle | pause | resume | cancel | drop => exact hle.trans h
  | start _ _ hnext | crash _ _ hnext => exact htake hnext
  | @expire _ w _ _ _ _ _ _ hnext =>
      rw [BytesCounted, waitingBytes, settle_queues, settle_queuedBytes]
      exact htake hnext
  | @complete _ w | @fail _ w =>
      rw [BytesCounted, settle_queuedBytes]
      exact hle.trans h

theorem Appended.waitingBytes {item : QueueItem δ} (h : Appended item s s') :
  s'.waitingBytes = s.waitingBytes + item.nbytes
  := by
  have hsum := waitingBytes_update s item.tier (s.queues item.tier ++ [item])
  rw [totalBytes_append, totalBytes_cons, totalBytes_nil] at hsum
  rw [PriorityQueueManager.waitingBytes, h.queues]
  omega

theorem Appended.waitingCount {item : QueueItem δ} (h : Appended item s s') :
  s'.waitingCount = s.waitingCount + 1
  := by
  have hsum := Tally.sum_update List.length s.queues item.tier (s.queues item.tier ++ [item])
  rw [List.length_append, List.length_singleton] at hsum
  rw [PriorityQueueManager.waitingCount, PriorityQueueManager.waitingCount, h.queues]
  omega

theorem waitingCount_eq_zero (h : s.allEmpty = true) :
  s.waitingCount = 0
  := by
  apply Finset.sum_eq_zero
  intro t _
  have hempty := List.all_eq_true.mp h t (Tier.mem_all t)
  rw [List.isEmpty_iff.mp hempty, List.length_nil]

/-- An item that the checks let pass keeps what waits within the limits. -/
theorem WithinLimits.append {item : QueueItem δ} {position : ℕ} (hs : WithinLimits cfg s)
    (hcounted : BytesCounted s) (hadmits : Admits cfg s item)
    (happended : Appended { item with position := position } s s') :
  WithinLimits cfg s'
  := by
  constructor
  · rw [happended.waitingBytes, happended.waitingCount]
    cases hempty : s.allEmpty with
    | true =>
        right
        rw [waitingCount_eq_zero hempty]
    | false =>
        left
        have hcapacity := hadmits.capacity hempty
        rw [BytesCounted] at hcounted
        push_cast
        omega
  · intro t ht
    rw [happended.queues]
    by_cases htier : t = item.tier
    · subst htier
      have hfull := hadmits.full
      have hpos : ¬ (cfg.tier item.tier).maxDepth ≤ 0 := by omega
      rw [full, if_neg hpos, decide_eq_false_iff_not] at hfull
      rw [Function.update_self, List.length_append, List.length_singleton]
      push_cast
      omega
    · rw [Function.update_of_ne htier]
      exact hs.depth t ht

/-- What waits stays within the limits by every step. -/
theorem WithinLimits.step {a : Action δ ρ ε n} (hs : WithinLimits cfg s ∧ BytesCounted s)
    (hstep : Step cfg s a s') :
  WithinLimits cfg s' ∧ BytesCounted s'
  := by
  cases a with
  | enqueue request =>
      obtain rfl := Option.some.inj hstep
      have hcreate : WithinLimits cfg s.createFuture := ⟨hs.1.bytes, hs.1.depth⟩
      have hcounted : BytesCounted s.createFuture := hs.2
      by_cases hadmits : Admits cfg s.createFuture (request.item s.created)
      · obtain ⟨happended, -⟩ := enqueue_of_admits hadmits
        use hcreate.append hcounted hadmits happended
        rw [BytesCounted, happended.waitingBytes, happended.queuedBytes]
        exact Nat.add_le_add_right hcounted _
      · obtain ⟨-, -, -, hsame⟩ := enqueue_of_not_admits hadmits
        use (Shrinks.congr hsame.queues).withinLimits hcreate
        rw [BytesCounted, PriorityQueueManager.waitingBytes, hsame.queues, hsame.queuedBytes]
        exact hcounted
  | work | finish | flush | pause | resume | cancel =>
      apply Step.invariant (I := fun t => WithinLimits cfg t ∧ BytesCounted t) _ hs hstep
      rintro t u ⟨hlimits, hcounted⟩ heffect
      use (heffect.shrinks (by simp)).withinLimits hlimits
      apply hcounted.effect (by simp) heffect

theorem withinLimits_initial :
  WithinLimits cfg (initial δ ρ ε n) ∧ BytesCounted (initial δ ρ ε n)
  := by
  constructor
  · constructor
    · right
      simp [waitingCount, initial]
    · intro t ht
      simp only [initial, List.length_nil]
      omega
  · simp [BytesCounted, waitingBytes, initial]

/-- In every state of every run the total size of the waiting items is within the ceiling, or
one item waits at most, and no queue is longer than its maximal depth. -/
theorem reachable_withinLimits (h : Reachable (Step cfg) (initial δ ρ ε n) s) :
  WithinLimits cfg s
  := (h.invariant withinLimits_initial WithinLimits.step).1

/-- Two items that do not fit together: the first waits alone, beyond the ceiling, and after
it was flushed the second is refused. -/
def oversizedRun : List (Action Unit Unit Unit 1) :=
  [.enqueue ⟨.normal, 0, "a", (), 600000000⟩, .enqueue ⟨.high, 0, "b", (), 7⟩, .flush none,
    .enqueue ⟨.high, 1, "c", (), 600000000⟩]

theorem oversized_withinLimits :
  ∃ s, Run (Step .default) (initial Unit Unit Unit 1) oversizedRun s ∧ WithinLimits .default s
  := by
  obtain ⟨s, hrun⟩ : ∃ s, Run (Step .default) (initial Unit Unit Unit 1) oversizedRun s :=
    exists_run_of_exec (by decide +kernel)
  use s, hrun
  apply reachable_withinLimits ⟨oversizedRun, hrun⟩

/-! ### Items of a limited size -/

/-- No item that waits is larger than `bound`. -/
def WaitsUpTo (bound : ℤ) (s : PriorityQueueManager δ ρ ε n) : Prop :=
  ∀ t, ∀ item ∈ s.queues t, (item.nbytes : ℤ) ≤ bound

theorem WaitsUpTo.of_shrinks {bound : ℤ} (hs : WaitsUpTo bound s) (h : Shrinks s s') :
  WaitsUpTo bound s'
  := fun t item hitem => hs t item ((h t).subset hitem)

/-- Only an item that is enqueued may exceed the bound. -/
theorem WaitsUpTo.step {bound : ℤ} {a : Action δ ρ ε n} (hs : WaitsUpTo bound s)
    (ha : ∀ request, a = .enqueue request → (request.nbytes : ℤ) ≤ bound)
    (hstep : Step cfg s a s') :
  WaitsUpTo bound s'
  := by
  cases a with
  | enqueue request =>
      obtain rfl := Option.some.inj hstep
      have hcreate : WaitsUpTo bound s.createFuture := hs
      by_cases hadmits : Admits cfg s.createFuture (request.item s.created)
      · obtain ⟨happended, -⟩ := enqueue_of_admits hadmits
        intro t item hitem
        rw [happended.queues] at hitem
        by_cases htier : t = (request.item s.created).tier
        · subst htier
          rw [Function.update_self] at hitem
          obtain hold | hnew := List.mem_append.mp hitem
          · exact hcreate _ item hold
          · obtain rfl := List.mem_singleton.mp hnew
            exact ha request rfl
        · rw [Function.update_of_ne htier] at hitem
          exact hcreate t item hitem
      · obtain ⟨-, -, -, hsame⟩ := enqueue_of_not_admits hadmits
        exact hcreate.of_shrinks (Shrinks.congr hsame.queues)
  | work | finish | flush | pause | resume | cancel =>
      apply Step.invariant (I := WaitsUpTo bound) _ hs hstep
      intro t u ht heffect
      exact ht.of_shrinks (heffect.shrinks (by simp))

theorem WaitsUpTo.waitingBytes_le {bound : ℤ} (hs : WaitsUpTo bound s) :
  (s.waitingBytes : ℤ) ≤ s.waitingCount * bound
  := by
  rw [waitingBytes, waitingCount, Nat.cast_sum, Nat.cast_sum, Finset.sum_mul]
  apply Finset.sum_le_sum
  intro t _
  have hsum := List.sum_le_card_nsmul ((s.queues t).map fun item => (item.nbytes : ℤ)) bound
    (by simpa using hs t)
  rw [List.length_map, nsmul_eq_mul] at hsum
  rw [totalBytes, Nat.cast_list_sum, List.map_map]
  exact hsum

/-- If every item that is enqueued is within a bound, the total size of the waiting items is
within the bound or the ceiling, unless both are negative. -/
theorem waitingBytes_le_max {bound : ℤ} (hnonneg : 0 ≤ max cfg.maxQueuedBytes bound)
    {as : List (Action δ ρ ε n)} (hrun : Run (Step cfg) (initial δ ρ ε n) as s)
    (hitems : ∀ request, .enqueue request ∈ as → (request.nbytes : ℤ) ≤ bound) :
  (s.waitingBytes : ℤ) ≤ max cfg.maxQueuedBytes bound
  := by
  have hsteps : AllSteps (Step cfg) (initial δ ρ ε n) as
      fun _ a => ∀ request, a = .enqueue request → (request.nbytes : ℤ) ≤ bound := by
    rintro bs a _ _ hbs _ _ request rfl
    exact hitems request (hbs.subset (List.mem_append_right bs List.mem_cons_self))
  have hinitial : WaitsUpTo bound (initial δ ρ ε n) := fun t item hitem => nomatch hitem
  have hwaits := hsteps.always hinitial (fun ht ha hstep => ht.step ha hstep) as s
    List.prefix_rfl hrun
  obtain hceiling | hone := (reachable_withinLimits ⟨as, hrun⟩).bytes
  · exact hceiling.trans (le_max_left _ _)
  · have hbytes := hwaits.waitingBytes_le
    obtain hzero | hsingle : s.waitingCount = 0 ∨ s.waitingCount = 1 := by omega
    · rw [hzero, Nat.cast_zero, Int.zero_mul] at hbytes
      exact hbytes.trans hnonneg
    · rw [hsingle, Nat.cast_one, Int.one_mul] at hbytes
      exact hbytes.trans (le_max_right _ _)

end PriorityQueueManager

end OllamaQueueProxy
