import OllamaQueueProxy.Queue.Refinement
import Mathlib.Algebra.Order.BigOperators.Group.Finset

/-!
# Conservation of items

No item is lost or duplicated.  In every state of every run each admitted item is in exactly
one place, is dispatched at most once, and never if it was flushed or found expired; an item
that is gone has its future resolved; and the items of a tier that were admitted are those
that wait, are held by workers, or are gone in one of four ways, two of which `stats`
counts (`reachable_conserved`).
-/

open Transition

namespace OllamaQueueProxy

/-- Where an item can be, with `n` workers. -/
inductive Place (n : ℕ) where
  | queue
  | worker (w : Fin n)
  | gone

namespace PriorityQueueManager

variable {δ ρ ε : Type} {n : ℕ} {cfg : QueueConfig} {s s' : PriorityQueueManager δ ρ ε n}

/-- The items whose `dispatch_fn` was started. -/
abbrev started (s : PriorityQueueManager δ ρ ε n) : Multiset (QueueItem δ) :=
  Station.tally Station.Move.served s.moves

/-- The items whose `dispatch_fn` returned. -/
abbrev returned (s : PriorityQueueManager δ ρ ε n) : Multiset (QueueItem δ) :=
  Station.tally (Station.Move.finishedWith .returned) s.moves

/-- The items whose `dispatch_fn` raised an exception. -/
abbrev raised (s : PriorityQueueManager δ ρ ε n) : Multiset (QueueItem δ) :=
  Station.tally (Station.Move.finishedWith .raised) s.moves

/-- The items that a worker found expired. -/
abbrev expired (s : PriorityQueueManager δ ρ ε n) : Multiset (QueueItem δ) :=
  Station.tally Station.Move.discarded s.moves

/-- The items that `flush` removed. -/
abbrev flushed (s : PriorityQueueManager δ ρ ε n) : Multiset (QueueItem δ) :=
  Station.tally Station.Move.dropped s.moves

/-- The items that are neither in a queue nor held by a worker any more. -/
abbrev gone (s : PriorityQueueManager δ ρ ε n) : Multiset (QueueItem δ) :=
  Station.tally Station.Move.exit s.moves

/-- The item is at the place. -/
def IsAt (s : PriorityQueueManager δ ρ ε n) (item : QueueItem δ) : Place n → Prop
  | .queue => item ∈ s.queues item.tier
  | .worker w => s.workers w = .executing item
  | .gone => item ∈ s.gone

/-- The items of tier `t` among `q`. -/
def countTier (t : Tier) (q : Multiset (QueueItem δ)) : ℕ := q.countP fun item => item.tier = t

@[simp]
theorem countTier_zero (t : Tier) :
  countTier t (0 : Multiset (QueueItem δ)) = 0
  := rfl

@[simp]
theorem countTier_singleton (t : Tier) (item : QueueItem δ) :
  countTier t {item} = if item.tier = t then 1 else 0
  := by
  rw [countTier, ← Multiset.cons_zero, Multiset.countP_cons, Multiset.countP_zero, zero_add]

theorem countTier_add (t : Tier) (q r : Multiset (QueueItem δ)) :
  countTier t (q + r) = countTier t q + countTier t r
  := Multiset.countP_add _ q r

/-- The conservation law of the queue. -/
structure Conserved (s : PriorityQueueManager δ ρ ε n) : Prop where
  place : ∀ item ∈ s.admitted, ∃! p, s.IsAt item p
  queue : ∀ t, (s.queues t).Nodup ∧ ∀ item ∈ s.queues t, item.tier = t ∧ item ∈ s.admitted
  worker : ∀ w item, s.workers w = .executing item → item ∈ s.admitted
  started : s.started.Nodup
  unstarted : ∀ item ∈ s.started, item ∉ s.flushed ∧ item ∉ s.expired
  resolved : ∀ item ∈ s.gone, (s.futures item.future).done = true
  balance : ∀ t, countTier t (s.admitted : Multiset (QueueItem δ))
    = (s.queues t).length + countTier t s.held + countTier t s.returned
      + countTier t s.raised + countTier t s.expired + countTier t s.flushed
  processed : ∀ t, (s.stats t).processed = countTier t s.returned
  expired : ∀ t, (s.stats t).expired = countTier t s.expired

/-! ### Places -/

theorem mem_held {item : QueueItem δ} :
  item ∈ s.held ↔ ∃ w, s.workers w = .executing item
  := by
  rw [held, Multiset.mem_sum]
  constructor
  · rintro ⟨w, -, hw⟩
    use w
    cases hs : s.workers w <;> simp_all [Worker.items]
  · rintro ⟨w, hw⟩
    use w, Finset.mem_univ w
    simp [hw, Worker.items]

/-- Two workers that execute one item hold it twice. -/
theorem two_le_count_held [DecidableEq (QueueItem δ)] {item : QueueItem δ} {v w : Fin n}
    (hv : s.workers v = .executing item) (hw : s.workers w = .executing item) (hne : v ≠ w) :
  2 ≤ s.held.count item
  := by
  have hpair : ∑ u ∈ {v, w}, (s.workers u).items ≤ s.held :=
    Finset.sum_le_sum_of_subset (Finset.subset_univ _)
  have hcount := Multiset.count_le_of_le item hpair
  rw [Finset.sum_pair hne, hv, hw] at hcount
  simpa [Worker.items] using hcount

theorem Tracked.count_eq [DecidableEq (QueueItem δ)] (h : Tracked s) (item : QueueItem δ) :
  s.admitted.count item
    = (s.queues item.tier).count item + s.held.count item + s.gone.count item
  := by
  have hcount := Station.count_arrival h.run item
  have hexit := congrArg (Multiset.count item) (Station.exits_eq s.moves)
  simp only [Multiset.count_add] at hexit
  rw [Station.tally, Multiset.coe_count] at hcount
  change _ = (s.queues item.tier).count item + s.held.count item + _ + _ + _ at hcount
  rw [gone, hexit, hcount]
  omega

/-- An admitted item is in exactly one place. -/
theorem Tracked.place (h : Tracked s) {item : QueueItem δ} (hitem : item ∈ s.admitted) :
  ∃! p, s.IsAt item p
  := by
  classical
  have hone := List.count_eq_one_of_mem (Station.arrivals_nodup h.run) hitem
  have hcount := h.count_eq item
  rw [hone] at hcount
  have hqueue : s.IsAt item .queue ↔ 0 < (s.queues item.tier).count item :=
    List.count_pos_iff.symm
  have hgone : s.IsAt item .gone ↔ 0 < s.gone.count item := Multiset.count_pos.symm
  have hworker : (∃ w, s.IsAt item (.worker w)) ↔ 0 < s.held.count item := by
    rw [Multiset.count_pos, mem_held]
    rfl
  by_cases hwaits : s.IsAt item .queue
  · use .queue, hwaits
    rintro (_ | w | _) hp
    · rfl
    · have hheld := hworker.mp ⟨w, hp⟩
      have hwaiting := hqueue.mp hwaits
      omega
    · have hleft := hgone.mp hp
      have hwaiting := hqueue.mp hwaits
      omega
  · rw [hqueue] at hwaits
    by_cases hheld : 0 < s.held.count item
    · obtain ⟨w, hw⟩ := hworker.mpr hheld
      use .worker w, hw
      rintro (_ | v | _) hp
      · cases hwaits (hqueue.mp hp)
      · by_contra hne
        have htwo := two_le_count_held hp hw (fun hvw => hne (congrArg Place.worker hvw))
        omega
      · have hleft := hgone.mp hp
        omega
    · use .gone, hgone.mpr (by omega)
      rintro (_ | w | _) hp
      · cases hwaits (hqueue.mp hp)
      · cases hheld (hworker.mp ⟨w, hp⟩)
      · rfl

/-- The items that finish return or raise an exception. -/
theorem finished_eq (ms : List (Station.Move (QueueItem δ) DispatchEnd)) :
  Station.tally Station.Move.finished ms
    = Station.tally (Station.Move.finishedWith .returned) ms
      + Station.tally (Station.Move.finishedWith .raised) ms
  := by
  induction ms with
  | nil => rfl
  | cons m ms ih =>
      cases m with
      | finish item outcome =>
          cases outcome <;> simp [ih, add_comm]
      | arrive | drop | discard | serve => simpa using ih

theorem Tracked.balance (h : Tracked s) (t : Tier) :
  countTier t (s.admitted : Multiset (QueueItem δ))
    = (s.queues t).length + countTier t s.held + countTier t s.returned
      + countTier t s.raised + countTier t s.expired + countTier t s.flushed
  := by
  have hbalance := Station.balance h.run t (fun _ => True)
  simp only [true_and, finished_eq, Multiset.countP_add] at hbalance
  rw [List.countP_eq_length.mpr (by simp)] at hbalance
  change countTier t (s.admitted : Multiset (QueueItem δ)) = (s.queues t).length
    + countTier t s.held + (countTier t s.returned + countTier t s.raised)
    + countTier t s.expired + countTier t s.flushed at hbalance
  omega

/-- An item is started, found expired or flushed at most once, and in one way only. -/
theorem Tracked.count_le_one [DecidableEq (QueueItem δ)] (h : Tracked s)
    (item : QueueItem δ) :
  s.started.count item + s.expired.count item + s.flushed.count item ≤ 1
  := by
  have hcount := Station.count_le_one h.run item
  change _ + s.started.count item + s.expired.count item + s.flushed.count item ≤ 1 at hcount
  omega

/-- No item is dispatched twice. -/
theorem Tracked.started_nodup (h : Tracked s) :
  s.started.Nodup
  := by
  classical
  rw [Multiset.nodup_iff_count_le_one]
  intro item
  have hcount := h.count_le_one item
  omega

/-- No item that was flushed or found expired is dispatched. -/
theorem Tracked.unstarted (h : Tracked s) {item : QueueItem δ} (hitem : item ∈ s.started) :
  item ∉ s.flushed ∧ item ∉ s.expired
  := by
  classical
  have hcount := h.count_le_one item
  have hstarted := Multiset.count_pos.mpr hitem
  constructor
  · intro hflushed
    have hpos := Multiset.count_pos.mpr hflushed
    omega
  · intro hexpired
    have hpos := Multiset.count_pos.mpr hexpired
    omega

/-- What waits in the queue of a tier was admitted to that tier, once. -/
theorem Tracked.queue (h : Tracked s) (t : Tier) :
  (s.queues t).Nodup ∧ ∀ item ∈ s.queues t, item.tier = t ∧ item ∈ s.admitted
  := by
  have hfifo := Station.fifo h.run t
  constructor
  · have hnodup : (Station.inClass QueueItem.tier t s.admitted).Nodup :=
      (Station.arrivals_nodup h.run).filter _
    rw [admitted, hfifo] at hnodup
    apply (List.nodup_append.mp hnodup).2.1
  · intro item hitem
    have hmem : item ∈ Station.inClass QueueItem.tier t s.admitted := by
      rw [admitted, hfifo]
      apply List.mem_append_right _ hitem
    apply (Station.mem_inClass.mp hmem).symm

/-- The items that workers hold were admitted. -/
theorem Tracked.worker (h : Tracked s) {w : Fin n} {item : QueueItem δ}
    (hw : s.workers w = .executing item) :
  item ∈ s.admitted
  := by
  classical
  have hcount := h.count_eq item
  have hheld := Multiset.count_pos.mpr (mem_held.mpr ⟨w, hw⟩)
  apply List.count_pos_iff.mp
  omega

/-! ### Futures -/

@[simp]
theorem setHasItems_futures (s : PriorityQueueManager δ ρ ε n) :
  s.setHasItems.futures = s.futures
  := by
  unfold setHasItems
  split <;> rfl

@[simp]
theorem settle_futures (s : PriorityQueueManager δ ρ ε n) (w : Fin n) :
  (s.settle w).futures = s.futures
  := by
  unfold settle
  split <;> rfl

theorem done_update {futures : ℕ → Future ρ ε} {j k : ℕ} {f : Future ρ ε}
    (hf : f.done = true) (hk : (futures k).done = true) :
  (Function.update futures j f k).done = true
  := by
  by_cases hkj : k = j
  · subst hkj
    simpa using hf
  · simpa [hkj] using hk

/-- A future that is done remains done. -/
theorem Effect.done {a : Action δ ρ ε n} (heffect : Effect cfg a s s') {k : ℕ}
    (hk : (s.futures k).done = true) :
  (s'.futures k).done = true
  := by
  cases heffect with
  | note | fire | createFuture | idle | start | crash | pause | resume => exact hk
  | accept =>
      rw [put, record_futures, setHasItems_futures]
      apply hk
  | expire =>
      rw [settle_futures, setFuture_futures]
      apply done_update rfl hk
  | complete _ hf | fail _ hf =>
      rw [settle_futures]
      apply done_update hf hk
  | drop _ hf => exact done_update hf hk
  | cancel => exact done_update (Future.done_cancel _) hk

theorem update_of_done {futures : ℕ → Future ρ ε} {j k : ℕ} {f : Future ρ ε}
    (hf : (futures j).done = true → f = futures j) (hk : (futures k).done = true) :
  Function.update futures j f k = futures k
  := by
  by_cases hkj : k = j
  · subst hkj
    rw [Function.update_self, hf hk]
  · exact Function.update_of_ne hkj _ _

/-- A future that is done keeps its result. -/
theorem Effect.keeps_done {a : Action δ ρ ε n} (heffect : Effect cfg a s s') {k : ℕ}
    (hk : (s.futures k).done = true) :
  s'.futures k = s.futures k
  := by
  cases heffect with
  | note | fire | createFuture | idle | start | crash | pause | resume => rfl
  | accept => rw [put, record_futures, setHasItems_futures, setQueue_futures]; rfl
  | expire _ _ _ _ hpending =>
      rw [settle_futures, setFuture_futures]
      apply update_of_done _ hk
      intro hdone
      rw [show (s.futures _).done = false from Future.done_eq_false_iff.mpr hpending] at hdone
      cases hdone
  | complete _ _ hsame | fail _ _ hsame =>
      rw [settle_futures]
      exact update_of_done hsame hk
  | drop _ _ hsame => exact update_of_done hsame hk
  | cancel =>
      exact update_of_done Future.cancel_of_done hk

theorem Step.keeps_done {a : Action δ ρ ε n} (h : Step cfg s a s') {k : ℕ}
    (hk : (s.futures k).done = true) :
  s'.futures k = s.futures k
  := by
  apply Step.invariant (I := fun u => u.futures k = s.futures k) _ rfl h
  intro t u ht heffect
  rw [← ht] at hk ⊢
  exact heffect.keeps_done hk

/-! ### Accounts -/

@[simp]
theorem setHasItems_stats (s : PriorityQueueManager δ ρ ε n) :
  s.setHasItems.stats = s.stats
  := by
  unfold setHasItems
  split <;> rfl

@[simp]
theorem settle_stats (s : PriorityQueueManager δ ρ ε n) (w : Fin n) :
  (s.settle w).stats = s.stats
  := by
  unfold settle
  split <;> rfl

/-- From `s` to `s'` the moves `ms` are performed, the futures of the items that leave by
them are done, and `stats` counts those that return or are found expired. -/
structure Accounts (s s' : PriorityQueueManager δ ρ ε n)
    (ms : List (Station.Move (QueueItem δ) DispatchEnd)) : Prop where
  moves : s'.moves = s.moves ++ ms
  resolved : ∀ item ∈ Station.tally Station.Move.exit ms,
    (s'.futures item.future).done = true
  processed : ∀ t, (s'.stats t).processed = (s.stats t).processed
    + countTier t (Station.tally (Station.Move.finishedWith .returned) ms)
  expired : ∀ t, (s'.stats t).expired = (s.stats t).expired
    + countTier t (Station.tally Station.Move.discarded ms)

/-- A change that performs no move. -/
theorem Accounts.quiet (hmoves : s'.moves = s.moves) (hstats : SameCounts s.stats s'.stats) :
  Accounts s s' []
  := by
  constructor
  · rw [hmoves, List.append_nil]
  · simp
  · intro t
    apply (hstats t).1
  · intro t
    apply (hstats t).2

/-- A change that performs a move by which no item leaves. -/
theorem Accounts.stay {m : Station.Move (QueueItem δ) DispatchEnd}
    (hmoves : s'.moves = s.moves ++ [m]) (hstats : s'.stats = s.stats)
    (hm : m.exit = none) :
  Accounts s s' [m]
  := by
  constructor
  · apply hmoves
  · rw [Station.tally_cons, hm]
    simp
  · intro t
    cases m <;> simp_all
  · intro t
    cases m <;> simp_all

/-- The count of one tier changes by what the move of an item of that tier records. -/
theorem count_update {f : Station.Move (QueueItem δ) DispatchEnd → Option (QueueItem δ)}
    {m : Station.Move (QueueItem δ) DispatchEnd} {item : QueueItem δ} {c : TierStats → ℕ}
    {stats : Tier → TierStats} {x : TierStats} (hm : ∀ i, f m = some i → i = item)
    (hx : c x = c (stats item.tier) + (Station.tally f [m]).card) (t : Tier) :
  c (Function.update stats item.tier x t) = c (stats t) + countTier t (Station.tally f [m])
  := by
  have hone : Station.tally f [m] = (f m).toList := by simp
  rw [hone] at hx ⊢
  by_cases ht : t = item.tier
  · subst ht
    rw [Function.update_self, hx]
    cases hf : f m with
    | none => simp
    | some i => simp [hm i hf]
  · rw [Function.update_of_ne ht]
    cases hf : f m with
    | none => simp
    | some i => simp [hm i hf, Ne.symm ht]

/-- A change by which an item leaves, with the counts of its tier. -/
theorem Accounts.leave {m : Station.Move (QueueItem δ) DispatchEnd} {item : QueueItem δ}
    {x : TierStats} (hmoves : s'.moves = s.moves ++ [m]) (hm : m.exit = some item)
    (hdone : (s'.futures item.future).done = true)
    (hstats : s'.stats = Function.update s.stats item.tier x)
    (hprocessed : x.processed = (s.stats item.tier).processed
      + (Station.tally (Station.Move.finishedWith .returned) [m]).card)
    (hexpired : x.expired = (s.stats item.tier).expired
      + (Station.tally Station.Move.discarded [m]).card) :
  Accounts s s' [m]
  := by
  constructor
  · apply hmoves
  · rw [Station.tally_cons, hm]
    simpa using hdone
  · rw [hstats]
    apply count_update (c := TierStats.processed) _ hprocessed
    intro i hi
    cases m <;> simp_all
  · rw [hstats]
    apply count_update (c := TierStats.expired) _ hexpired
    intro i hi
    cases m <;> simp_all

/-- Every effect accounts for the moves it performs. -/
theorem Effect.accounts {a : Action δ ρ ε n} (heffect : Effect cfg a s s') :
  ∃ ms, Accounts s s' ms
  := by
  cases heffect with
  | note _ _ hstats => exact ⟨[], Accounts.quiet rfl hstats⟩
  | fire event => exact ⟨[], Accounts.quiet (moves_fireEvent s event) (SameCounts.refl _)⟩
  | createFuture | idle | pause | resume | cancel =>
      exact ⟨[], Accounts.quiet rfl (SameCounts.refl _)⟩
  | accept request =>
      use [.arrive { request.item s.created with position := s.nextPosition request.tier }]
      apply Accounts.stay
      · simp only [put, moves_record, setHasItems_moves]
        rfl
      · simp [put]
      · rfl
  | @start _ w now t item rest =>
      use [.serve item]
      apply Accounts.stay
      · simp
      · rfl
      · rfl
  | @expire _ w now t item rest =>
      use [.discard item]
      apply Accounts.leave _ rfl
      · simp [Future.done]
      · rw [settle_stats]
        rfl
      · rfl
      · rfl
      · simp
  | @crash _ w now t item rest _ _ _ _ hdone =>
      use [.discard item]
      exact Accounts.leave (by simp) rfl hdone rfl rfl rfl
  | @complete _ w now r item f _ hf =>
      use [.finish item .returned]
      apply Accounts.leave _ rfl
      · simpa using hf
      · rw [settle_stats]
        rfl
      · rfl
      · rfl
      · simp
  | @fail _ w now e item f _ hf =>
      use [.finish item .raised]
      apply Accounts.leave _ rfl
      · simpa using hf
      · rw [settle_stats]
        symm
        apply Function.update_eq_self
      · rfl
      · rfl
      · simp
  | @drop _ tier t item rest f _ hf =>
      use [.drop item]
      apply Accounts.leave _ rfl
      · simpa using hf
      · symm
        apply Function.update_eq_self
      · rfl
      · rfl
      · simp

/-- The future of every item that is gone is done. -/
def Resolved (s : PriorityQueueManager δ ρ ε n) : Prop :=
  ∀ item ∈ s.gone, (s.futures item.future).done = true

theorem Resolved.effect {a : Action δ ρ ε n} (h : Resolved s) (heffect : Effect cfg a s s') :
  Resolved s'
  := by
  obtain ⟨ms, haccounts⟩ := heffect.accounts
  intro item hitem
  rw [gone, haccounts.moves, Station.tally_append, Multiset.mem_add] at hitem
  rcases hitem with hold | hnew
  · apply heffect.done (h item hold)
  · apply haccounts.resolved item hnew

/-- `stats` counts the items that returned and those that were found expired. -/
def Counted (s : PriorityQueueManager δ ρ ε n) : Prop :=
  ∀ t, (s.stats t).processed = countTier t s.returned
    ∧ (s.stats t).expired = countTier t s.expired

theorem Counted.effect {a : Action δ ρ ε n} (h : Counted s) (heffect : Effect cfg a s s') :
  Counted s'
  := by
  obtain ⟨ms, haccounts⟩ := heffect.accounts
  intro t
  obtain ⟨hprocessed, hexpired⟩ := h t
  constructor
  · rw [haccounts.processed, hprocessed, returned, returned, haccounts.moves,
      Station.tally_append, countTier_add]
  · rw [haccounts.expired, hexpired, expired, expired, haccounts.moves,
      Station.tally_append, countTier_add]

/-- An item that is too old when a worker takes it is found expired, and its caller is told so,
unless it was cancelled. -/
theorem Effect.expires {w : Fin n} {now : ℚ} {t : Tier} {item : QueueItem δ}
    {rest : List (QueueItem δ)} (heffect : Effect cfg (.work w now) s s')
    (hnext : s.getNowait = some (t, item, rest)) (hstale : stale cfg now item = true) :
  item ∈ s'.expired ∧ ((s.futures item.future).done = false →
    s'.futures item.future = .exception (.requestExpired item.tier item.requestId))
  := by
  cases heffect with
  | idle _ hempty =>
      have hhead := (getNowait_eq hnext).1
      rw [hempty t] at hhead
      cases hhead
  | start _ _ hnext' hfresh =>
      rw [hnext] at hnext'
      cases hnext'
      cases hstale.symm.trans hfresh
  | expire _ _ hnext' =>
      rw [hnext] at hnext'
      cases hnext'
      constructor
      · rw [expired]
        simp
      · intro _
        simp
  | crash _ _ hnext' _ hdone =>
      rw [hnext] at hnext'
      cases hnext'
      constructor
      · rw [expired]
        simp
      · intro hpending
        cases hdone.symm.trans hpending

/-- An item that is gone remains gone. -/
theorem Effect.gone_le {a : Action δ ρ ε n} (heffect : Effect cfg a s s') :
  s.gone ≤ s'.gone
  := by
  obtain ⟨ms, haccounts⟩ := heffect.accounts
  rw [gone, gone, haccounts.moves, Station.tally_append]
  apply Multiset.le_add_right

/-! ### Runs -/

/-- In every state of every run the queue is conserved, and an item that is gone remains
gone. -/
theorem reachable_conserved (h : Reachable (Step cfg) (initial δ ρ ε n) s)
    (h' : Reachable (Step cfg) s s') :
  Conserved s ∧ s.gone ≤ s'.gone
  := by
  have htracked : Tracked s := Reachable.tracked h
  have hresolved : Resolved s := by
    apply Reachable.invariant h
    · simp [Resolved, gone, moves, initial]
    · intro t a u ht hstep
      exact Step.invariant Resolved.effect ht hstep
  have hcounted : Counted s := by
    apply Reachable.invariant h
    · intro t
      constructor <;> rfl
    · intro t a u ht hstep
      exact Step.invariant Counted.effect ht hstep
  constructor
  · constructor
    · intro item hitem
      apply htracked.place hitem
    · apply htracked.queue
    · intro w item hw
      apply htracked.worker hw
    · apply htracked.started_nodup
    · intro item hitem
      apply htracked.unstarted hitem
    · apply hresolved
    · apply htracked.balance
    · intro t
      apply (hcounted t).1
    · intro t
      apply (hcounted t).2
  · apply Reachable.invariant h' (I := fun u => s.gone ≤ u.gone) le_rfl
    intro t a u ht hstep
    apply ht.trans
    apply Step.invariant (I := fun u => t.gone ≤ u.gone) _ le_rfl hstep
    intro v v' hv heffect
    apply hv.trans heffect.gone_le

/-- Three items are enqueued; two workers take one each, of which one is dispatched and the
other has expired. -/
def sampleRun : List (Action Unit Unit Unit 2) :=
  [.enqueue ⟨.normal, 0, "a", (), 5⟩, .enqueue ⟨.low, 0, "b", (), 6⟩, .work 0 1,
    .enqueue ⟨.high, 0, "c", (), 7⟩, .work 1 200]

/-- The dispatched item returns, and the third is flushed. -/
def sampleEnd : List (Action Unit Unit Unit 2) := [.finish 0 201 (.ok ()), .flush none]

theorem sample_conserved :
  ∃ s s', Run (Step .default) (initial Unit Unit Unit 2) sampleRun s
    ∧ Run (Step .default) s sampleEnd s' ∧ Conserved s ∧ s.gone ≤ s'.gone
  := by
  obtain ⟨s', hrun⟩ : ∃ s', Run (Step .default) (initial Unit Unit Unit 2)
      (sampleRun ++ sampleEnd) s' :=
    exists_run_of_exec (by decide +kernel)
  obtain ⟨s, hs, hs'⟩ := hrun.append_inv
  use s, s', hs, hs'
  apply reachable_conserved ⟨sampleRun, hs⟩ ⟨sampleEnd, hs'⟩

end PriorityQueueManager

end OllamaQueueProxy
