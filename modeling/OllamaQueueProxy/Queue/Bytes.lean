import OllamaQueueProxy.Queue.Refinement

/-!
# The bytes that wait

`queued_bytes` is kept apart from the queues it summarises.  A worker subtracts the size of
the item it takes, but `flush` removes items without subtracting theirs.  We show that this
is the only way in which the two drift apart: in all states of a run `queued_bytes` is the
total size of the waiting items exactly when every item that a `flush` removes has size
zero (`always_bytesAgree_iff`).
-/

open Transition

namespace OllamaQueueProxy

namespace PriorityQueueManager

variable {δ ρ ε : Type} {n : ℕ} {cfg : QueueConfig} {s s' : PriorityQueueManager δ ρ ε n}

/-- The total size of the items. -/
def totalBytes (q : List (QueueItem δ)) : ℕ := (q.map QueueItem.nbytes).sum

@[simp]
theorem totalBytes_nil :
  totalBytes ([] : List (QueueItem δ)) = 0
  := rfl

@[simp]
theorem totalBytes_cons (item : QueueItem δ) (q : List (QueueItem δ)) :
  totalBytes (item :: q) = item.nbytes + totalBytes q
  := rfl

@[simp]
theorem totalBytes_append (q r : List (QueueItem δ)) :
  totalBytes (q ++ r) = totalBytes q + totalBytes r
  := by
  rw [totalBytes, List.map_append, List.sum_append]
  rfl

/-- The total size of the items that wait in the queues. -/
def waitingBytes (s : PriorityQueueManager δ ρ ε n) : ℕ := ∑ t, totalBytes (s.queues t)

/-- `queued_bytes` is the total size of the items that wait. -/
def BytesAgree (s : PriorityQueueManager δ ρ ε n) : Prop := s.queuedBytes = s.waitingBytes

/-- The items up to and including the first whose future is done. -/
def uptoDone (futures : ℕ → Future ρ ε) : List (QueueItem δ) → List (QueueItem δ)
  | [] => []
  | item :: rest =>
      item :: if (futures item.future).done then [] else uptoDone futures rest

/-- The items `flush` reaches: those of the tiers it is about, up to and including the first
whose future is done. -/
def reached (s : PriorityQueueManager δ ρ ε n) (tier : Option Tier) : List (QueueItem δ) :=
  uptoDone s.futures ((tiersOf tier).flatMap s.queues)

/-- `flush` reaches items of size zero only. -/
def FlushesNoBytes (s : PriorityQueueManager δ ρ ε n) : Action δ ρ ε n → Prop
  | .flush tier => ∀ item ∈ s.reached tier, item.nbytes = 0
  | _ => True

/-! ### Effects -/

theorem waitingBytes_update (s : PriorityQueueManager δ ρ ε n) (t : Tier)
    (q : List (QueueItem δ)) :
  ∑ t', totalBytes (Function.update s.queues t q t') + totalBytes (s.queues t)
    = s.waitingBytes + totalBytes q
  := Tally.sum_update totalBytes s.queues t q

/-- Removing the head of a queue removes its size. -/
theorem waitingBytes_remove {t : Tier} {item : QueueItem δ} {rest : List (QueueItem δ)}
    (hhead : s.queues t = item :: rest) :
  (s.setQueue t rest).waitingBytes + item.nbytes = s.waitingBytes
  := by
  have hsum := waitingBytes_update s t rest
  rw [hhead, totalBytes_cons] at hsum
  rw [waitingBytes, setQueue_queues]
  omega

@[simp]
theorem setHasItems_queuedBytes (s : PriorityQueueManager δ ρ ε n) :
  s.setHasItems.queuedBytes = s.queuedBytes
  := by
  unfold setHasItems
  split <;> rfl

@[simp]
theorem settle_queuedBytes (s : PriorityQueueManager δ ρ ε n) (w : Fin n) :
  (s.settle w).queuedBytes = s.queuedBytes
  := by
  unfold settle
  split <;> rfl

namespace BytesAgree

/-- Changes that leave the counter and the queues alone. -/
theorem congr (h : BytesAgree s) (hbytes : s'.queuedBytes = s.queuedBytes)
    (hqueues : s'.queues = s.queues) :
  BytesAgree s'
  := by
  rw [BytesAgree, waitingBytes, hbytes, hqueues]
  apply h

/-- A worker takes an item off its queue and subtracts its size. -/
theorem take {t : Tier} {item : QueueItem δ} {rest : List (QueueItem δ)} (h : BytesAgree s)
    (hnext : s.getNowait = some (t, item, rest)) :
  BytesAgree (s.take t item rest)
  := by
  have hremove := waitingBytes_remove (getNowait_eq hnext).1
  change _ = waitingBytes (s.setQueue t rest)
  rw [take_queuedBytes, h]
  omega

theorem effect {a : Action δ ρ ε n} (ha : ∀ tier, a ≠ .flush tier) (h : BytesAgree s)
    (heffect : Effect cfg a s s') :
  BytesAgree s'
  := by
  cases heffect with
  | note | fire | createFuture | pause | resume | cancel | idle =>
      exact h.congr rfl rfl
  | accept request =>
      generalize hitem : { request.item s.created with
        position := s.nextPosition request.tier } = item
      have hsum := waitingBytes_update s item.tier (s.queues item.tier ++ [item])
      rw [totalBytes_append, totalBytes_cons, totalBytes_nil] at hsum
      rw [BytesAgree, waitingBytes, put]
      simp only [record_queuedBytes, setHasItems_queuedBytes, record_queues,
        setHasItems_queues, setQueue_queues, createFuture_queues, createFuture_queuedBytes]
      rw [h]
      omega
  | start _ _ hnext => exact (h.take hnext).congr rfl rfl
  | @expire _ w now t item rest _ _ hnext =>
      exact (h.take hnext).congr (settle_queuedBytes _ w) (settle_queues _ w)
  | crash _ _ hnext => exact (h.take hnext).congr rfl rfl
  | @complete _ w => exact h.congr (settle_queuedBytes _ w) (settle_queues _ w)
  | @fail _ w => exact h.congr (settle_queuedBytes _ w) (settle_queues _ w)
  | @drop _ tier => cases ha tier rfl

end BytesAgree

/-! ### Flushing -/

/-- Some item has a future that is done. -/
def anyDone (futures : ℕ → Future ρ ε) (q : List (QueueItem δ)) : Bool :=
  q.any fun item => (futures item.future).done

theorem uptoDone_append (futures : ℕ → Future ρ ε) (q r : List (QueueItem δ)) :
  uptoDone futures (q ++ r)
    = uptoDone futures q ++ if anyDone futures q then [] else uptoDone futures r
  := by
  induction q with
  | nil => rfl
  | cons item rest ih =>
      by_cases hdone : (futures item.future).done = true
      · simp [uptoDone, anyDone, hdone]
      · simp only [anyDone] at ih
        simp [uptoDone, anyDone, hdone, ih]

section Congr

variable {futures futures' : ℕ → Future ρ ε} {q : List (QueueItem δ)}

theorem uptoDone_congr (h : ∀ item ∈ q, futures' item.future = futures item.future) :
  uptoDone futures' q = uptoDone futures q
  := by
  induction q with
  | nil => rfl
  | cons item rest ih =>
      rw [uptoDone, uptoDone, h item List.mem_cons_self,
        ih fun i hi => h i (List.mem_cons_of_mem item hi)]

theorem anyDone_congr (h : ∀ item ∈ q, futures' item.future = futures item.future) :
  anyDone futures' q = anyDone futures q
  := by
  induction q with
  | nil => rfl
  | cons item rest ih =>
      have hrest := ih fun i hi => h i (List.mem_cons_of_mem item hi)
      rw [anyDone, anyDone] at hrest
      rw [anyDone, anyDone, List.any_cons, List.any_cons, h item List.mem_cons_self, hrest]

end Congr

/-- Resolving the future of an item leaves those of items with other futures alone. -/
theorem update_futures {item : QueueItem δ} {rest : List (QueueItem δ)}
    (futures : ℕ → Future ρ ε) (f : Future ρ ε)
    (hitem : item.future ∉ rest.map QueueItem.future) :
  ∀ i ∈ rest, Function.update futures item.future f i.future = futures i.future
  := by
  intro i hi
  apply Function.update_of_ne
  intro heq
  apply hitem
  rw [← heq]
  apply List.mem_map_of_mem hi

/-- `flush` leaves the other queues, the counter and the other futures alone. -/
theorem flushItems_frame (t : Tier) (q : List (QueueItem δ)) :
  ∀ s : PriorityQueueManager δ ρ ε n,
    (∀ t', t' ≠ t → (flushItems t q s).1.queues t' = s.queues t')
      ∧ (flushItems t q s).1.queuedBytes = s.queuedBytes
      ∧ ∀ k, k ∉ q.map QueueItem.future → (flushItems t q s).1.futures k = s.futures k
  := by
  induction q with
  | nil =>
      intro s
      simp [flushItems]
  | cons item rest ih =>
      intro s
      simp only [flushItems]
      split
      · simp +contextual
      · rename_i f hf
        obtain ⟨hqueues, hbytes, hfutures⟩ :=
          ih (((s.setQueue t rest).record (.flushed item)).setFuture item.future f)
        refine ⟨?_, ?_, ?_⟩
        · intro t' ht'
          simp [hqueues t' ht', ht']
        · simp [hbytes]
        · intro k hk
          rw [List.map_cons, List.mem_cons, not_or] at hk
          simp [hfutures k hk.2, hk.1]

/-- The loop of `flush` over one queue removes the items up to and including the first
whose future is done, and an exception leaves it if there is one. -/
theorem flushItems_spec (t : Tier) {q : List (QueueItem δ)}
    (hq : (q.map QueueItem.future).Nodup) :
  ∀ s : PriorityQueueManager δ ρ ε n, s.queues t = q →
    (flushItems t q s).1.waitingBytes + totalBytes (uptoDone s.futures q) = s.waitingBytes
      ∧ ((flushItems t q s).2 = none ↔ anyDone s.futures q = true)
  := by
  induction q with
  | nil =>
      intro s _
      simp [flushItems, uptoDone, anyDone, totalBytes]
  | cons item rest ih =>
      intro s hs
      obtain ⟨hitem, hrest⟩ := List.nodup_cons.mp hq
      have hremove := waitingBytes_remove hs
      simp only [flushItems]
      split
      · rename_i hf
        have hdone : (s.futures item.future).done = true := Future.setException_eq_none hf
        constructor
        · rw [uptoDone, hdone]
          apply hremove
        · simp [anyDone, hdone]
      · rename_i f hf
        obtain ⟨hpending, -⟩ := Future.setException_eq_some hf
        have hdone : (s.futures item.future).done = false :=
          Future.done_eq_false_iff.mpr hpending
        have hothers := update_futures s.futures f hitem
        obtain ⟨hbytes, hnone⟩ := ih hrest
          (((s.setQueue t rest).record (.flushed item)).setFuture item.future f) (by simp)
        rw [setFuture_futures, record_futures, setQueue_futures, uptoDone_congr hothers] at hbytes
        rw [setFuture_futures, record_futures, setQueue_futures, anyDone_congr hothers] at hnone
        constructor
        · change _ = (s.setQueue t rest).waitingBytes at hbytes
          rw [uptoDone, hdone, if_neg Bool.false_ne_true, totalBytes_cons]
          dsimp only
          omega
        · rw [Option.map_eq_none_iff, hnone]
          simp [anyDone, hdone]

theorem nodup_tiersOf (tier : Option Tier) :
  (tiersOf tier).Nodup
  := by
  cases tier with
  | none => decide
  | some t => apply List.nodup_singleton

/-- `flush` leaves the counter alone. -/
theorem flushTiers_queuedBytes (ts : List Tier) :
  ∀ s : PriorityQueueManager δ ρ ε n, (flushTiers ts s).1.queuedBytes = s.queuedBytes
  := by
  induction ts with
  | nil =>
      intro s
      rfl
  | cons t ts ih =>
      intro s
      have hframe := (flushItems_frame t (s.queues t) s).2.1
      simp only [flushTiers]
      split
      · rename_i h
        rw [h] at hframe
        apply hframe
      · rename_i h
        rw [h] at hframe
        rw [ih]
        apply hframe

/-- `flush` removes the items up to and including the first whose future is done. -/
theorem flushTiers_waitingBytes (ts : List Tier) :
  ∀ s : PriorityQueueManager δ ρ ε n, ts.Nodup →
    ((ts.flatMap s.queues).map QueueItem.future).Nodup →
      (flushTiers ts s).1.waitingBytes + totalBytes (uptoDone s.futures (ts.flatMap s.queues))
        = s.waitingBytes
  := by
  induction ts with
  | nil =>
      intro s _ _
      rfl
  | cons t ts ih =>
      intro s hts hfutures
      obtain ⟨ht, hts⟩ := List.nodup_cons.mp hts
      rw [List.flatMap_cons, List.map_append] at hfutures
      obtain ⟨hfirst, hrest, hdisjoint⟩ := List.nodup_append.mp hfutures
      obtain ⟨hqueues, -, hframe⟩ := flushItems_frame t (s.queues t) s
      obtain ⟨hbytes, hnone⟩ := flushItems_spec t hfirst s rfl
      rw [List.flatMap_cons, uptoDone_append, totalBytes_append]
      simp only [flushTiers]
      split
      · rename_i s' h
        rw [h] at hbytes hnone
        rw [if_pos (hnone.mp rfl), totalBytes_nil]
        apply hbytes
      · rename_i s' dropped h
        rw [h] at hbytes hnone hqueues hframe
        have hpending : ¬ anyDone s.futures (s.queues t) = true := by simp [← hnone]
        have hsame : ts.flatMap s'.queues = ts.flatMap s.queues := by
          apply List.flatMap_congr
          intro t' ht'
          apply hqueues
          rintro rfl
          apply ht ht'
        have hothers : ∀ i ∈ ts.flatMap s.queues, s'.futures i.future = s.futures i.future := by
          intro i hi
          apply hframe
          intro hmem
          apply hdisjoint _ hmem _ (List.mem_map_of_mem hi) rfl
        have hlater := ih s' hts (by rwa [hsame])
        rw [hsame, uptoDone_congr hothers] at hlater
        rw [if_neg hpending]
        dsimp only at hbytes ⊢
        omega

/-! ### Runs -/

/-- The items in the queues of different tiers have different futures. -/
theorem Tracked.flatMap_nodup (h : Tracked s) {ts : List Tier} (hts : ts.Nodup) :
  ((ts.flatMap s.queues).map QueueItem.future).Nodup
  := by
  have hmem {t : Tier} {item : QueueItem δ} (hitem : item ∈ s.queues t) :
      item ∈ s.admitted := by
    have hall : item ∈ Station.inClass QueueItem.tier t s.admitted := by
      rw [Station.fifo h.run t]
      apply List.mem_append_right _ hitem
    apply (Station.mem_inClass.mp hall).1
  have hclass {t : Tier} {item : QueueItem δ} (hitem : item ∈ s.queues t) : item.tier = t :=
    Station.cls_of_mem_waiting h.run hitem
  rw [List.map_flatMap, List.nodup_flatMap]
  constructor
  · intro t _
    have hwaiting : (s.queues t).Sublist s.admitted := by
      apply List.Sublist.trans _ List.filter_sublist
      · exact fun item => decide (item.tier = t)
      · have hfifo := Station.fifo h.run t
        rw [Station.inClass] at hfifo
        rw [hfifo]
        apply List.sublist_append_right
    apply (hwaiting.map _).nodup h.distinct
  · apply hts.imp
    intro t t' hne k hk hk'
    obtain ⟨i, hi, rfl⟩ := List.mem_map.mp hk
    obtain ⟨j, hj, heq⟩ := List.mem_map.mp hk'
    obtain rfl := List.inj_on_of_nodup_map h.distinct (hmem hi) (hmem hj) heq.symm
    apply hne
    rw [← hclass hi, hclass hj]

theorem BytesAgree.step_iff {a : Action δ ρ ε n} (htracked : Tracked s) (h : BytesAgree s)
    (hstep : Step cfg s a s') :
  BytesAgree s' ↔ FlushesNoBytes s a
  := by
  have hother (ha : ∀ tier, a ≠ .flush tier) : BytesAgree s' := by
    apply Step.invariant _ h hstep
    intro s s' hs heffect
    apply hs.effect ha heffect
  cases a with
  | flush tier =>
      obtain rfl := Option.some.inj hstep
      have htiers := nodup_tiersOf tier
      have hbytes : (s.flush tier).1.queuedBytes = s.queuedBytes := flushTiers_queuedBytes _ _
      have hwaiting : (s.flush tier).1.waitingBytes + totalBytes (s.reached tier)
          = s.waitingBytes :=
        flushTiers_waitingBytes _ _ htiers (htracked.flatMap_nodup htiers)
      have hzero : totalBytes (s.reached tier) = 0 ↔ ∀ item ∈ s.reached tier, item.nbytes = 0 := by
        simp [totalBytes, List.sum_eq_zero_iff_forall_eq_nat]
      rw [FlushesNoBytes, ← hzero, BytesAgree, hbytes, h]
      omega
  | enqueue | work | finish | pause | resume | cancel =>
      constructor
      · intro _
        trivial
      · intro _
        apply hother
        simp

/-- In all states of a run `queued_bytes` is the total size of the items that wait exactly
when every item a `flush` reaches has size zero. -/
theorem always_bytesAgree_iff (cfg : QueueConfig) (as : List (Action δ ρ ε n)) :
  Always (Step cfg) (initial δ ρ ε n) as BytesAgree
    ↔ AllSteps (Step cfg) (initial δ ρ ε n) as FlushesNoBytes
  := by
  apply always_iff_allSteps (I := Tracked) Tracked.initial
  · simp [BytesAgree, waitingBytes, initial]
  · intro t a u htracked _ hstep
    apply Step.invariant Tracked.effect htracked hstep
  · intro t a u htracked h hstep
    apply h.step_iff htracked hstep

/-- An item is enqueued and flushed. -/
def enqueuedThenFlushed : List (Action Unit Unit Unit 1) :=
  [.enqueue ⟨.normal, 0, "r", (), 7⟩, .flush none]

/-- The run above leaves seven bytes counted in empty queues. -/
theorem not_always_bytesAgree :
  ¬ Always (Step .default) (initial Unit Unit Unit 1) enqueuedThenFlushed BytesAgree
  := by
  apply not_always_of_exec (b := fun s => s.queuedBytes != s.waitingBytes)
  · decide +kernel
  · intro s hbad h
    simp [BytesAgree] at h
    simp [h] at hbad

end PriorityQueueManager

end OllamaQueueProxy
