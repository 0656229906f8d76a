import OllamaQueueProxy.Library.Tally
import OllamaQueueProxy.Queue.Run

/-!
# The queue as a station

The log of a manager, without the events it fired, is the list of moves of a priority
station whose classes are the tiers: the lines of the station are the queues, and the items
in service are those the workers execute.  Every run of the manager is a run of the
station (`Tracked`), so what holds of stations holds of the queue.
-/

open Transition

namespace OllamaQueueProxy

/-- How the dispatch of an item ends. -/
inductive DispatchEnd where
  | returned
  | raised
  deriving DecidableEq

/-- The move of the station an entry of the log records. -/
@[simp]
def Entry.move {δ : Type} : Entry δ → Option (Station.Move (QueueItem δ) DispatchEnd)
  | .admitted item => some (.arrive item)
  | .flushed item => some (.drop item)
  | .expired item => some (.discard item)
  | .started item => some (.serve item)
  | .returned item => some (.finish item .returned)
  | .raised item => some (.finish item .raised)
  | .fired _ => none

/-- The item a worker executes. -/
def Worker.items {δ : Type} : Worker δ → Multiset (QueueItem δ)
  | .executing item => {item}
  | _ => 0

namespace PriorityQueueManager

variable {δ ρ ε : Type} {n : ℕ} {cfg : QueueConfig} {s s' : PriorityQueueManager δ ρ ε n}

/-- The moves the log records. -/
def moves (s : PriorityQueueManager δ ρ ε n) : List (Station.Move (QueueItem δ) DispatchEnd) :=
  s.log.filterMap Entry.move

/-- The items the workers execute. -/
def held (s : PriorityQueueManager δ ρ ε n) : Multiset (QueueItem δ) :=
  ∑ w, (s.workers w).items

/-- The items that were put in a queue. -/
abbrev admitted (s : PriorityQueueManager δ ρ ε n) : List (QueueItem δ) :=
  Station.arrivals s.moves

/-- The station a manager represents. -/
def station (s : PriorityQueueManager δ ρ ε n) : Station.State Tier (QueueItem δ) where
  waiting := s.queues
  serving := s.held
  seen := {item | item ∈ s.admitted}

theorem station_eq (s' : PriorityQueueManager δ ρ ε n) (h : s'.admitted = s.admitted) :
  s'.station = { s.station with waiting := s'.queues, serving := s'.held }
  := by
  rw [station, h]
  rfl

/-! ### The updates -/

@[simp]
theorem moves_record (s : PriorityQueueManager δ ρ ε n) (e : Entry δ) :
  (s.record e).moves = s.moves ++ e.move.toList
  := by
  rw [moves, record_log, List.filterMap_append]
  cases e <;> rfl

@[simp]
theorem moves_fireEvent (s : PriorityQueueManager δ ρ ε n) (e : QueueEvent) :
  (s.fireEvent e).moves = s.moves
  := by
  rw [fireEvent, moves_record]
  apply List.append_nil

@[simp]
theorem moves_countExpired (s : PriorityQueueManager δ ρ ε n) (item : QueueItem δ) :
  (s.countExpired item).moves = s.moves ++ [.discard item]
  := moves_record _ _

@[simp]
theorem moves_countProcessed (s : PriorityQueueManager δ ρ ε n) (item : QueueItem δ)
    (wait : ℚ) :
  (s.countProcessed item wait).moves = s.moves ++ [.finish item .returned]
  := moves_record _ _

@[simp]
theorem moves_setQueue (s : PriorityQueueManager δ ρ ε n) (t : Tier)
    (q : List (QueueItem δ)) :
  (s.setQueue t q).moves = s.moves
  := rfl

@[simp]
theorem moves_setFuture (s : PriorityQueueManager δ ρ ε n) (k : ℕ) (f : Future ρ ε) :
  (s.setFuture k f).moves = s.moves
  := rfl

@[simp]
theorem moves_setWorker (s : PriorityQueueManager δ ρ ε n) (w : Fin n) (x : Worker δ) :
  (s.setWorker w x).moves = s.moves
  := rfl

@[simp]
theorem moves_take (s : PriorityQueueManager δ ρ ε n) (t : Tier) (item : QueueItem δ)
    (rest : List (QueueItem δ)) :
  (s.take t item rest).moves = s.moves
  := rfl

@[simp]
theorem moves_crash (s : PriorityQueueManager δ ρ ε n) (w : Fin n) :
  (s.crash w).moves = s.moves
  := rfl

@[simp]
theorem setHasItems_queues (s : PriorityQueueManager δ ρ ε n) :
  s.setHasItems.queues = s.queues
  := by
  unfold setHasItems
  split <;> rfl

@[simp]
theorem setHasItems_created (s : PriorityQueueManager δ ρ ε n) :
  s.setHasItems.created = s.created
  := by
  unfold setHasItems
  split <;> rfl

@[simp]
theorem setHasItems_moves (s : PriorityQueueManager δ ρ ε n) :
  s.setHasItems.moves = s.moves
  := by
  unfold setHasItems
  split <;> rfl

/-- Waking the waiting workers changes no item a worker executes. -/
@[simp]
theorem setHasItems_held (s : PriorityQueueManager δ ρ ε n) :
  s.setHasItems.held = s.held
  := by
  unfold setHasItems
  split
  · rfl
  · apply Finset.sum_congr rfl
    intro w _
    cases h : s.workers w <;> simp [h, Worker.items]

/-- A worker that is given the state `x` gives up the item it executed. -/
theorem held_setWorker (s : PriorityQueueManager δ ρ ε n) (w : Fin n) (x : Worker δ) :
  (s.setWorker w x).held + (s.workers w).items = s.held + x.items
  := Tally.sum_update Worker.items s.workers w x

@[simp]
theorem settle_queues (s : PriorityQueueManager δ ρ ε n) (w : Fin n) :
  (s.settle w).queues = s.queues
  := by
  unfold settle
  split <;> rfl

@[simp]
theorem settle_created (s : PriorityQueueManager δ ρ ε n) (w : Fin n) :
  (s.settle w).created = s.created
  := by
  unfold settle
  split <;> rfl

@[simp]
theorem settle_moves (s : PriorityQueueManager δ ρ ε n) (w : Fin n) :
  (s.settle w).moves = s.moves
  := by
  unfold settle
  split
  · apply Eq.trans (moves_record s (.fired .drained))
    simp
  · rfl

/-- A worker that executes nothing before and after holds nothing. -/
theorem held_setWorker_idle {w : Fin n} {x : Worker δ} (hw : (s.workers w).items = 0)
    (hx : x.items = 0) :
  (s.setWorker w x).held = s.held
  := by
  have hheld := held_setWorker s w x
  rw [hw, hx, add_zero, add_zero] at hheld
  apply hheld

theorem held_start {w : Fin n} {item : QueueItem δ} (hw : (s.workers w).items = 0) :
  (s.setWorker w (.executing item)).held = item ::ₘ s.held
  := by
  have hheld := held_setWorker s w (.executing item)
  rw [hw, add_zero, add_comm] at hheld
  apply hheld

theorem held_stop {w : Fin n} {item : QueueItem δ} {x : Worker δ}
    (hw : s.workers w = .executing item) (hx : x.items = 0) :
  s.held = item ::ₘ (s.setWorker w x).held
  := by
  have hheld := held_setWorker s w x
  rw [hw, hx, add_zero, add_comm] at hheld
  apply hheld.symm

theorem items_of_ready {w : Fin n} (hready : s.workers w = .ready) :
  (s.workers w).items = 0
  := by
  rw [hready]
  rfl

theorem items_loopTop (b : Bool) :
  (if b then Worker.ready else Worker.waiting : Worker δ).items = 0
  := by
  split <;> rfl

theorem held_loopTop {w : Fin n} (hw : (s.workers w).items = 0) :
  (s.loopTop w).held = s.held
  := held_setWorker_idle hw (items_loopTop _)

theorem held_settle {w : Fin n} (hw : (s.workers w).items = 0) :
  (s.settle w).held = s.held
  := by
  unfold settle
  split <;> exact held_loopTop hw

theorem held_settle_stop {w : Fin n} {item : QueueItem δ} (hw : s.workers w = .executing item) :
  s.held = item ::ₘ (s.settle w).held
  := by
  unfold settle loopTop
  split
  · apply held_stop (s := { s.fireEvent .drained with
      active := s.active - 1, semaphore := s.semaphore + 1 }) hw (items_loopTop _)
  · apply held_stop (s := { s with
      active := s.active - 1, semaphore := s.semaphore + 1 }) hw (items_loopTop _)

/-! ### The invariant -/

/-- The log of a manager is a run of the station it represents, and its items have
distinct futures, which have been created. -/
structure Tracked (s : PriorityQueueManager δ ρ ε n) : Prop where
  run : Run (Station.Step QueueItem.tier) (Station.empty Tier (QueueItem δ)) s.moves s.station
  fresh : ∀ item ∈ s.admitted, item.future < s.created
  distinct : (s.admitted.map QueueItem.future).Nodup

namespace Tracked

/-- Changes that leave the moves, the queues and the items executed alone. -/
theorem congr (h : Tracked s) (hmoves : s'.moves = s.moves) (hqueues : s'.queues = s.queues)
    (hheld : s'.held = s.held) (hcreated : s.created ≤ s'.created) :
  Tracked s'
  := by
  have hstation : s'.station = s.station := by
    rw [station, station, hqueues, hheld, admitted, admitted, hmoves]
  constructor
  · rw [hmoves, hstation]
    apply h.run
  · intro item hitem
    rw [admitted, hmoves] at hitem
    apply lt_of_lt_of_le (h.fresh item hitem) hcreated
  · rw [admitted, hmoves]
    apply h.distinct

/-- A change that performs a move by which nothing arrives. -/
theorem move {m : Station.Move (QueueItem δ) DispatchEnd} {q : Tier → List (QueueItem δ)}
    {g : Multiset (QueueItem δ)} (h : Tracked s) (hmoves : s'.moves = s.moves ++ [m])
    (hm : m.arrival = none) (hqueues : s'.queues = q) (hheld : s'.held = g)
    (hstep : Station.Step QueueItem.tier s.station m
      { s.station with waiting := q, serving := g })
    (hcreated : s'.created = s.created) :
  Tracked s'
  := by
  have hadmitted : s'.admitted = s.admitted := by
    rw [admitted, hmoves, Station.arrivals, Station.record_append, Station.record_cons, hm]
    simp
  constructor
  · rw [hmoves, station_eq s' hadmitted, hqueues, hheld]
    apply Run.snoc h.run hstep
  · rw [hadmitted, hcreated]
    apply h.fresh
  · rw [hadmitted]
    apply h.distinct

/-- The item whose turn it is at the station is the one the scan of a worker finds. -/
theorem turn (h : Tracked s) {t : Tier} {item : QueueItem δ} {rest : List (QueueItem δ)}
    (hnext : s.getNowait = some (t, item, rest)) :
  item.tier = t ∧ Station.Turn QueueItem.tier s.station item rest
  := by
  obtain ⟨hhead, hgreater⟩ := getNowait_eq hnext
  have hmem : item ∈ s.station.waiting t := by
    simp [station, hhead]
  obtain rfl := Station.cls_of_mem_waiting h.run hmem
  use rfl, hhead, hgreater

/-- A new item enters its tier. -/
theorem enters (h : Tracked s) {item : QueueItem δ} (hfuture : item.future = s.created) :
  Tracked (s.createFuture.put item)
  := by
  have hmoves : (s.createFuture.put item).moves = s.moves ++ [.arrive item] := by
    simp only [put, moves_record, setHasItems_moves]
    rfl
  have hunseen : item ∉ s.admitted := by
    intro hitem
    have hlt := h.fresh item hitem
    omega
  have hadmitted : (s.createFuture.put item).admitted = s.admitted ++ [item] := by
    simp [admitted, hmoves]
  constructor
  · have hheld : (s.createFuture.put item).held = s.held := by
      rw [put]
      apply setHasItems_held
    have hqueues : (s.createFuture.put item).queues
        = Function.update s.queues item.tier (s.queues item.tier ++ [item]) := by
      simp [put]
    have hseen : {i | i ∈ (s.createFuture.put item).admitted}
        = insert item {i | i ∈ s.admitted} := by
      ext i
      simp [hadmitted, or_comm]
    rw [hmoves, station, hheld, hqueues, hseen]
    apply Run.snoc h.run (Station.Step.arrive hunseen)
  · intro i hi
    rw [hadmitted] at hi
    have hcreated : (s.createFuture.put item).created = s.created + 1 := by
      simp [put]
    rw [hcreated]
    rcases List.mem_append.mp hi with hi | hi
    · have hlt := h.fresh i hi
      omega
    · obtain rfl := List.mem_singleton.mp hi
      omega
  · rw [hadmitted, List.map_append]
    apply List.Nodup.append h.distinct (List.nodup_singleton _)
    rw [List.disjoint_singleton, hfuture]
    intro hmem
    obtain ⟨i, hi, heq⟩ := List.mem_map.mp hmem
    have hlt := h.fresh i hi
    omega

theorem effect {a : Action δ ρ ε n} (h : Tracked s) (heffect : Effect cfg a s s') :
  Tracked s'
  := by
  cases heffect with
  | note stats watermarkFired hstats => exact h.congr rfl rfl rfl le_rfl
  | fire event => exact h.congr (moves_fireEvent s event) rfl rfl le_rfl
  | createFuture => exact h.congr rfl rfl rfl (Nat.le_succ _)
  | accept request => exact h.enters rfl
  | @idle _ w now hready hempty =>
      have hidle := items_of_ready hready
      exact h.congr rfl rfl (held_loopTop hidle) le_rfl
  | @start _ w now t item rest hready hpermit hnext hfresh =>
      have hidle := items_of_ready hready
      obtain ⟨rfl, hturn⟩ := h.turn hnext
      exact h.move (m := .serve item) (by simp) rfl rfl (held_start hidle)
        (Station.Step.serve hturn) rfl
  | @expire _ w now t item rest hready hpermit hnext hstale hpending =>
      have hidle := items_of_ready hready
      obtain ⟨rfl, hturn⟩ := h.turn hnext
      exact h.move (m := .discard item) (by simp) rfl (settle_queues _ w) (held_settle hidle)
        (Station.Step.discard hturn) (settle_created _ w)
  | @crash _ w now t item rest hready hpermit hnext hstale hdone =>
      have hidle := items_of_ready hready
      obtain ⟨rfl, hturn⟩ := h.turn hnext
      exact h.move (m := .discard item) (by simp) rfl rfl (held_setWorker_idle hidle rfl)
        (Station.Step.discard hturn) rfl
  | @complete _ w now r item f hexecuting hf hsame =>
      have hstop := held_settle_stop
        (s := (s.setFuture item.future f).countProcessed item (now - item.enqueueTime))
        hexecuting
      exact h.move (m := .finish item .returned) (by simp) rfl (settle_queues _ w) rfl
        (Station.Step.finish hstop) (settle_created _ w)
  | @fail _ w now e item f hexecuting hf hsame =>
      have hstop := held_settle_stop
        (s := (s.setFuture item.future f).record (.raised item)) hexecuting
      exact h.move (m := .finish item .raised) (by simp) rfl (settle_queues _ w) rfl
        (Station.Step.finish hstop) (settle_created _ w)
  | @drop _ tier t item rest f hhead hf hsame =>
      obtain rfl : item.tier = t := by
        apply Station.cls_of_mem_waiting h.run
        simp [station, hhead]
      exact h.move (m := .drop item) (by simp) rfl rfl rfl (Station.Step.drop hhead) rfl
  | pause tier | resume tier => exact h.congr rfl rfl rfl le_rfl
  | cancel hk => exact h.congr rfl rfl rfl le_rfl

theorem initial :
  Tracked (initial δ ρ ε n)
  := by
  have hstation : (PriorityQueueManager.initial δ ρ ε n).station = Station.empty _ _ := by
    have hheld : (PriorityQueueManager.initial δ ρ ε n).held = 0 := by
      apply Finset.sum_eq_zero
      intro w _
      rfl
    have hseen : {i | i ∈ (PriorityQueueManager.initial δ ρ ε n).admitted} = ∅ := by
      ext i
      simp [admitted, moves, PriorityQueueManager.initial]
    rw [station, hheld, hseen]
    rfl
  constructor
  · rw [hstation]
    exact Run.nil _
  · intro item hitem
    simp [admitted, moves, PriorityQueueManager.initial] at hitem
  · simp [admitted, moves, PriorityQueueManager.initial]

end Tracked

/-- Every state of every run is tracked by the station. -/
theorem Reachable.tracked (h : Reachable (Step cfg) (initial δ ρ ε n) s) :
  Tracked s
  := h.invariant Tracked.initial (Step.invariant Tracked.effect)

end PriorityQueueManager

end OllamaQueueProxy
