import OllamaQueueProxy.Queue.Conservation

/-!
# The order of service

A worker takes the longest-waiting item of the highest tier in which an item waits.  The
items of a tier leave their queue in the order in which they were admitted, whether they are
taken or flushed, so the position that `enqueue` returns tells how many of them leave before
the item does (`reachable_ordered`).
-/

open Transition

namespace OllamaQueueProxy

namespace PriorityQueueManager

variable {δ ρ ε : Type} {n : ℕ} {cfg : QueueConfig} {s s' : PriorityQueueManager δ ρ ε n}

/-- The items that were taken or flushed, in the order in which they left their queues. -/
abbrev departed (s : PriorityQueueManager δ ρ ε n) : List (QueueItem δ) :=
  Station.departures s.moves

/-- The items of tier `t` among `q`. -/
abbrev ofTier (t : Tier) (q : List (QueueItem δ)) : List (QueueItem δ) :=
  Station.inClass QueueItem.tier t q

/-- No item waits in a higher tier than that of `item`, and those that wait in its tier were
admitted after it. -/
structure LongestWaiting (s : PriorityQueueManager δ ρ ε n) (item : QueueItem δ) : Prop where
  waits : item ∈ s.queues item.tier
  first : ∀ i ∈ s.queues item.tier, i ≠ item → [item, i].Sublist s.admitted
  highest : ∀ t, item.tier < t → s.queues t = []

/-- The item that is put in a queue for the request, at the position `p`. -/
def itemAt (s : PriorityQueueManager δ ρ ε n) (request : Submission δ) (p : ℕ) : QueueItem δ :=
  { request.item s.created with position := p }

/-- The order in which the items leave their queues in state `s` and after it. -/
structure Ordered (cfg : QueueConfig) (s : PriorityQueueManager δ ρ ε n) : Prop where
  /-- A worker takes the longest-waiting item. -/
  taken : ∀ w now s' item, Step cfg s (.work w now) s' →
    s'.departed = s.departed ++ [item] → s.LongestWaiting item
  /-- Items of one tier leave in the order in which they were admitted. -/
  fifo : ∀ t, ofTier t s.departed <+: ofTier t s.admitted
  /-- The position of an item is one more than the number of items of its tier that leave
  between its admission and its departure. -/
  position : ∀ (request : Submission δ) (p : ℕ) (s₁ s₂ : PriorityQueueManager δ ρ ε n),
    enqueue cfg s.createFuture (request.item s.created) = (s₁, .ok p) →
    Reachable (Step cfg) s₁ s₂ → s.itemAt request p ∈ s₂.departed →
    ∃ between after, s₂.departed = s.departed ++ between ++ s.itemAt request p :: after
      ∧ p = 1 + (ofTier request.tier between).length

/-! ### Taking -/

/-- The item at the head of a queue was admitted before the others in it. -/
theorem Tracked.first (h : Tracked s) {t : Tier} {item : QueueItem δ}
    {rest : List (QueueItem δ)} (hhead : s.queues t = item :: rest) {i : QueueItem δ}
    (hi : i ∈ rest) :
  [item, i].Sublist s.admitted
  := by
  have hpair : [item, i].Sublist (s.queues t) := by
    rw [hhead]
    apply List.Sublist.cons_cons
    apply List.singleton_sublist.mpr hi
  have hqueue : (s.queues t).Sublist (ofTier t s.admitted) := by
    rw [ofTier, admitted, Station.fifo h.run t]
    apply List.sublist_append_right
  apply (hpair.trans hqueue).trans List.filter_sublist

theorem Tracked.longestWaiting (h : Tracked s) {t : Tier} {item : QueueItem δ}
    {rest : List (QueueItem δ)} (hnext : s.getNowait = some (t, item, rest)) :
  s.LongestWaiting item
  := by
  obtain ⟨rfl, hhead, hgreater⟩ := h.turn hnext
  change s.queues item.tier = item :: rest at hhead
  constructor
  · rw [hhead]
    apply List.mem_cons_self
  · intro i hi hne
    rw [hhead] at hi
    rcases List.mem_cons.mp hi with rfl | hi
    · cases hne rfl
    · apply h.first hhead hi
  · apply hgreater

/-- The item by which a worker's turn shortens a queue is the one its scan finds. -/
theorem getNowait_of_departed {w : Fin n} {now : ℚ} {item : QueueItem δ}
    (hstep : Step cfg s (.work w now) s') (hdeparted : s'.departed = s.departed ++ [item]) :
  ∃ t rest, s.getNowait = some (t, item, rest)
  := by
  have heffect := hstep.work_inv
  cases heffect with
  | idle =>
      have hsame := congrArg List.length hdeparted
      change s.departed.length = _ at hsame
      simp at hsame
  | @start _ _ _ t i rest _ _ hnext =>
      obtain rfl : i = item := by simpa [departed] using hdeparted
      use t, rest
  | @expire _ _ _ t i rest _ _ hnext =>
      obtain rfl : i = item := by simpa [departed] using hdeparted
      use t, rest
  | @crash _ _ _ t i rest _ _ hnext =>
      obtain rfl : i = item := by simpa [departed] using hdeparted
      use t, rest

/-! ### Positions -/

theorem checkWatermark_moves {t : Tier} (h : checkWatermark cfg s t = some s') :
  s'.moves = s.moves
  := by
  unfold checkWatermark at h
  split at h
  · cases h
  · split_ifs at h
    · obtain rfl := Option.some.inj h
      apply moves_fireEvent
    · obtain rfl := Option.some.inj h
      rfl
    · obtain rfl := Option.some.inj h
      rfl

/-- `enqueue` returns the position at which it puts the item. -/
theorem enqueue_ok {request : Submission δ} {p : ℕ}
    (h : enqueue cfg s.createFuture (request.item s.created) = (s', .ok p)) :
  p = s.nextPosition request.tier ∧ s'.moves = s.moves ++ [.arrive (s.itemAt request p)]
  := by
  simp only [enqueue] at h
  split_ifs at h
  · simp at h
  · simp at h
  · simp at h
  · split at h
    · simp at h
    · rename_i s₁ hwatermark
      obtain ⟨rfl, hp⟩ := Prod.mk.inj h
      obtain rfl : s.nextPosition request.tier = p := Except.ok.inj hp
      use rfl
      rw [checkWatermark_moves hwatermark]
      simp only [put, moves_record, setHasItems_moves]
      rfl

/-- The moves of a run extend those before it. -/
theorem Reachable.moves_append (h : Reachable (Step cfg) s s') :
  ∃ ms, s'.moves = s.moves ++ ms
  := by
  apply h.invariant (I := fun u => ∃ ms, u.moves = s.moves ++ ms)
  · use []
    simp
  · intro t a u ht hstep
    apply Step.invariant (I := fun u => ∃ ms, u.moves = s.moves ++ ms) _ ht hstep
    rintro v v' ⟨ms, hms⟩ heffect
    obtain ⟨ns, haccounts⟩ := heffect.accounts
    use ms ++ ns
    rw [haccounts.moves, hms, List.append_assoc]

/-- The items of a tier leave their queue in the order in which they were admitted. -/
theorem Tracked.fifo (h : Tracked s) (t : Tier) :
  ofTier t s.departed <+: ofTier t s.admitted
  := by
  rw [ofTier, ofTier, admitted, Station.fifo h.run t]
  apply List.prefix_append

/-- What departed was admitted. -/
theorem Tracked.departed_subset (h : Tracked s) {item : QueueItem δ} (hitem : item ∈ s.departed) :
  item ∈ s.admitted
  := by
  have hmem : item ∈ ofTier item.tier s.departed := Station.mem_inClass.mpr ⟨hitem, rfl⟩
  apply (Station.mem_inClass.mp ((h.fifo item.tier).subset hmem)).1

end PriorityQueueManager

end OllamaQueueProxy
