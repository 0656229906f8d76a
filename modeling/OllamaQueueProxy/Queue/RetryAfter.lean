import OllamaQueueProxy.Queue.Run
import Mathlib.Tactic.Positivity

/-!
# The hint of a refusal

The number of seconds that `retry_after` computes for the tier of a refused item, from the
depth and the wait times of that tier.  A tier that is full has items, but the ceiling on the
bytes that wait may be reached by the items of other tiers alone: then the hint for an empty
tier is to retry after zero seconds (`hintsToWait_iff`).
-/

open Transition

namespace OllamaQueueProxy

/-- The tier of an item that did not fit, which `retry_after` is asked about. -/
def EnqueueError.overflowTier? : EnqueueError → Option Tier
  | .queueFull tier _ | .queueOverCapacity tier _ => some tier
  | .queuePaused _ | .zeroDivision => none

theorem TierStats.meanWait_pos {s : TierStats} (h : ∀ wait ∈ s.recentWaits, 0 < wait) :
  0 < s.meanWait
  := by
  unfold meanWait
  split
  · decide
  · rename_i hmany
    have hne : s.recentWaits ≠ [] := by
      rintro hnil
      apply hmany
      simp [hnil]
    have hsum : 0 < s.recentWaits.sum := List.sum_pos _ h hne
    have hlength : 0 < s.recentWaits.length := List.length_pos_iff.mpr hne
    positivity

namespace PriorityQueueManager

variable {δ ρ ε : Type} {n : ℕ} {cfg : QueueConfig} {s : PriorityQueueManager δ ρ ε n}
  {item : QueueItem δ}

/-- If the item is refused because it does not fit, the hint is to wait for a second at
least. -/
def HintsToWait (cfg : QueueConfig) (s : PriorityQueueManager δ ρ ε n) (item : QueueItem δ) :
    Prop :=
  ∀ e, (s.enqueue cfg item).2 = .error e → ∀ tier, e.overflowTier? = some tier →
    1 ≤ (s.enqueue cfg item).1.retryAfter tier

/-- No item waits in the tier of the item, which is refused for the bytes of others. -/
structure CrowdedOut (cfg : QueueConfig) (s : PriorityQueueManager δ ρ ε n)
    (item : QueueItem δ) : Prop where
  empty : s.queues item.tier = []
  paused : s.paused item.tier = false
  others : s.allEmpty = false
  capacity : cfg.maxQueuedBytes < (s.queuedBytes + item.nbytes : ℤ)

/-- A refusal does not change the hint. -/
theorem retryAfter_reject (s : PriorityQueueManager δ ρ ε n) (t t' : Tier) (e : QueueEvent) :
  (s.reject t e).retryAfter t' = s.retryAfter t'
  := by
  have hwaits : ((s.reject t e).stats t').recentWaits = (s.stats t').recentWaits := by
    change (Function.update s.stats t _ t').recentWaits = _
    by_cases ht : t' = t
    · subst ht
      rw [Function.update_self]
    · rw [Function.update_of_ne ht]
  unfold retryAfter TierStats.meanWait
  rw [hwaits]
  rfl

/-- The hint is to wait for a second at least exactly when items wait in the tier. -/
theorem one_le_retryAfter_iff {t : Tier} (hwaits : ∀ wait ∈ (s.stats t).recentWaits, 0 < wait) :
  1 ≤ s.retryAfter t ↔ s.queues t ≠ []
  := by
  have hmean := TierStats.meanWait_pos hwaits
  rw [retryAfter, Int.one_le_ceil_iff]
  constructor
  · intro hpos hnil
    simp [hnil] at hpos
  · intro hne
    have hlength : 0 < (s.queues t).length := List.length_pos_iff.mpr hne
    positivity

/-- A tier that is full has items, if its maximal depth is not zero. -/
theorem queues_ne_nil_of_full {t : Tier} (h : s.full cfg t = true) :
  s.queues t ≠ []
  := by
  intro hnil
  simp only [full, hnil, List.length_nil] at h
  split at h
  · cases h
  · rename_i hpos
    apply hpos
    simpa using h

/-- The hint to an item that does not fit is to wait for a second at least, exactly when the item
is not refused for the bytes of other tiers, with no item waiting in its own. -/
theorem hintsToWait_iff (hwaits : ∀ wait ∈ (s.stats item.tier).recentWaits, 0 < wait) :
  HintsToWait cfg s item ↔ ¬ CrowdedOut cfg s item
  := by
  have hhint := one_le_retryAfter_iff hwaits
  unfold HintsToWait enqueue
  split_ifs with hpaused hfull hcapacity
  · apply iff_of_true
    · rintro e ⟨⟩ tier ⟨⟩
    · intro hcrowded
      rw [hcrowded.paused] at hpaused
      cases hpaused
  · have hne := queues_ne_nil_of_full hfull
    apply iff_of_true
    · rintro e ⟨⟩ tier ⟨⟩
      rw [retryAfter_reject]
      exact hhint.mpr hne
    · intro hcrowded
      exact hne hcrowded.empty
  · constructor
    · intro hall hcrowded
      have hone := hall _ rfl item.tier rfl
      rw [retryAfter_reject] at hone
      exact hhint.mp hone hcrowded.empty
    · rintro hcrowded e ⟨⟩ tier ⟨⟩
      rw [retryAfter_reject]
      apply hhint.mpr
      intro hempty
      exact hcrowded ⟨hempty, by simpa using hpaused, hcapacity.2, hcapacity.1⟩
  · apply iff_of_true
    · intro e herror tier htier
      dsimp only at herror
      split at herror
      · obtain rfl := Except.error.inj herror
        cases htier
      · cases herror
    · intro hcrowded
      exact hcapacity ⟨hcrowded.capacity, hcrowded.others⟩

/-- An item that reaches the ceiling on the bytes that wait. -/
def crowdingRun : List (Action Unit Unit Unit 1) := [.enqueue ⟨.low, 0, "a", (), 536870912⟩]

/-- A small item of another tier. -/
def smallItem : QueueItem Unit := (⟨.high, 0, "b", (), 1⟩ : Submission Unit).item 1

/-- The small item is refused for the bytes of the other one, and the hint is to retry after zero
seconds. -/
theorem not_hintsToWait :
  ∃ s : PriorityQueueManager Unit Unit Unit 1,
    Run (Step .default) (initial Unit Unit Unit 1) crowdingRun s
      ∧ (∀ wait ∈ (s.stats smallItem.tier).recentWaits, 0 < wait)
      ∧ ¬ HintsToWait .default s smallItem
  := by
  let crowded (s : PriorityQueueManager Unit Unit Unit 1) : Bool :=
    (s.stats .high).recentWaits.isEmpty && (s.queues .high).isEmpty && !s.paused .high
      && !s.allEmpty && QueueConfig.default.maxQueuedBytes < (s.queuedBytes + 1 : ℤ)
  have hany : (exec (step .default) (initial Unit Unit Unit 1) crowdingRun).any crowded = true := by
    decide +kernel
  obtain ⟨s, hexec, hcrowded⟩ := (Option.any_eq_true _ _).mp hany
  simp only [crowded, Bool.and_eq_true, List.isEmpty_iff, Bool.not_eq_true', decide_eq_true_eq]
    at hcrowded
  obtain ⟨⟨⟨⟨hnone, hempty⟩, hpaused⟩, hothers⟩, hcapacity⟩ := hcrowded
  have hwaits : ∀ wait ∈ (s.stats smallItem.tier).recentWaits, 0 < wait := by
    intro wait hwait
    rw [show smallItem.tier = .high from rfl, hnone] at hwait
    cases hwait
  use s, run_of_exec hexec, hwaits
  rw [hintsToWait_iff hwaits, not_not]
  exact ⟨hempty, hpaused, hothers, hcapacity⟩

/-- A queue for a single item of the tier `high`. -/
def singleHigh : QueueConfig := { QueueConfig.default with high := ⟨1, 120, 80⟩ }

/-- The queue of the tier `high` is full. -/
def fullHigh : PriorityQueueManager Unit Unit Unit 1 :=
  (enqueue singleHigh (initial Unit Unit Unit 1).createFuture
    ((⟨.high, 0, "a", (), 7⟩ : Submission Unit).item 0)).1

theorem hintsToWait_full :
  HintsToWait singleHigh fullHigh smallItem
  := by
  have hnone : (fullHigh.stats smallItem.tier).recentWaits = [] := by
    decide +kernel
  apply (hintsToWait_iff _).mpr
  · intro hcrowded
    have hsome : (fullHigh.queues .high).isEmpty = false := by
      decide +kernel
    rw [show fullHigh.queues .high = [] from hcrowded.empty] at hsome
    cases hsome
  · rw [hnone]
    exact List.forall_mem_nil _

end PriorityQueueManager

end OllamaQueueProxy
