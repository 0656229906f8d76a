import OllamaQueueProxy.Queue.Admission

/-!
# The high watermark

The event `queue.high_watermark` is meant to report that the depth of a tier has risen to its
watermark, once for every time it does.  A tier that has fired the event is marked, and fires it
again after the mark was removed; but only `enqueue` removes it, when it leaves the depth below
the watermark.  A tier whose depth fell to just below the watermark, because workers took items
or they were flushed, is still marked when the next item lifts it to the watermark again.
Moreover the depth is compared as a rounded percentage, which may fall below the exact one.
These are the only two ways in which an event is missed or fired without reason
(`alertsOnce_iff`).
-/

open Transition

namespace OllamaQueueProxy

/-- The entry records that the tier fired `queue.high_watermark`. -/
def Entry.isAlert {δ : Type} (t : Tier) : Entry δ → Bool
  | .fired (.highWatermark t' _) => t' = t
  | _ => false

namespace PriorityQueueManager

variable {δ ρ ε : Type} {n : ℕ}

/-- How often the tier has fired `queue.high_watermark`. -/
def alerts (s : PriorityQueueManager δ ρ ε n) (t : Tier) : ℕ := s.log.countP (Entry.isAlert t)

/-- The depth is at or above the watermark of the tier. -/
def AtWatermark (cfg : QueueConfig) (t : Tier) (depth : ℕ) : Prop :=
  (cfg.tier t).highWatermarkPct * (cfg.tier t).maxDepth ≤ depth * 100

/-- The depth is at or above the watermark of the tier, as a percentage that is rounded
twice. -/
def SeenAtWatermark (cfg : QueueConfig) (t : Tier) (depth : ℕ) : Prop :=
  (cfg.tier t).highWatermarkPct
    ≤ Binary64.mul (Binary64.divInt depth (cfg.tier t).maxDepth) 100

instance (cfg : QueueConfig) (t : Tier) (depth : ℕ) : Decidable (AtWatermark cfg t depth) :=
  inferInstanceAs (Decidable (_ ≤ _))

instance (cfg : QueueConfig) (t : Tier) (depth : ℕ) : Decidable (SeenAtWatermark cfg t depth) :=
  inferInstanceAs (Decidable (_ ≤ _))

/-- A manager, and whether a tier has never fired or was below its watermark at some moment since
it fired last. -/
structure Watched (δ ρ ε : Type) (n : ℕ) where
  manager : PriorityQueueManager δ ρ ε n
  armed : Bool

/-- A new manager has not fired. -/
def Watched.initial (δ ρ ε : Type) (n : ℕ) : Watched δ ρ ε n where
  manager := PriorityQueueManager.initial δ ρ ε n
  armed := true

/-- The tier `t` is watched while the manager changes to `s`. -/
def Watched.next (cfg : QueueConfig) (t : Tier) (x : Watched δ ρ ε n)
    (s : PriorityQueueManager δ ρ ε n) : Watched δ ρ ε n where
  manager := s
  armed := (x.armed && s.alerts t = x.manager.alerts t)
    || !decide (AtWatermark cfg t (s.queues t).length)

/-- A step of the manager, during which the tier `t` is watched. -/
def watchedStep (cfg : QueueConfig) (t : Tier) (x : Watched δ ρ ε n) (a : Action δ ρ ε n) :
    Option (Watched δ ρ ε n) :=
  (step cfg x.manager a).map (x.next cfg t)

abbrev WatchedStep (cfg : QueueConfig) (t : Tier) :
    Watched δ ρ ε n → Action δ ρ ε n → Watched δ ρ ε n → Prop :=
  ofStep (watchedStep cfg t)

/-- An item that is admitted to the tier makes it fire exactly when it leaves the tier at or above
the watermark, and the tier has not fired or was below the watermark since. -/
def AlertsOnce (cfg : QueueConfig) (t : Tier) (x : Watched δ ρ ε n) : Action δ ρ ε n → Prop
  | .enqueue request =>
      let s := x.manager.createFuture
      let item := request.item x.manager.created
      request.tier = t → Admits cfg s item →
        (x.manager.alerts t < (s.enqueue cfg item).1.alerts t
          ↔ AtWatermark cfg t ((s.enqueue cfg item).1.queues t).length ∧ x.armed = true)
  | _ => True

/-- An item that is admitted to the tier leaves it at a depth that the rounded percentage puts on
the right side of the watermark, and does not lift a tier that is still marked from below the
watermark to it. -/
def SeesCrossing (cfg : QueueConfig) (t : Tier) (x : Watched δ ρ ε n) : Action δ ρ ε n → Prop
  | .enqueue request =>
      let depth := (x.manager.queues t).length
      request.tier = t → Admits cfg x.manager.createFuture (request.item x.manager.created) →
        (SeenAtWatermark cfg t (depth + 1) ↔ AtWatermark cfg t (depth + 1))
          ∧ ¬ (x.manager.watermarkFired t = true ∧ ¬ AtWatermark cfg t depth
            ∧ AtWatermark cfg t (depth + 1))
  | _ => True

variable {cfg : QueueConfig} {t : Tier} {s s' : PriorityQueueManager δ ρ ε n}

/-! ### The comparison -/

theorem AtWatermark.mono {d d' : ℕ} (h : AtWatermark cfg t d) (hle : d ≤ d') :
  AtWatermark cfg t d'
  := by
  unfold AtWatermark at h ⊢
  omega

theorem SeenAtWatermark.mono (hdepth : 1 ≤ (cfg.tier t).maxDepth) {d d' : ℕ}
    (h : SeenAtWatermark cfg t d) (hle : d ≤ d') :
  SeenAtWatermark cfg t d'
  := by
  have hpos : (0 : ℚ) < (cfg.tier t).maxDepth := by exact_mod_cast hdepth
  have hquotient : Binary64.divInt d (cfg.tier t).maxDepth
      ≤ Binary64.divInt d' (cfg.tier t).maxDepth := by
    unfold Binary64.divInt
    apply Binary64.round_mono
    · positivity
    · gcongr
  have hnonneg : 0 ≤ Binary64.divInt d (cfg.tier t).maxDepth := by
    unfold Binary64.divInt
    apply Binary64.round_nonneg
    positivity
  refine h.trans ?_
  apply Binary64.round_mono
  · positivity
  · gcongr

/-- At the depth zero there is nothing to round. -/
theorem seenAtWatermark_zero (hdepth : 1 ≤ (cfg.tier t).maxDepth) :
  SeenAtWatermark cfg t 0 ↔ AtWatermark cfg t 0
  := by
  have hzero : Binary64.mul (Binary64.divInt (0 : ℕ) (cfg.tier t).maxDepth) 100 = 0 := by
    simp [Binary64.mul, Binary64.divInt, Binary64.round_zero]
  rw [SeenAtWatermark, hzero, AtWatermark]
  constructor
  · intro hpct
    have hle : (cfg.tier t).highWatermarkPct ≤ 0 := by exact_mod_cast hpct
    simpa using Int.mul_nonpos_of_nonpos_of_nonneg hle (by omega)
  · intro hprod
    have hle : (cfg.tier t).highWatermarkPct ≤ 0 := by
      by_contra hpos
      have := Int.mul_pos (lt_of_not_ge hpos) (show 0 < (cfg.tier t).maxDepth by omega)
      omega
    exact_mod_cast hle

/-- With a maximal depth of a hundred and a watermark of 29 %, the depth 29 is rounded to less
than 29 %. -/
example : ¬ (SeenAtWatermark { QueueConfig.default with normal := ⟨100, 300, 29⟩ } .normal 29) := by
  decide +kernel

/-! ### What a step does to a tier -/

/-- The depth of the tier has not increased, and nothing else about the watermark changed. -/
structure Quiet (t : Tier) (s s' : PriorityQueueManager δ ρ ε n) : Prop where
  depth : (s'.queues t).length ≤ (s.queues t).length
  watermarkFired : s'.watermarkFired t = s.watermarkFired t
  alerts : s'.alerts t = s.alerts t

theorem alerts_record (s : PriorityQueueManager δ ρ ε n) (t : Tier) (e : Entry δ) :
  (s.record e).alerts t = s.alerts t + if e.isAlert t then 1 else 0
  := by
  rw [alerts, record_log, List.countP_append, List.countP_singleton]
  rfl

theorem alerts_settle (s : PriorityQueueManager δ ρ ε n) (w : Fin n) :
  (s.settle w).alerts t = s.alerts t
  := by
  unfold settle
  split
  · exact alerts_record s t _
  · rfl

theorem watermarkFired_settle (s : PriorityQueueManager δ ρ ε n) (w : Fin n) :
  (s.settle w).watermarkFired = s.watermarkFired
  := by
  unfold settle
  split <;> rfl

theorem Effect.quiet {a : Action δ ρ ε n} (ha : ∀ request, a ≠ .enqueue request)
    (heffect : Effect cfg a s s') :
  Quiet t s s'
  := by
  refine ⟨(heffect.shrinks ha t).length_le, ?_, ?_⟩
  · cases heffect with
    | note | fire | createFuture | accept => cases ha _ rfl
    | idle | pause | resume | cancel | start | crash | drop => rfl
    | expire => rw [watermarkFired_settle]; rfl
    | complete => rw [watermarkFired_settle]; rfl
    | fail => rw [watermarkFired_settle]; rfl
  · cases heffect with
    | note | fire | createFuture | accept => cases ha _ rfl
    | idle | pause | resume | cancel => rfl
    | start => exact alerts_record _ t _
    | crash => exact alerts_record _ t _
    | drop => exact alerts_record _ t _
    | expire => rw [alerts_settle]; exact alerts_record _ t _
    | complete => rw [alerts_settle]; exact alerts_record _ t _
    | fail => rw [alerts_settle]; exact alerts_record _ t _

theorem Quiet.refl (s : PriorityQueueManager δ ρ ε n) :
  Quiet t s s
  := ⟨Nat.le_refl _, rfl, rfl⟩

theorem Quiet.trans {s'' : PriorityQueueManager δ ρ ε n} (h : Quiet t s s')
    (h' : Quiet t s' s'') :
  Quiet t s s''
  := ⟨h'.depth.trans h.depth, h'.watermarkFired.trans h.watermarkFired,
    h'.alerts.trans h.alerts⟩

/-- Only `enqueue` raises the depth of a tier, or marks it. -/
theorem Step.quiet {a : Action δ ρ ε n} (ha : ∀ request, a ≠ .enqueue request)
    (h : Step cfg s a s') :
  Quiet t s s'
  := by
  apply Step.invariant (I := Quiet t s) _ (Quiet.refl s) h
  intro u u' hu heffect
  exact hu.trans (heffect.quiet ha)

theorem alerts_put (s : PriorityQueueManager δ ρ ε n) (item : QueueItem δ) :
  (s.put item).alerts t = s.alerts t ∧ (s.put item).watermarkFired = s.watermarkFired
  := by
  rw [put, alerts_record]
  unfold setHasItems
  dsimp only
  split <;> exact ⟨rfl, rfl⟩

/-- What the check of the watermark makes of a tier. -/
inductive Checked (cfg : QueueConfig) (t : Tier) (depth : ℕ)
    (s s' : PriorityQueueManager δ ρ ε n) : Prop where
  /-- The tier fires and is marked. -/
  | fires (hseen : SeenAtWatermark cfg t depth) (hunmarked : s.watermarkFired t = false)
      (hmarked : s'.watermarkFired t = true) (halerts : s'.alerts t = s.alerts t + 1)
  /-- The mark is removed. -/
  | clears (hunseen : ¬ SeenAtWatermark cfg t depth) (hunmarked : s'.watermarkFired t = false)
      (halerts : s'.alerts t = s.alerts t)
  /-- The tier stays marked. -/
  | stays (hseen : SeenAtWatermark cfg t depth) (hmarked : s.watermarkFired t = true)
      (hmarked' : s'.watermarkFired t = true) (halerts : s'.alerts t = s.alerts t)

/-- The check of the watermark of a tier, whose maximal depth is not zero. -/
theorem checked_checkWatermark (hdepth : 1 ≤ (cfg.tier t).maxDepth)
    (h : checkWatermark cfg s t = some s') :
  Checked cfg t (s.queues t).length s s'
  := by
  have hpct : depthPct (s.queues t).length (cfg.tier t).maxDepth
      = some (Binary64.mul (Binary64.divInt (s.queues t).length (cfg.tier t).maxDepth) 100) :=
    if_neg (by omega)
  simp only [checkWatermark, hpct] at h
  split_ifs at h with hfires hclears
  · obtain rfl := Option.some.inj h
    obtain ⟨hseen, hunmarked⟩ := hfires
    apply Checked.fires hseen hunmarked
    · exact Function.update_self ..
    · rw [fireEvent, alerts_record, if_pos (by simp [Entry.isAlert])]
      rfl
  · obtain rfl := Option.some.inj h
    apply Checked.clears (not_le_of_gt hclears)
    · exact Function.update_self ..
    · rfl
  · obtain rfl := Option.some.inj h
    have hseen := le_of_not_gt hclears
    have hmarked : s.watermarkFired t = true := by
      by_contra hunmarked
      exact hfires ⟨hseen, by simpa using hunmarked⟩
    exact Checked.stays hseen hmarked hmarked rfl

/-- The check of the watermark of another tier. -/
theorem quiet_checkWatermark {t' : Tier} (hne : t' ≠ t)
    (h : checkWatermark cfg s t' = some s') :
  Quiet t s s'
  := by
  unfold checkWatermark at h
  split at h
  · cases h
  · split_ifs at h <;> obtain rfl := Option.some.inj h
    · refine ⟨Nat.le_refl _, Function.update_of_ne (Ne.symm hne) .., ?_⟩
      rw [fireEvent, alerts_record, if_neg (by simp [Entry.isAlert, hne])]
      rfl
    · exact ⟨Nat.le_refl _, Function.update_of_ne (Ne.symm hne) .., rfl⟩
    · exact Quiet.refl _

/-- An admitted item is put in its queue, and the watermark is checked unless the maximal depth of
its tier is zero. -/
theorem enqueue_fst_of_admits {item : QueueItem δ} (h : Admits cfg s item) :
  (s.enqueue cfg item).1
    = (checkWatermark cfg (s.put { item with position := s.nextPosition item.tier })
        item.tier).getD (s.put { item with position := s.nextPosition item.tier })
  := by
  have hcapacity : ¬ (cfg.maxQueuedBytes < s.queuedBytes + item.nbytes ∧ s.allEmpty = false) := by
    rintro ⟨hover, hempty⟩
    exact absurd (h.capacity hempty) (not_le_of_gt hover)
  simp only [enqueue, h.paused, h.full, if_neg hcapacity, Bool.false_eq_true, if_false]
  cases checkWatermark cfg (s.put { item with position := s.nextPosition item.tier }) item.tier
    <;> rfl

/-- An item that is refused, or put in the queue of another tier, does not matter to the
tier. -/
theorem quiet_enqueue {item : QueueItem δ} (h : item.tier = t → ¬ Admits cfg s item) :
  Quiet t s (s.enqueue cfg item).1
  := by
  by_cases hadmits : Admits cfg s item
  · have hne : item.tier ≠ t := fun htier => h htier hadmits
    have hput : Quiet t s (s.put { item with position := s.nextPosition item.tier }) := by
      obtain ⟨halerts, hmarks⟩ :=
        alerts_put (t := t) s { item with position := s.nextPosition item.tier }
      refine ⟨?_, by rw [hmarks], halerts⟩
      rw [(appended_put s _).queues, Function.update_of_ne (Ne.symm hne)]
    rw [enqueue_fst_of_admits hadmits]
    cases hcheck : checkWatermark cfg
        (s.put { item with position := s.nextPosition item.tier }) item.tier with
    | none => exact hput
    | some s' => exact hput.trans (quiet_checkWatermark hne hcheck)
  · obtain ⟨e, -, hsame | ⟨event, hrefusal, hreject⟩⟩ := enqueue_refuses hadmits
    · rw [hsame]
      exact Quiet.refl s
    · rw [hreject]
      refine ⟨Nat.le_refl _, rfl, ?_⟩
      rw [reject, fireEvent, alerts_record]
      cases hrefusal <;> rfl

theorem checked_enqueue (hdepth : 1 ≤ (cfg.tier t).maxDepth) {item : QueueItem δ}
    (htier : item.tier = t) (h : Admits cfg s item) :
  ((s.enqueue cfg item).1.queues t).length = (s.queues t).length + 1
    ∧ Checked cfg t ((s.queues t).length + 1) s (s.enqueue cfg item).1
  := by
  subst htier
  have hlength {s' : PriorityQueueManager δ ρ ε n}
      (happended : Appended { item with position := s.nextPosition item.tier } s s') :
      (s'.queues item.tier).length = (s.queues item.tier).length + 1 := by
    rw [happended.queues, Function.update_self, List.length_append, List.length_singleton]
  refine ⟨hlength (enqueue_of_admits h).1, ?_⟩
  have hput := hlength (appended_put s { item with position := s.nextPosition item.tier })
  obtain ⟨halerts, hmarks⟩ :=
    alerts_put (t := item.tier) s { item with position := s.nextPosition item.tier }
  rw [enqueue_fst_of_admits h]
  cases hcheck : checkWatermark cfg
      (s.put { item with position := s.nextPosition item.tier }) item.tier with
  | none =>
      have hzero := checkWatermark_eq_none_iff.mp hcheck
      omega
  | some s' =>
      have hchecked := checked_checkWatermark hdepth hcheck
      rw [hput] at hchecked
      cases hchecked with
      | fires hseen hunmarked hmarked hfired =>
          exact .fires hseen (hmarks ▸ hunmarked) hmarked (halerts ▸ hfired)
      | clears hunseen hunmarked hsame => exact .clears hunseen hunmarked (halerts ▸ hsame)
      | stays hseen hmarked hmarked' hsame =>
          exact .stays hseen (hmarks ▸ hmarked) hmarked' (halerts ▸ hsame)

/-! ### Runs -/

variable {x y : Watched δ ρ ε n} {a : Action δ ρ ε n}

/-- The action enqueues an item that is admitted to the tier. -/
def Enters (cfg : QueueConfig) (t : Tier) (x : Watched δ ρ ε n) : Action δ ρ ε n → Prop
  | .enqueue request => request.tier = t
      ∧ Admits cfg x.manager.createFuture (request.item x.manager.created)
  | _ => False

theorem Step.quiet_of_not_enters (ha : ¬ Enters cfg t x a) (h : Step cfg x.manager a s') :
  Quiet t x.manager s'
  := by
  cases a with
  | enqueue request =>
      obtain rfl := Option.some.inj h
      have hquiet : Quiet t x.manager.createFuture (x.manager.createFuture.enqueue cfg
          (request.item x.manager.created)).1 := by
        apply quiet_enqueue
        intro htier hadmits
        exact ha ⟨htier, hadmits⟩
      exact ⟨hquiet.depth, hquiet.watermarkFired, hquiet.alerts⟩
  | work | finish | flush | pause | resume | cancel => exact h.quiet (by simp)

/-- What a step that lets an item enter does. -/
structure Entered (cfg : QueueConfig) (t : Tier) (s s' : PriorityQueueManager δ ρ ε n) :
    Prop where
  depth : (s'.queues t).length = (s.queues t).length + 1
  checked : Checked cfg t ((s.queues t).length + 1) s s'

theorem Step.entered (hdepth : 1 ≤ (cfg.tier t).maxDepth) (ha : Enters cfg t x a)
    (h : Step cfg x.manager a s') :
  Entered cfg t x.manager s'
    ∧ (AlertsOnce cfg t x a ↔ (x.manager.alerts t < s'.alerts t
        ↔ AtWatermark cfg t ((x.manager.queues t).length + 1) ∧ x.armed = true))
    ∧ (SeesCrossing cfg t x a ↔ (SeenAtWatermark cfg t ((x.manager.queues t).length + 1)
        ↔ AtWatermark cfg t ((x.manager.queues t).length + 1))
      ∧ ¬ (x.manager.watermarkFired t = true ∧ ¬ AtWatermark cfg t (x.manager.queues t).length
        ∧ AtWatermark cfg t ((x.manager.queues t).length + 1)))
  := by
  cases a with
  | enqueue request =>
      obtain rfl := Option.some.inj h
      obtain ⟨htier, hadmits⟩ := ha
      obtain ⟨hlength, hchecked⟩ := checked_enqueue hdepth htier hadmits
      refine ⟨⟨hlength, ?_⟩, ?_, ?_⟩
      · cases hchecked with
        | fires hseen hunmarked hmarked halerts => exact .fires hseen hunmarked hmarked halerts
        | clears hunseen hunmarked halerts => exact .clears hunseen hunmarked halerts
        | stays hseen hmarked hmarked' halerts => exact .stays hseen hmarked hmarked' halerts
      · have hsame : (x.manager.createFuture.queues t).length = (x.manager.queues t).length := rfl
        simp only [AlertsOnce, htier, hadmits, hlength, hsame, forall_const]
      · simp only [SeesCrossing, htier, hadmits, forall_const]
  | work | finish | flush | pause | resume | cancel => cases ha

/-- Nothing is required of a step that lets no item enter. -/
theorem of_not_enters (ha : ¬ Enters cfg t x a) :
  AlertsOnce cfg t x a ∧ SeesCrossing cfg t x a
  := by
  cases a with
  | enqueue request =>
      constructor
      · intro htier hadmits
        exact absurd ⟨htier, hadmits⟩ ha
      · intro htier hadmits
        exact absurd ⟨htier, hadmits⟩ ha
  | work | finish | flush | pause | resume | cancel => exact ⟨trivial, trivial⟩

/-- While the tier has alerted once for every crossing, the rounded percentage was right at all
depths up to the present one; the tier is marked or armed, and both only below the
watermark. -/
structure Watching (cfg : QueueConfig) (t : Tier) (x : Watched δ ρ ε n) : Prop where
  agrees : ∀ d ≤ (x.manager.queues t).length, (SeenAtWatermark cfg t d ↔ AtWatermark cfg t d)
  unmarked : x.manager.watermarkFired t = false → x.armed = true
  marked : x.manager.watermarkFired t = true →
    ∀ d, SeenAtWatermark cfg t d → AtWatermark cfg t d
  fallen : x.manager.watermarkFired t = true → x.armed = true →
    ¬ AtWatermark cfg t (x.manager.queues t).length
  unarmed : x.armed = false → AtWatermark cfg t (x.manager.queues t).length

/-- The tier alerts once exactly when it sees the crossing. -/
theorem Watching.alertsOnce_step_iff (hdepth : 1 ≤ (cfg.tier t).maxDepth) (hx : Watching cfg t x)
    (h : WatchedStep cfg t x a y) :
  AlertsOnce cfg t x a ↔ SeesCrossing cfg t x a
  := by
  obtain ⟨s', hstep, rfl⟩ := Option.map_eq_some_iff.mp h
  by_cases ha : Enters cfg t x a
  · obtain ⟨hentered, halerts, hsees⟩ := Step.entered hdepth ha hstep
    rw [halerts, hsees]
    cases hentered.checked with
    | fires hseen hunmarked _ hfired =>
        have harmed := hx.unmarked hunmarked
        have hfires : x.manager.alerts t < s'.alerts t := by omega
        simp only [hfires, true_iff, harmed, and_true, hseen, hunmarked, Bool.false_eq_true,
          false_and, not_false_eq_true]
    | clears hunseen _ hsame =>
        have hnone : ¬ x.manager.alerts t < s'.alerts t := by omega
        simp only [hnone, hunseen, false_iff]
        constructor
        · intro hout
          have hbelow : ¬ AtWatermark cfg t ((x.manager.queues t).length + 1) := by
            intro hat
            -- a tier that is not armed is at the watermark already, and seen to be
            have hunarmed : x.armed = false := by simpa [hat] using hout
            have hseen := (hx.agrees _ (Nat.le_refl _)).mpr (hx.unarmed hunarmed)
            exact hunseen (hseen.mono hdepth (Nat.le_succ _))
          exact ⟨hbelow, fun hmissed => hbelow hmissed.2.2⟩
        · rintro ⟨hbelow, -⟩ ⟨hat, -⟩
          exact hbelow hat
    | stays hseen hmarked _ hsame =>
        have hnone : ¬ x.manager.alerts t < s'.alerts t := by omega
        have hat := hx.marked hmarked _ hseen
        simp only [hnone, hseen, hat, hmarked, true_and, and_true, false_iff, not_not]
        constructor
        · intro hunarmed
          exact hx.unarmed (by simpa using hunarmed)
        · intro hbefore harmed
          exact hx.fallen hmarked harmed hbefore
  · obtain ⟨halerts, hsees⟩ := of_not_enters ha
    exact iff_of_true halerts hsees

theorem Watched.next_armed_iff :
  (x.next cfg t s').armed = true ↔ (x.armed = true ∧ s'.alerts t = x.manager.alerts t)
    ∨ ¬ AtWatermark cfg t (s'.queues t).length
  := by
  simp [Watched.next]

theorem Watched.next_unarmed (h : (x.next cfg t s').armed = false) :
  AtWatermark cfg t (s'.queues t).length
  := by
  by_contra hbelow
  rw [next_armed_iff.mpr (.inr hbelow)] at h
  cases h

theorem Watching.initial (hdepth : 1 ≤ (cfg.tier t).maxDepth) :
  Watching cfg t (Watched.initial δ ρ ε n)
  := by
  constructor
  · intro d hd
    obtain rfl := Nat.le_zero.mp hd
    exact seenAtWatermark_zero hdepth
  · intro _
    rfl
  · rintro ⟨⟩
  · rintro ⟨⟩
  · rintro ⟨⟩

/-- A step that lets no item enter leaves the tier watched. -/
theorem Watching.next_of_quiet (hx : Watching cfg t x) (hquiet : Quiet t x.manager s') :
  Watching cfg t (x.next cfg t s')
  := by
  constructor
  · intro d hd
    exact hx.agrees d (hd.trans hquiet.depth)
  · intro hunmarked
    have harmed := hx.unmarked (hquiet.watermarkFired ▸ hunmarked)
    exact Watched.next_armed_iff.mpr (.inl ⟨harmed, hquiet.alerts⟩)
  · intro hmarked
    exact hx.marked (hquiet.watermarkFired ▸ hmarked)
  · intro hmarked harmed
    obtain ⟨hbefore, -⟩ | hbelow := Watched.next_armed_iff.mp harmed
    · intro hat
      exact hx.fallen (hquiet.watermarkFired ▸ hmarked) hbefore (hat.mono hquiet.depth)
    · exact hbelow
  · exact Watched.next_unarmed

/-- So does an item that enters, if the rounded percentage is right and the tier alerts as it
should. -/
theorem Watching.next_of_entered (hx : Watching cfg t x) (hentered : Entered cfg t x.manager s')
    (hagree : SeenAtWatermark cfg t ((x.manager.queues t).length + 1)
      ↔ AtWatermark cfg t ((x.manager.queues t).length + 1))
    (hright : x.manager.alerts t < s'.alerts t
      ↔ AtWatermark cfg t ((x.manager.queues t).length + 1) ∧ x.armed = true) :
  Watching cfg t (x.next cfg t s')
  := by
  obtain ⟨hlength, hchecked⟩ := hentered
  have hagrees : ∀ d ≤ (s'.queues t).length,
      (SeenAtWatermark cfg t d ↔ AtWatermark cfg t d) := by
    intro d hd
    rw [hlength] at hd
    obtain hlt | rfl := hd.lt_or_eq
    · exact hx.agrees d (Nat.le_of_lt_succ hlt)
    · exact hagree
  cases hchecked with
  | fires hseen _ hmarked hfired =>
      have hat := hagree.mp hseen
      refine ⟨hagrees, ?_, ?_, ?_, Watched.next_unarmed⟩
      · intro hunmarked
        cases hunmarked.symm.trans hmarked
      · intro _ d hd
        obtain hlt | hle := Nat.lt_or_ge d (s'.queues t).length
        · exact (hagrees d hlt.le).mp hd
        · exact hat.mono (by omega)
      · intro _ harmed
        obtain ⟨-, hsame⟩ | hbelow := Watched.next_armed_iff.mp harmed
        · omega
        · exact hbelow
  | clears hunseen hunmarked _ =>
      refine ⟨hagrees, ?_, ?_, ?_, Watched.next_unarmed⟩
      · intro _
        apply Watched.next_armed_iff.mpr (.inr _)
        rw [hlength]
        exact mt hagree.mpr hunseen
      · intro hmarked
        cases hunmarked.symm.trans hmarked
      · intro hmarked
        cases hunmarked.symm.trans hmarked
  | stays hseen hmarked hmarked' hsame =>
      refine ⟨hagrees, ?_, ?_, ?_, Watched.next_unarmed⟩
      · intro hunmarked
        cases hunmarked.symm.trans hmarked'
      · intro _
        exact hx.marked hmarked
      · intro _ harmed
        obtain ⟨hbefore, -⟩ | hbelow := Watched.next_armed_iff.mp harmed
        · have hfires := hright.mpr ⟨hagree.mp hseen, hbefore⟩
          omega
        · exact hbelow

/-- While a tier alerts once for every crossing, it stays so watched. -/
theorem Watching.step (hdepth : 1 ≤ (cfg.tier t).maxDepth) (hx : Watching cfg t x)
    (hright : AlertsOnce cfg t x a) (h : WatchedStep cfg t x a y) :
  Watching cfg t y
  := by
  have hsees := (hx.alertsOnce_step_iff hdepth h).mp hright
  obtain ⟨s', hstep, rfl⟩ := Option.map_eq_some_iff.mp h
  by_cases ha : Enters cfg t x a
  · obtain ⟨hentered, halerts, hcrossing⟩ := Step.entered hdepth ha hstep
    rw [hcrossing] at hsees
    rw [halerts] at hright
    exact hx.next_of_entered hentered hsees.1 hright
  · exact hx.next_of_quiet (Step.quiet_of_not_enters ha hstep)

/-- In a run a tier alerts once for every crossing of its watermark exactly when it sees all
crossings. -/
theorem alertsOnce_iff (cfg : QueueConfig) {t : Tier} (hdepth : 1 ≤ (cfg.tier t).maxDepth)
    (as : List (Action δ ρ ε n)) :
  AllSteps (WatchedStep cfg t) (Watched.initial δ ρ ε n) as (AlertsOnce cfg t)
    ↔ AllSteps (WatchedStep cfg t) (Watched.initial δ ρ ε n) as (SeesCrossing cfg t)
  := allSteps_iff_allSteps (I := Watching cfg t) (Watching.initial hdepth)
    (fun hx hright h => hx.step hdepth hright h) (fun hx h => hx.alertsOnce_step_iff hdepth h)

/-- Two items fit in the tier `normal`, whose watermark is its maximal depth. -/
def twoNormal : QueueConfig := { QueueConfig.default with normal := ⟨2, 300, 100⟩ }

def normalItem : Submission Unit := ⟨.normal, 0, "r", (), 7⟩

/-- The tier is filled, and a worker takes the first item. -/
def filledRun : List (Action Unit Unit Unit 1) :=
  [.enqueue normalItem, .enqueue normalItem, .work 0 0]

/-- The item that fills the tier again is admitted, but the event is not fired. -/
theorem not_alertsOnce :
  ¬ AllSteps (WatchedStep twoNormal .normal) (Watched.initial Unit Unit Unit 1)
    (filledRun ++ [.enqueue normalItem]) (AlertsOnce twoNormal .normal)
  := by
  let missed (x : Watched Unit Unit Unit 1) : Bool :=
    x.manager.watermarkFired .normal && (x.manager.queues .normal).length == 1
      && !x.manager.paused .normal && !x.manager.full twoNormal .normal
      && x.manager.queuedBytes == 7
  have hany : (exec (watchedStep twoNormal .normal) (Watched.initial Unit Unit Unit 1)
      filledRun).any missed = true := by
    decide +kernel
  obtain ⟨x, hexec, hmissed⟩ := (Option.any_eq_true _ _).mp hany
  simp only [missed, Bool.and_eq_true, Bool.not_eq_true', beq_iff_eq] at hmissed
  obtain ⟨⟨⟨⟨hmarked, hone⟩, hpaused⟩, hfull⟩, hbytes⟩ := hmissed
  have hadmits : Admits twoNormal x.manager.createFuture (normalItem.item x.manager.created) := by
    refine ⟨hpaused, hfull, ?_⟩
    intro _
    change ((x.manager.queuedBytes : ℤ) + 7) ≤ twoNormal.maxQueuedBytes
    rw [hbytes]
    decide
  rw [alertsOnce_iff twoNormal (by decide)]
  intro hall
  obtain ⟨-, hcrossed⟩ := hall filledRun (.enqueue normalItem) x _ List.prefix_rfl
    (run_of_exec hexec) rfl rfl hadmits
  apply hcrossed
  rw [hone]
  exact ⟨hmarked, by decide, by decide⟩

/-- Both items are taken before two others fill the tier again. -/
def refilledRun : List (Action Unit Unit Unit 2) :=
  [.enqueue normalItem, .enqueue normalItem, .work 0 0, .work 1 0, .enqueue normalItem,
    .enqueue normalItem]

/-- The test that the depth after an action is seen at the watermark when it gets there. -/
def crossesAtWatermark (x : Watched Unit Unit Unit 2) : Action Unit Unit Unit 2 → Bool
  | .enqueue _ =>
      let depth := (x.manager.queues .normal).length
      decide ((SeenAtWatermark twoNormal .normal (depth + 1)
          ↔ AtWatermark twoNormal .normal (depth + 1))
        ∧ ¬ (x.manager.watermarkFired .normal = true ∧ ¬ AtWatermark twoNormal .normal depth
          ∧ AtWatermark twoNormal .normal (depth + 1)))
  | _ => true

theorem alertsOnce_refilled :
  AllSteps (WatchedStep twoNormal .normal) (Watched.initial Unit Unit Unit 2) refilledRun
    (AlertsOnce twoNormal .normal)
  := by
  apply (alertsOnce_iff twoNormal (by decide) refilledRun).mpr
  refine allSteps_of_checkSteps (b := crossesAtWatermark) (by decide +kernel) ?_
  intro x act hx
  cases act with
  | enqueue request =>
      intro _ _
      exact of_decide_eq_true hx
  | work | finish | flush | pause | resume | cancel => trivial

end PriorityQueueManager

end OllamaQueueProxy
