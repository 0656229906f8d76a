import Mathlib.Data.List.Basic
import Mathlib.Data.List.Count
import Mathlib.Tactic.Common

/-!
# Asynchronous semaphores

A semaphore of an event loop, with first-in first-out hand-over of permits.  A task that
cannot take a permit at once waits; a released permit is handed to the first waiter that is
still pending, which holds it from then on but runs only later.  A waiter may be cancelled,
before or after it is handed a permit.

The `credit` of a semaphore are its free permits together with those it has handed to
waiters that have not run yet.  A task that is granted a permit lowers it by one, a release
raises it by one, and nothing else changes it.
-/

/-- Where a waiter is: it waits, it was handed a permit, or it was cancelled while it
waited. -/
inductive WaiterState where
  | pending
  | granted
  | cancelled
  deriving DecidableEq

/-- The free permits of a semaphore and its waiters, the first to come first. -/
structure Semaphore (κ : Type*) where
  value : ℕ
  waiters : List (κ × WaiterState)

namespace Semaphore

variable {κ : Type*}

/-- The semaphore with `n` free permits. -/
def new (n : ℕ) : Semaphore κ := ⟨n, []⟩

/-- A permit cannot be taken at once: there is none, or others came first. -/
def locked (s : Semaphore κ) : Bool :=
  s.value == 0 || s.waiters.any fun w => w.2 != .cancelled

/-- A task takes a permit, or joins the waiters; whether it took one. -/
def acquire (s : Semaphore κ) (k : κ) : Semaphore κ × Bool :=
  if s.locked then ({ s with waiters := s.waiters ++ [(k, .pending)] }, false)
  else ({ s with value := s.value - 1 }, true)

/-- The first pending waiter is granted. -/
def grantFirst : List (κ × WaiterState) → Option (List (κ × WaiterState))
  | [] => none
  | (k, .pending) :: ws => some ((k, .granted) :: ws)
  | (k, .granted) :: ws => (grantFirst ws).map ((k, .granted) :: ·)
  | (k, .cancelled) :: ws => (grantFirst ws).map ((k, .cancelled) :: ·)

/-- A permit is handed to the first pending waiter, if there is one. -/
def wakeUpNext (s : Semaphore κ) : Option (Semaphore κ) :=
  (grantFirst s.waiters).map fun ws => ⟨s.value - 1, ws⟩

/-- Permits are handed to pending waiters, at most `m`. -/
def wakeUp : ℕ → Semaphore κ → Semaphore κ
  | 0, s => s
  | m + 1, s => match s.wakeUpNext with
    | none => s
    | some s' => wakeUp m s'

/-- The free permits are handed to pending waiters. -/
def wakeUpAll (s : Semaphore κ) : Semaphore κ := wakeUp s.value s

/-- A permit is given back, and handed to the first pending waiter. -/
def release (s : Semaphore κ) : Semaphore κ :=
  let s' := { s with value := s.value + 1 }
  s'.wakeUpNext.getD s'

variable [DecidableEq κ]

/-- A waiter that was handed a permit runs. -/
def resume (s : Semaphore κ) (k : κ) : Semaphore κ :=
  wakeUpAll { s with waiters := s.waiters.erase (k, .granted) }

/-- A pending waiter is cancelled. -/
def cancel (s : Semaphore κ) (k : κ) : Semaphore κ :=
  { s with waiters := s.waiters.replace (k, .pending) (k, .cancelled) }

/-- A cancelled waiter runs. -/
def leave (s : Semaphore κ) (k : κ) : Semaphore κ :=
  wakeUpAll { s with waiters := s.waiters.erase (k, .cancelled) }

/-- A waiter that was handed a permit is cancelled, and gives it back when it runs. -/
def giveBack (s : Semaphore κ) (k : κ) : Semaphore κ :=
  wakeUpAll { s with
    value := s.value + 1
    waiters := s.waiters.erase (k, .granted) }

/-! ### Credit -/

omit [DecidableEq κ]

/-- The number of waiters that were handed a permit. -/
def granted (s : Semaphore κ) : ℕ := s.waiters.countP fun w => w.2 = .granted

/-- The permits that are free or handed over. -/
def credit (s : Semaphore κ) : ℕ := s.value + s.granted

/-- The semaphores have the same credit and the same number of waiters. -/
structure Same (s s' : Semaphore κ) : Prop where
  credit : s'.credit = s.credit
  waiters : s'.waiters.length = s.waiters.length

theorem Same.refl (s : Semaphore κ) :
  Same s s
  := ⟨rfl, rfl⟩

theorem Same.trans {s s' s'' : Semaphore κ} (h : Same s s') (h' : Same s' s'') :
  Same s s''
  := ⟨h'.credit.trans h.credit, h'.waiters.trans h.waiters⟩

theorem grantFirst_eq_some {ws ws' : List (κ × WaiterState)} (h : grantFirst ws = some ws') :
  ws'.countP (fun w => w.2 = .granted) = ws.countP (fun w => w.2 = .granted) + 1
    ∧ ws'.length = ws.length
  := by
  induction ws generalizing ws' with
  | nil => simp [grantFirst] at h
  | cons w ws ih =>
      rcases w with ⟨k, _ | _ | _⟩
      · obtain rfl : (k, .granted) :: ws = ws' := by simpa [grantFirst] using h
        simp
      · obtain ⟨vs, hvs, rfl⟩ := Option.map_eq_some_iff.mp h
        obtain ⟨hcount, hlength⟩ := ih hvs
        simp [hcount, hlength]
      · obtain ⟨vs, hvs, rfl⟩ := Option.map_eq_some_iff.mp h
        obtain ⟨hcount, hlength⟩ := ih hvs
        simp [hcount, hlength]

/-- Handing over a free permit keeps the credit. -/
theorem same_wakeUpNext {s s' : Semaphore κ} (hs : 0 < s.value) (h : s.wakeUpNext = some s') :
  Same s s' ∧ s'.value + 1 = s.value
  := by
  obtain ⟨ws, hws, rfl⟩ := Option.map_eq_some_iff.mp h
  obtain ⟨hcount, hlength⟩ := grantFirst_eq_some hws
  refine ⟨⟨?_, hlength⟩, ?_⟩
  · simp only [credit, granted, hcount]
    omega
  · dsimp only
    omega

theorem same_wakeUp {m : ℕ} {s : Semaphore κ} (hm : m ≤ s.value) :
  Same s (wakeUp m s)
  := by
  induction m generalizing s with
  | zero => apply Same.refl
  | succ m ih =>
      rw [wakeUp]
      split
      · apply Same.refl
      · rename_i s' hs'
        obtain ⟨hsame, hvalue⟩ := same_wakeUpNext (by omega) hs'
        apply hsame.trans (ih (by omega))

theorem same_wakeUpAll (s : Semaphore κ) :
  Same s s.wakeUpAll
  := same_wakeUp (Nat.le_refl _)

theorem credit_release (s : Semaphore κ) :
  s.release.credit = s.credit + 1 ∧ s.release.waiters.length = s.waiters.length
  := by
  have hone : ({ s with value := s.value + 1 } : Semaphore κ).credit = s.credit + 1 := by
    simp only [credit, granted]
    omega
  simp only [release]
  cases h : ({ s with value := s.value + 1 } : Semaphore κ).wakeUpNext with
  | none => exact ⟨hone, rfl⟩
  | some s' =>
      obtain ⟨hsame, -⟩ := same_wakeUpNext (Nat.succ_pos _) h
      rw [Option.getD_some, hsame.credit, hsame.waiters]
      use hone

theorem acquire_of_locked {s : Semaphore κ} {k : κ} (h : s.locked = true) :
  (s.acquire k).2 = false ∧ (s.acquire k).1.credit = s.credit
    ∧ (s.acquire k).1.waiters.length = s.waiters.length + 1
  := by
  simp [acquire, h, credit, granted]

theorem acquire_of_not_locked {s : Semaphore κ} {k : κ} (h : s.locked = false) :
  (s.acquire k).2 = true ∧ (s.acquire k).1.credit + 1 = s.credit
    ∧ (s.acquire k).1.waiters.length = s.waiters.length
  := by
  have hvalue : 0 < s.value := by
    simp only [locked, Bool.or_eq_false_iff, beq_eq_false_iff_ne] at h
    omega
  simp [acquire, h, credit, granted]
  omega

variable [DecidableEq κ]

/-- Removing a waiter lowers the credit by the permit it was handed. -/
theorem erase_waiter {s : Semaphore κ} {w : κ × WaiterState} (h : w ∈ s.waiters) :
  ({ s with waiters := s.waiters.erase w } : Semaphore κ).credit
      + (if w.2 = .granted then 1 else 0) = s.credit
    ∧ (s.waiters.erase w).length + 1 = s.waiters.length
  := by
  have hperm := List.perm_cons_erase h
  have hcount := hperm.countP_eq (fun w => w.2 = .granted)
  have hlength := hperm.length_eq
  rw [List.countP_cons] at hcount
  rw [List.length_cons] at hlength
  constructor
  · simp only [credit, granted, hcount, decide_eq_true_eq]
    omega
  · omega

theorem credit_resume {s : Semaphore κ} {k : κ} (h : (k, .granted) ∈ s.waiters) :
  (s.resume k).credit + 1 = s.credit
    ∧ (s.resume k).waiters.length + 1 = s.waiters.length
  := by
  have hsame := same_wakeUpAll { s with waiters := s.waiters.erase (k, .granted) }
  rw [resume, hsame.credit, hsame.waiters]
  apply erase_waiter h

theorem credit_leave {s : Semaphore κ} {k : κ} (h : (k, .cancelled) ∈ s.waiters) :
  (s.leave k).credit = s.credit ∧ (s.leave k).waiters.length + 1 = s.waiters.length
  := by
  have hsame := same_wakeUpAll { s with waiters := s.waiters.erase (k, .cancelled) }
  rw [leave, hsame.credit, hsame.waiters]
  apply erase_waiter h

theorem credit_giveBack {s : Semaphore κ} {k : κ} (h : (k, .granted) ∈ s.waiters) :
  (s.giveBack k).credit = s.credit ∧ (s.giveBack k).waiters.length + 1 = s.waiters.length
  := by
  have hsame := same_wakeUpAll { s with
    value := s.value + 1
    waiters := s.waiters.erase (k, .granted) }
  obtain ⟨hcredit, hlength⟩ := erase_waiter h
  rw [giveBack, hsame.credit, hsame.waiters]
  use by
    rw [← hcredit]
    simp only [credit, granted, if_true]
    omega

theorem credit_cancel (s : Semaphore κ) (k : κ) :
  (s.cancel k).credit = s.credit ∧ (s.cancel k).waiters.length = s.waiters.length
  := by
  have hcount (ws : List (κ × WaiterState)) :
      (ws.replace (k, .pending) (k, .cancelled)).countP (fun w => w.2 = .granted)
        = ws.countP (fun w => w.2 = .granted) := by
    induction ws with
    | nil => rfl
    | cons w ws ih =>
        rw [List.replace_cons]
        split
        · rename_i hw
          obtain rfl : (k, .pending) = w := by simpa using hw
          simp
        · simp [List.countP_cons, ih]
  constructor
  · simp only [credit, granted, cancel, hcount]
  · apply List.length_replace

end Semaphore
