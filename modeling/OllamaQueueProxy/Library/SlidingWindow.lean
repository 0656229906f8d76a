import Mathlib.Data.List.Basic
import Mathlib.Order.Lattice
import Mathlib.Order.Monotone.Defs

/-!
# Sliding windows

A list of times, of which those count that are less than `w` old.  How old a time is at
another one is computed by `age`, which need not be exact but never decreases as time goes on.
So times that no longer count never do so again, and a list may be pruned whenever it is looked
at: it keeps agreeing with the list of all times (`AgreeFrom.prune`).
-/

namespace SlidingWindow

variable {T A : Type*} [LinearOrder A]

section

variable (age : T → T → A) (w : A) (now : T)

/-- The times that are less than `w` old at `now`. -/
def recent (ts : List T) : List T := ts.filter fun t => age now t < w

theorem length_recent_le (ts : List T) :
  (recent age w now ts).length ≤ ts.length
  := List.length_filter_le _ _

variable [Preorder T]

/-- From `now` on, the same times count of both lists. -/
def AgreeFrom (ts us : List T) : Prop :=
  ∀ later, now ≤ later → recent age w later ts = recent age w later us

end

variable [Preorder T] {age : T → T → A} {w : A} {now later : T} {ts us : List T}

/-- What counts later is among what counts now. -/
theorem recent_recent (hage : ∀ t, Monotone fun now => age now t) (h : now ≤ later)
    (ts : List T) :
  recent age w later (recent age w now ts) = recent age w later ts
  := by
  unfold recent
  rw [List.filter_filter]
  apply List.filter_congr
  intro t _
  rw [Bool.and_eq_left_iff_imp]
  intro hlater
  apply decide_eq_true
  exact (hage t h).trans_lt (of_decide_eq_true hlater)

namespace AgreeFrom

theorem refl (age : T → T → A) (w : A) (now : T) (ts : List T) :
  AgreeFrom age w now ts ts
  := fun _ _ => rfl

theorem mono (h : AgreeFrom age w now ts us) (hle : now ≤ later) :
  AgreeFrom age w later ts us
  := fun _ hlater => h _ (hle.trans hlater)

/-- The times that do not count can be dropped. -/
theorem prune (hage : ∀ t, Monotone fun now => age now t) (h : AgreeFrom age w now ts us) :
  AgreeFrom age w now (recent age w now ts) us
  := by
  intro later hlater
  rw [recent_recent hage hlater]
  apply h later hlater

theorem append (h : AgreeFrom age w now ts us) (vs : List T) :
  AgreeFrom age w now (ts ++ vs) (us ++ vs)
  := by
  intro later hlater
  unfold recent
  rw [List.filter_append, List.filter_append]
  congr 1
  apply h later hlater

end AgreeFrom

end SlidingWindow
