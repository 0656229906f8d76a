import OllamaQueueProxy.Library.Transition
import Mathlib.Algebra.Order.Group.Multiset
import Mathlib.Data.List.Basic
import Mathlib.Logic.Function.Basic
import Mathlib.Order.Defs.LinearOrder

/-!
# Priority stations

A station keeps one line for each class of items and a pool of items in service.  An item
arrives once, at the end of the line of its class.  The head of a line may be dropped; the
head of the line of the greatest class whose line is not empty may be discarded, or taken
into service, which it leaves by finishing with an outcome.

The moves of a run determine where every item is.  The items of a class that left their
line, in the order they left it, followed by those still in it, are the items of the class
in the order they arrived (`fifo`); the items taken into service are those in service and
those that finished (`served_eq`); so arrivals are conserved, class by class and for every
property of items (`balance`).  The number of items in the line an item joins is the number
of items of its class that leave the line after it arrives and before it leaves itself
(`departures_between`).
-/

open Transition

namespace Station

/-- What happens at a station. -/
inductive Move (X ω : Type*) where
  /-- The item joins the line of its class. -/
  | arrive (x : X)
  /-- The item, at the head of its line, is removed. -/
  | drop (x : X)
  /-- The item whose turn it is leaves its line without being served. -/
  | discard (x : X)
  /-- The item whose turn it is leaves its line and its service begins. -/
  | serve (x : X)
  /-- The service of the item ends with the outcome. -/
  | finish (x : X) (outcome : ω)

namespace Move

variable {X ω : Type*}

/-- The item that arrives by a move. -/
@[simp]
def arrival : Move X ω → Option X
  | .arrive x => some x
  | .drop _ | .discard _ | .serve _ | .finish _ _ => none

/-- The item that leaves its line by a move. -/
@[simp]
def departure : Move X ω → Option X
  | .drop x | .discard x | .serve x => some x
  | .arrive _ | .finish _ _ => none

/-- The item that is dropped by a move. -/
@[simp]
def dropped : Move X ω → Option X
  | .drop x => some x
  | .arrive _ | .discard _ | .serve _ | .finish _ _ => none

/-- The item that is discarded by a move. -/
@[simp]
def discarded : Move X ω → Option X
  | .discard x => some x
  | .arrive _ | .drop _ | .serve _ | .finish _ _ => none

/-- The item whose service begins by a move. -/
@[simp]
def served : Move X ω → Option X
  | .serve x => some x
  | .arrive _ | .drop _ | .discard _ | .finish _ _ => none

/-- The item whose service ends by a move. -/
@[simp]
def finished : Move X ω → Option X
  | .finish x _ => some x
  | .arrive _ | .drop _ | .discard _ | .serve _ => none

/-- The item that leaves the station by a move. -/
@[simp]
def exit : Move X ω → Option X
  | .drop x | .discard x | .finish x _ => some x
  | .arrive _ | .serve _ => none

/-- The item whose service ends with the outcome `o` by a move. -/
@[simp]
def finishedWith [DecidableEq ω] (o : ω) : Move X ω → Option X
  | .finish x outcome => if outcome = o then some x else none
  | .arrive _ | .drop _ | .discard _ | .serve _ => none

end Move

/-- The lines of a station, the items in service, and the items that have arrived. -/
structure State (κ X : Type*) where
  waiting : κ → List X
  serving : Multiset X
  seen : Set X

/-- The station at which nothing has arrived. -/
def empty (κ X : Type*) : State κ X where
  waiting _ := []
  serving := 0
  seen := ∅

variable {κ X ω : Type*} [LinearOrder κ]

/-- `x` is at the head of the line of its class, before `rest`, and the lines of the
greater classes are empty. -/
def Turn (cls : X → κ) (s : State κ X) (x : X) (rest : List X) : Prop :=
  s.waiting (cls x) = x :: rest ∧ ∀ c, cls x < c → s.waiting c = []

/-- The transitions of a station whose items have the classes `cls`. -/
inductive Step (cls : X → κ) : State κ X → Move X ω → State κ X → Prop where
  | arrive {s : State κ X} {x : X} (hx : x ∉ s.seen) :
      Step cls s (.arrive x)
        { s with
          waiting := Function.update s.waiting (cls x) (s.waiting (cls x) ++ [x])
          seen := insert x s.seen }
  | drop {s : State κ X} {x : X} {rest : List X} (hx : s.waiting (cls x) = x :: rest) :
      Step cls s (.drop x) { s with waiting := Function.update s.waiting (cls x) rest }
  | discard {s : State κ X} {x : X} {rest : List X} (hx : Turn cls s x rest) :
      Step cls s (.discard x) { s with waiting := Function.update s.waiting (cls x) rest }
  | serve {s : State κ X} {x : X} {rest : List X} (hx : Turn cls s x rest) :
      Step cls s (.serve x)
        { s with
          waiting := Function.update s.waiting (cls x) rest
          serving := x ::ₘ s.serving }
  | finish {s : State κ X} {x : X} {others : Multiset X} {outcome : ω}
      (hx : s.serving = x ::ₘ others) :
      Step cls s (.finish x outcome) { s with serving := others }

/-! ### What the moves of a run record -/

/-- The items that `f` finds in the moves, in order. -/
def record (f : Move X ω → Option X) (ms : List (Move X ω)) : List X := ms.filterMap f

@[simp]
theorem record_nil (f : Move X ω → Option X) :
  record f [] = []
  := rfl

@[simp]
theorem record_append (f : Move X ω → Option X) (ms ns : List (Move X ω)) :
  record f (ms ++ ns) = record f ms ++ record f ns
  := List.filterMap_append

@[simp]
theorem record_cons (f : Move X ω → Option X) (m : Move X ω) (ms : List (Move X ω)) :
  record f (m :: ms) = (f m).toList ++ record f ms
  := by
  cases h : f m with
  | none => simp [record, h]
  | some x => simp [record, h]

/-- The items that arrive, in order. -/
abbrev arrivals (ms : List (Move X ω)) : List X := record Move.arrival ms

/-- The items that leave their line, in order. -/
abbrev departures (ms : List (Move X ω)) : List X := record Move.departure ms

/-- The items of class `c` among `xs`. -/
def inClass (cls : X → κ) (c : κ) (xs : List X) : List X := xs.filter (fun x => cls x = c)

@[simp]
theorem inClass_nil (cls : X → κ) (c : κ) :
  inClass cls c [] = []
  := rfl

@[simp]
theorem inClass_append (cls : X → κ) (c : κ) (xs ys : List X) :
  inClass cls c (xs ++ ys) = inClass cls c xs ++ inClass cls c ys
  := List.filter_append xs ys

theorem inClass_cons (cls : X → κ) (c : κ) (x : X) (xs : List X) :
  inClass cls c (x :: xs) = if cls x = c then x :: inClass cls c xs else inClass cls c xs
  := by
  simp [inClass, List.filter_cons]

@[simp]
theorem mem_inClass {cls : X → κ} {c : κ} {xs : List X} {x : X} :
  x ∈ inClass cls c xs ↔ x ∈ xs ∧ cls x = c
  := by
  simp [inClass]

variable {cls : X → κ} {s : State κ X} {ms ns : List (Move X ω)}

/-- The items that have arrived are those some move records as arriving. -/
theorem seen_eq (h : Run (Step cls) (empty κ X) ms s) :
  s.seen = {x | x ∈ arrivals ms}
  := by
  induction h with
  | nil => simp [empty]
  | snoc _ hstep ih =>
      cases hstep with
      | arrive hx =>
          ext y
          simp [ih, or_comm]
      | drop | discard | serve | finish => simpa using ih

/-- No item arrives twice. -/
theorem arrivals_nodup (h : Run (Step cls) (empty κ X) ms s) :
  (arrivals ms).Nodup
  := by
  induction h with
  | nil => simp
  | snoc hrun hstep ih =>
      cases hstep with
      | arrive hx =>
          rw [seen_eq hrun] at hx
          simp only [record_append, record_cons, record_nil, Move.arrival, Option.toList_some,
            List.append_nil]
          apply List.Nodup.append ih (List.nodup_singleton _)
          simpa using hx
      | drop | discard | serve | finish => simpa using ih

/-- Appending `x` to the line of its class appends it to the items of its class. -/
theorem arrival_keeps {x : X} {all left : List X} {c : κ}
    (h : inClass cls c all = left ++ s.waiting c) :
  inClass cls c (all ++ [x])
    = left ++ Function.update s.waiting (cls x) (s.waiting (cls x) ++ [x]) c
  := by
  rw [inClass_append, inClass_cons, h]
  by_cases hc : cls x = c
  · subst hc
    simp
  · simp [hc, Function.update_of_ne (Ne.symm hc)]

/-- Removing the head `x` of the line of its class and recording its departure keeps the
departures of every class followed by its line. -/
theorem departure_keeps {x : X} {rest : List X} (hx : s.waiting (cls x) = x :: rest)
    (left : List X) (c : κ) :
  inClass cls c (left ++ [x]) ++ Function.update s.waiting (cls x) rest c
    = inClass cls c left ++ s.waiting c
  := by
  rw [inClass_append, inClass_cons]
  by_cases hc : cls x = c
  · subst hc
    simp [hx]
  · simp [hc, Function.update_of_ne (Ne.symm hc)]

/-- The items of a class arrive in the order in which they leave their line, and then in
the order in which they still wait. -/
theorem fifo (h : Run (Step cls) (empty κ X) ms s) (c : κ) :
  inClass cls c (arrivals ms) = inClass cls c (departures ms) ++ s.waiting c
  := by
  induction h with
  | nil => simp [empty]
  | snoc _ hstep ih =>
      cases hstep with
      | arrive => simpa using arrival_keeps ih
      | drop hx =>
          rw [← departure_keeps hx] at ih
          simpa using ih
      | discard hx | serve hx =>
          rw [← departure_keeps hx.1] at ih
          simpa using ih
      | finish => simpa using ih

/-- The items in a line are of its class. -/
theorem cls_of_mem_waiting (h : Run (Step cls) (empty κ X) ms s) {c : κ} {x : X}
    (hx : x ∈ s.waiting c) :
  cls x = c
  := by
  have hmem : x ∈ inClass cls c (arrivals ms) := by
    rw [fifo h c]
    apply List.mem_append_right _ hx
  apply (mem_inClass.mp hmem).2

/-- The items that `f` finds in the moves, as a multiset. -/
def tally (f : Move X ω → Option X) (ms : List (Move X ω)) : Multiset X := record f ms

@[simp]
theorem tally_nil (f : Move X ω → Option X) :
  tally f [] = 0
  := rfl

@[simp]
theorem tally_append (f : Move X ω → Option X) (ms ns : List (Move X ω)) :
  tally f (ms ++ ns) = tally f ms + tally f ns
  := by
  rw [tally, record_append, ← Multiset.coe_add]
  rfl

@[simp]
theorem tally_cons (f : Move X ω → Option X) (m : Move X ω) (ms : List (Move X ω)) :
  tally f (m :: ms) = (f m).toList + tally f ms
  := by
  rw [tally, record_cons, ← Multiset.coe_add]
  rfl

/-- The items taken into service are those in service and those that finished. -/
theorem served_eq (h : Run (Step cls) (empty κ X) ms s) :
  tally Move.served ms = s.serving + tally Move.finished ms
  := by
  induction h with
  | nil => simp [empty]
  | snoc _ hstep ih =>
      cases hstep with
      | arrive | drop | discard => simpa using ih
      | serve => simp [ih, add_comm, add_assoc, add_left_comm, ← Multiset.singleton_add]
      | finish hx =>
          rw [hx] at ih
          simp [ih, add_comm, add_assoc, ← Multiset.singleton_add]

/-- The items that leave their line are dropped, discarded or taken into service. -/
theorem departures_eq (ms : List (Move X ω)) :
  tally Move.departure ms
    = tally Move.dropped ms + tally Move.discarded ms + tally Move.served ms
  := by
  induction ms with
  | nil => simp
  | cons m ms ih => cases m <;> simp [ih, add_comm, add_assoc]

/-- The items that leave the station finish, are discarded or are dropped. -/
theorem exits_eq (ms : List (Move X ω)) :
  tally Move.exit ms
    = tally Move.finished ms + tally Move.discarded ms + tally Move.dropped ms
  := by
  induction ms with
  | nil => simp
  | cons m ms ih => cases m <;> simp [ih, add_comm, add_left_comm]

/-- The items of a class arrive exactly as often as they wait, are in service, are dropped,
are discarded or finish, for every property of items. -/
theorem balance (h : Run (Step cls) (empty κ X) ms s) (c : κ) (P : X → Prop)
    [DecidablePred P] :
  (tally Move.arrival ms).countP (fun x => P x ∧ cls x = c)
    = (s.waiting c).countP P
      + s.serving.countP (fun x => P x ∧ cls x = c)
      + (tally Move.finished ms).countP (fun x => P x ∧ cls x = c)
      + (tally Move.discarded ms).countP (fun x => P x ∧ cls x = c)
      + (tally Move.dropped ms).countP (fun x => P x ∧ cls x = c)
  := by
  have hcount (xs : List X) :
      xs.countP (fun x => P x ∧ cls x = c) = (inClass cls c xs).countP P := by
    simp [inClass, List.countP_filter]
  have hleft : (departures ms).countP (fun x => P x ∧ cls x = c)
      = (tally Move.departure ms).countP (fun x => P x ∧ cls x = c) := by
    simp [tally]
  have harrived : (tally Move.arrival ms).countP (fun x => P x ∧ cls x = c)
      = (arrivals ms).countP (fun x => P x ∧ cls x = c) := by
    simp [tally]
  rw [harrived, hcount, fifo h c, List.countP_append, ← hcount, hleft, departures_eq,
    served_eq h]
  simp only [Multiset.countP_add]
  omega

/-- An item arrives exactly as often as it waits, is in service, finishes, is discarded or
is dropped. -/
theorem count_arrival [DecidableEq X] (h : Run (Step cls) (empty κ X) ms s) (x : X) :
  (tally Move.arrival ms).count x
    = (s.waiting (cls x)).count x + s.serving.count x + (tally Move.finished ms).count x
      + (tally Move.discarded ms).count x + (tally Move.dropped ms).count x
  := by
  have hcount (xs : Multiset X) :
      xs.countP (fun y => x = y ∧ cls y = cls x) = xs.count x := by
    apply Multiset.countP_congr rfl
    intro y _
    apply propext
    constructor
    · rintro ⟨rfl, -⟩
      rfl
    · rintro rfl
      use rfl
  have hbalance := balance h (cls x) (fun y => x = y)
  simp only [hcount] at hbalance
  rw [hbalance]
  congr 4
  rw [List.count]
  apply List.countP_congr
  intro y _
  rw [decide_eq_true_iff, beq_iff_eq]
  apply eq_comm

/-- An item is in a line, is taken into service, is discarded or is dropped at most
once. -/
theorem count_le_one [DecidableEq X] (h : Run (Step cls) (empty κ X) ms s) (x : X) :
  (s.waiting (cls x)).count x + (tally Move.served ms).count x
    + (tally Move.discarded ms).count x + (tally Move.dropped ms).count x ≤ 1
  := by
  have harrival : (tally Move.arrival ms).count x ≤ 1 := by
    rw [tally, Multiset.coe_count]
    apply List.nodup_iff_count_le_one.mp (arrivals_nodup h)
  rw [count_arrival h] at harrival
  rw [served_eq h, Multiset.count_add]
  omega

/-! ### Turns -/

/-- The item whose turn it is arrived before every other item of its class that waits. -/
theorem Turn.first {x : X} {rest : List X} (h : Run (Step cls) (empty κ X) ms s)
    (hx : Turn cls s x rest) :
  ∃ gone later, inClass cls (cls x) (arrivals ms) = gone ++ x :: later
    ∧ s.waiting (cls x) = x :: later
  := by
  use inClass cls (cls x) (departures ms), rest
  rw [fifo h, hx.1]
  use rfl

/-- Between the arrival of an item and its departure, the items of its class that leave
the line are those that were in it when the item joined. -/
theorem departures_between {t : State κ X} {x : X} {between after : List X}
    (h : Run (Step cls) (empty κ X) ms s)
    (h' : Run (Step cls) (empty κ X) (ms ++ .arrive x :: ns) t)
    (hleave : departures ns = between ++ x :: after) :
  inClass cls (cls x) between = s.waiting (cls x)
  := by
  have hbefore := fifo h (cls x)
  have hafter := fifo h' (cls x)
  have hnodup : (inClass cls (cls x) (arrivals (ms ++ .arrive x :: ns))).Nodup :=
    (arrivals_nodup h').filter _
  have hline : s.waiting (cls x) ++ x :: inClass cls (cls x) (arrivals ns)
      = inClass cls (cls x) between
        ++ x :: (inClass cls (cls x) after ++ t.waiting (cls x)) := by
    simpa [hbefore, hleave, inClass_cons] using hafter
  have honce : (s.waiting (cls x) ++ x :: inClass cls (cls x) (arrivals ns)).Nodup := by
    rw [arrivals, record_append, inClass_append, hbefore, List.append_assoc] at hnodup
    simpa [inClass_cons] using (List.nodup_append.mp hnodup).2.1
  have hdistinct := honce
  rw [hline] at hdistinct
  obtain ⟨-, hlater, hbetween⟩ := List.nodup_append.mp hdistinct
  have hx : x ∉ inClass cls (cls x) between :=
    fun hx => hbetween x hx x List.mem_cons_self rfl
  have hx' := (List.nodup_cons.mp hlater).1
  apply ((List.append_cons_inj_of_notMem hx hx').mp hline.symm).1

end Station
