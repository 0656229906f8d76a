import Mathlib.Algebra.BigOperators.Group.List.Basic
import Mathlib.Algebra.GroupWithZero.Nat
import Mathlib.Data.List.Rotate
import Mathlib.Tactic.Common

/-!
# Weighted round-robin

A weighted round-robin repeats every member of a list as often as its weight says, and a
counter runs through the expanded list over and over.  The slot at a counter is the member
in whose interval of the cumulated weights the counter lies, modulo the total weight
(`slot_eq_some_iff`).  As many counters in a row as the total weight run once through the
expanded list, wherever they start, so every member has its weight of slots
(`count_slots`).
-/

namespace RoundRobin

variable {X : Type*} (w : X → ℕ)

/-- Every member is repeated as often as its weight says. -/
def expand (xs : List X) : List X := xs.flatMap fun x => List.replicate (w x) x

/-- The total weight of the members. -/
def total (xs : List X) : ℕ := (xs.map w).sum

/-- The member the counter `c` points at. -/
def slot (xs : List X) (c : ℕ) : Option X := (expand w xs)[c % (expand w xs).length]?

/-- The counter `i` lies in the interval that the cumulated weights assign to `x`. -/
def InInterval (xs : List X) (i : ℕ) (x : X) : Prop :=
  ∃ before after, xs = before ++ x :: after ∧ total w before ≤ i ∧ i < total w before + w x

@[simp]
theorem total_nil :
  total w [] = 0
  := rfl

@[simp]
theorem total_cons (x : X) (xs : List X) :
  total w (x :: xs) = w x + total w xs
  := List.sum_cons

@[simp]
theorem expand_cons (x : X) (xs : List X) :
  expand w (x :: xs) = List.replicate (w x) x ++ expand w xs
  := List.flatMap_cons

theorem length_expand (xs : List X) :
  (expand w xs).length = total w xs
  := by
  induction xs with
  | nil => rfl
  | cons x xs ih => rw [expand_cons, List.length_append, List.length_replicate, ih, total_cons]

variable {w} {xs : List X} {x : X}

/-- An index of the expanded list lies in the interval of the member at it. -/
theorem getElem?_expand {i : ℕ} :
  (expand w xs)[i]? = some x ↔ InInterval w xs i x
  := by
  induction xs generalizing i with
  | nil =>
      constructor
      · intro h
        simp [expand] at h
      · rintro ⟨before, after, h, -⟩
        simp at h
  | cons y ys ih =>
      rw [expand_cons]
      constructor
      · intro h
        by_cases hi : i < w y
        · rw [List.getElem?_append_left (by simpa using hi), List.getElem?_replicate,
            if_pos hi] at h
          obtain rfl := Option.some.inj h
          use [], ys, rfl
          simpa using hi
        · rw [List.getElem?_append_right (by simpa using hi), List.length_replicate] at h
          obtain ⟨before, after, rfl, hlow, hhigh⟩ := ih.mp h
          use y :: before, after, rfl
          rw [total_cons]
          omega
      · rintro ⟨before, after, hxs, hlow, hhigh⟩
        cases before with
        | nil =>
            obtain ⟨rfl, rfl⟩ : y = x ∧ ys = after := by simpa using hxs
            rw [total_nil] at hhigh
            have hi : i < w y := by omega
            rw [List.getElem?_append_left (by simpa using hi), List.getElem?_replicate,
              if_pos hi]
        | cons z before =>
            obtain ⟨rfl, rfl⟩ : y = z ∧ ys = before ++ x :: after := by simpa using hxs
            rw [total_cons] at hlow hhigh
            have hi : w y ≤ i := by omega
            rw [List.getElem?_append_right (by simpa using hi), List.length_replicate]
            apply ih.mpr
            use before, after, rfl
            omega

/-- The slot at a counter is the member in whose interval the counter lies. -/
theorem slot_eq_some_iff {c : ℕ} :
  slot w xs c = some x ↔ InInterval w xs (c % total w xs) x
  := by
  rw [slot, length_expand, getElem?_expand]

theorem InInterval.mem {i : ℕ} (h : InInterval w xs i x) :
  x ∈ xs
  := by
  obtain ⟨before, after, rfl, -⟩ := h
  simp

/-- Unless the members have no weight at all, every counter has a slot. -/
theorem slot_isSome {c : ℕ} (h : 0 < total w xs) :
  ∃ x, slot w xs c = some x
  := by
  have hlt : c % (expand w xs).length < (expand w xs).length := by
    rw [length_expand]
    apply Nat.mod_lt _ h
  use (expand w xs)[c % (expand w xs).length]
  apply List.getElem?_eq_getElem hlt

theorem total_pos (hx : x ∈ xs) (hw : 0 < w x) :
  0 < total w xs
  := by
  obtain ⟨before, after, rfl⟩ := List.append_of_mem hx
  simp only [total, List.map_append, List.sum_append, List.map_cons, List.sum_cons]
  omega

/-- The slots of the images are the images of the slots. -/
theorem map_slot {Y : Type*} {v : Y → ℕ} {f : X → Y} (hf : ∀ x, v (f x) = w x) (xs : List X)
    (c : ℕ) :
  (slot w xs c).map f = slot v (xs.map f) c
  := by
  have hexpand : expand v (xs.map f) = (expand w xs).map f := by
    unfold expand
    rw [List.flatMap_map, List.map_flatMap]
    congr 1
    funext x
    rw [hf, List.map_replicate]
  rw [slot, slot, hexpand, List.length_map, List.getElem?_map]

/-! ### Windows -/

/-- The members at `n` counters in a row, from `c` on. -/
def slots (w : X → ℕ) (xs : List X) (c n : ℕ) : List X :=
  (List.range n).filterMap fun i => slot w xs (c + i)

@[simp]
theorem slots_zero (c : ℕ) :
  slots w xs c 0 = []
  := rfl

@[simp]
theorem slots_nil (c n : ℕ) :
  slots w [] c n = []
  := by
  rw [slots, List.filterMap_eq_nil_iff]
  intro i _
  rfl

theorem slots_succ (c n : ℕ) :
  slots w xs c (n + 1) = (slot w xs c).toList ++ slots w xs (c + 1) n
  := by
  have hshift : (fun i => slot w xs (c + i)) ∘ Nat.succ = fun i => slot w xs (c + 1 + i) := by
    funext i
    rw [Function.comp_apply, Nat.succ_eq_add_one, add_comm i, add_assoc]
  rw [slots, List.range_succ_eq_map, List.filterMap_cons, List.filterMap_map, hshift, add_zero]
  cases slot w xs c <;> rfl

/-- As many counters as the total weight run once through the expanded list. -/
theorem slots_total (xs : List X) (c : ℕ) :
  slots w xs c (total w xs) = (expand w xs).rotate c
  := by
  have hmap : (List.range (total w xs)).map (fun i => slot w xs (c + i))
      = ((expand w xs).rotate c).map some := by
    apply List.ext_getElem
    · rw [List.length_map, List.length_map, List.length_range, List.length_rotate, length_expand]
    · intro i hi _
      have hlt : (i + c) % (expand w xs).length < (expand w xs).length := by
        rw [List.length_map, List.length_range, ← length_expand] at hi
        exact Nat.mod_lt _ (by omega)
      rw [List.getElem_map, List.getElem_map, List.getElem_range, List.getElem_rotate, slot,
        add_comm c, List.getElem?_eq_getElem hlt]
  have hsame := congrArg (List.filterMap id) hmap
  rwa [List.filterMap_map, List.filterMap_map, Function.id_comp, Function.id_comp,
    List.filterMap_some] at hsame

theorem count_expand [DecidableEq X] (hxs : xs.Nodup) (x : X) :
  (expand w xs).count x = if x ∈ xs then w x else 0
  := by
  induction xs with
  | nil => rfl
  | cons y ys ih =>
      obtain ⟨hnew, hys⟩ := List.nodup_cons.mp hxs
      rw [expand_cons, List.count_append, List.count_replicate, ih hys]
      by_cases hsame : y = x
      · subst hsame
        simp [hnew]
      · simp [hsame, Ne.symm hsame]

/-- Among the slots of as many counters as the total weight, every member has as many as its
weight. -/
theorem count_slots [DecidableEq X] (hxs : xs.Nodup) (c : ℕ) (x : X) :
  (slots w xs c (total w xs)).count x = if x ∈ xs then w x else 0
  := by
  rw [slots_total, (List.rotate_perm _ c).count_eq, count_expand hxs]

/-! ### Counters in any order -/

/-- The cumulated weights of the members before `x`. -/
def offset [DecidableEq X] (w : X → ℕ) (xs : List X) (x : X) : ℕ :=
  total w (xs.takeWhile (· ≠ x))

/-- A member that occurs once has one interval, which begins at its offset. -/
theorem inInterval_iff [DecidableEq X] (hxs : xs.Nodup) (hx : x ∈ xs) {i : ℕ} :
  InInterval w xs i x ↔ offset w xs x ≤ i ∧ i < offset w xs x + w x
  := by
  have hoffset {before after : List X} (hsplit : xs = before ++ x :: after) :
      offset w xs x = total w before := by
    have hnew : x ∉ before := by
      rw [hsplit] at hxs
      intro hmem
      exact List.disjoint_of_nodup_append hxs hmem List.mem_cons_self
    have hall : ∀ y ∈ before, decide (y ≠ x) = true := by
      intro y hy
      rw [decide_eq_true_eq]
      rintro rfl
      exact hnew hy
    rw [offset, hsplit, List.takeWhile_append_of_pos hall, List.takeWhile_cons_of_neg (by simp),
      List.append_nil]
  constructor
  · rintro ⟨before, after, hsplit, hbounds⟩
    rw [hoffset hsplit]
    exact hbounds
  · intro hbounds
    obtain ⟨before, after, hsplit⟩ := List.append_of_mem hx
    rw [hoffset hsplit] at hbounds
    exact ⟨before, after, hsplit, hbounds⟩

/-- A member is as often among the slots of some counters as these point into its interval. -/
theorem count_filterMap_slot [DecidableEq X] (hxs : xs.Nodup) (hx : x ∈ xs) (cs : List ℕ) :
  (cs.filterMap (slot w xs)).count x = cs.countP fun c =>
    offset w xs x ≤ c % total w xs ∧ c % total w xs < offset w xs x + w x
  := by
  induction cs with
  | nil => rfl
  | cons c cs ih =>
      have hslot : slot w xs c = some x ↔ offset w xs x ≤ c % total w xs
          ∧ c % total w xs < offset w xs x + w x :=
        slot_eq_some_iff.trans (inInterval_iff hxs hx)
      rw [List.countP_cons, ← ih, List.filterMap_cons]
      cases hc : slot w xs c with
      | none =>
          have hout := mt hslot.mpr (by simp [hc])
          simp [hout]
      | some y =>
          rw [List.count_cons]
          congr 1
          apply if_congr _ rfl rfl
          rw [decide_eq_true_eq, ← hslot, hc, beq_iff_eq, Option.some.injEq]

/-- Counters that point to different places give every member its weight, if there are as many
of them as the total weight. -/
theorem count_filterMap_slot_of_nodup [DecidableEq X] (hxs : xs.Nodup) (hx : x ∈ xs)
    {cs : List ℕ} (hlength : cs.length = total w xs) (hcs : (cs.map (· % total w xs)).Nodup) :
  (cs.filterMap (slot w xs)).count x = w x
  := by
  have hsubset : cs.map (· % total w xs) ⊆ List.range (total w xs) := by
    intro i hi
    obtain ⟨c, hc, rfl⟩ := List.mem_map.mp hi
    have hpos : 0 < cs.length := List.length_pos_of_mem hc
    exact List.mem_range.mpr (Nat.mod_lt c (hlength ▸ hpos))
  have hperm : (cs.map (· % total w xs)).Perm (List.range (total w xs)) := by
    apply (List.subperm_of_subset hcs hsubset).perm_of_length_le
    rw [List.length_range, List.length_map, hlength]
  have hmod : slot w xs = (fun i => slot w xs i) ∘ (· % total w xs) := by
    funext c
    rw [Function.comp_apply, slot, slot, length_expand, Nat.mod_mod]
  have hall := count_slots (w := w) hxs 0 x
  rw [slots, if_pos hx] at hall
  simp only [zero_add] at hall
  rw [hmod, ← List.filterMap_map, (hperm.filterMap _).count_eq, hall]

end RoundRobin
