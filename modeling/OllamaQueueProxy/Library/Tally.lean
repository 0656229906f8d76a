import Mathlib.Algebra.BigOperators.Group.Finset.Basic
import Mathlib.Data.Fintype.BigOperators

/-!
# Sums over updated families

A sum of values over the members of a family changes, when one member is updated, by the
value of that member.  So does a sum over the elements of a list.  Of a sum of multisets in
which nothing occurs twice, every element belongs to one member only.
-/

namespace Tally

variable {ι X M : Type*} [Fintype ι] [DecidableEq ι] [AddCommMonoid M]

/-- Updating the member `i` of a family trades its value in the sum for the new one. -/
theorem sum_update (f : X → M) (g : ι → X) (i : ι) (x : X) :
  ∑ j, f (Function.update g i x j) + f (g i) = ∑ j, f (g j) + f x
  := by
  have hcomp : (fun j => f (Function.update g i x j))
      = Function.update (fun j => f (g j)) i (f x) := by
    funext j
    by_cases hj : j = i
    · subst hj
      simp
    · simp [hj]
  rw [hcomp, Finset.sum_update_of_mem (Finset.mem_univ i), add_comm (f x), add_right_comm,
    ← Finset.sum_sdiff (Finset.subset_univ {i})]
  simp

omit [Fintype ι] [DecidableEq ι] in
/-- Replacing an element of a list trades its value in the sum for the new one. -/
theorem sum_map_set (f : X → M) {xs : List X} {n : ℕ} {x : X} (h : xs[n]? = some x) (y : X) :
  ((xs.set n y).map f).sum + f x = (xs.map f).sum + f y
  := by
  induction xs generalizing n with
  | nil => cases h
  | cons z xs ih =>
      cases n with
      | zero =>
          obtain rfl : z = x := by simpa using h
          simp only [List.set_cons_zero, List.map_cons, List.sum_cons]
          rw [add_right_comm, add_comm (f y), add_right_comm]
      | succ n =>
          rw [List.set_cons_succ, List.map_cons, List.sum_cons, add_assoc, ih h, ← add_assoc]
          rfl

/-- Replacing an element of a list by one of a greater value adds what that is greater by. -/
theorem sum_map_set_add {f : X → M} {xs : List X} {n : ℕ} {x y : X} {m : M}
    (h : xs[n]? = some x) (hy : f y = f x + m) :
  ((xs.set n y).map f).sum = (xs.map f).sum + m
  := by
  induction xs generalizing n with
  | nil => cases h
  | cons z zs ih =>
      cases n with
      | zero =>
          obtain rfl : z = x := by simpa using h
          rw [List.set_cons_zero, List.map_cons, List.map_cons, List.sum_cons, List.sum_cons, hy,
            add_right_comm]
      | succ n =>
          rw [List.set_cons_succ, List.map_cons, List.map_cons, List.sum_cons, List.sum_cons,
            ih (by simpa using h), add_assoc]

/-- What the other elements of a list sum up to. -/
theorem exists_rest (f : X → M) {xs : List X} {n : ℕ} {x : X} (h : xs[n]? = some x) :
  ∃ m, (xs.map f).sum = m + f x ∧ ∀ y, ((xs.set n y).map f).sum = m + f y
  := by
  induction xs generalizing n with
  | nil => cases h
  | cons z zs ih =>
      cases n with
      | zero =>
          obtain rfl : z = x := by simpa using h
          use (zs.map f).sum
          rw [List.map_cons, List.sum_cons, add_comm]
          use rfl
          intro y
          rw [List.set_cons_zero, List.map_cons, List.sum_cons, add_comm]
      | succ n =>
          obtain ⟨m, hm, hset⟩ := ih (by simpa using h)
          use f z + m
          rw [List.map_cons, List.sum_cons, hm, add_assoc]
          use rfl
          intro y
          rw [List.set_cons_succ, List.map_cons, List.sum_cons, hset, add_assoc]

theorem mem_sum_of_mem {α : Type*} {f : X → Multiset α} {xs : List X} {x : X} (hx : x ∈ xs) {a : α}
    (ha : a ∈ f x) :
  a ∈ (xs.map f).sum
  := by
  induction xs with
  | nil => cases hx
  | cons z zs ih =>
      rw [List.map_cons, List.sum_cons, Multiset.mem_add]
      rcases List.mem_cons.mp hx with rfl | hx'
      · exact .inl ha
      · exact .inr (ih hx')

/-- If no value occurs twice in what the elements of a list sum up to, then elements with a
value in common are the same. -/
theorem eq_of_nodup_sum {α : Type*} {f : X → Multiset α} {xs : List X} (h : (xs.map f).sum.Nodup)
    {x y : X} (hx : x ∈ xs) (hy : y ∈ xs) {a : α} (hax : a ∈ f x) (hay : a ∈ f y) :
  x = y
  := by
  induction xs with
  | nil => cases hx
  | cons z zs ih =>
      rw [List.map_cons, List.sum_cons, Multiset.nodup_add] at h
      obtain ⟨-, hzs, hdisjoint⟩ := h
      rcases List.mem_cons.mp hx with rfl | hx'
      · rcases List.mem_cons.mp hy with rfl | hy'
        · rfl
        · exact (Multiset.disjoint_left.mp hdisjoint hax (mem_sum_of_mem hy' hay)).elim
      · rcases List.mem_cons.mp hy with rfl | hy'
        · exact (Multiset.disjoint_left.mp hdisjoint hay (mem_sum_of_mem hx' hax)).elim
        · exact ih hzs hx' hy'

end Tally
