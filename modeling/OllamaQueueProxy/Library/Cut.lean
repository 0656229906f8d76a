import Mathlib.Data.List.Basic
import Mathlib.Tactic.SplitIfs

/-!
# Cutting lists at separators

The parts of a list before and after the first or the last occurrence of a separator, or the
first occurrence of a pattern, and the parts between separators.  What a cut gives is
determined by an equation: the parts around the separator, of which one does not contain it
(`first?_eq_some`, `last?_eq_some`).
-/

namespace Cut

variable {α : Type*} [DecidableEq α]

/-- The parts before and after the first `c`. -/
def first? (c : α) : List α → Option (List α × List α)
  | [] => none
  | d :: s => if d = c then some ([], s) else (first? c s).map fun (a, b) => (d :: a, b)

/-- The parts before and after the last `c`. -/
def last? (c : α) (s : List α) : Option (List α × List α) :=
  (first? c s.reverse).map fun (a, b) => (b.reverse, a.reverse)

/-- The parts before and after the first occurrence of a pattern that is not empty. -/
def firstOf? (p : List α) : List α → Option (List α × List α)
  | [] => none
  | d :: s =>
      if p <+: d :: s then some ([], (d :: s).drop p.length)
      else (firstOf? p s).map fun (a, b) => (d :: a, b)

/-- The parts before and after the first `c`, the second one empty if there is none. -/
def partition (c : α) (s : List α) : List α × List α := (first? c s).getD (s, [])

/-- The parts before and after the last `c`, the first one empty if there is none. -/
def rpartition (c : α) (s : List α) : List α × List α := (last? c s).getD ([], s)

/-- The parts between the first `n` separators, and the rest. -/
def splitMax (c : α) : ℕ → List α → List (List α)
  | 0, s => [s]
  | n + 1, s => match first? c s with
    | none => [s]
    | some (a, b) => a :: splitMax c n b

variable {c : α} {s a b : List α}

/-! ### A single separator -/

theorem first?_eq_none :
  first? c s = none ↔ c ∉ s
  := by
  induction s with
  | nil => simp [first?]
  | cons d s ih =>
      rw [first?]
      split_ifs with hd
      · simp [hd]
      · simp [ih, Ne.symm hd]

theorem first?_append (h : c ∉ a) (b : List α) :
  first? c (a ++ c :: b) = some (a, b)
  := by
  induction a with
  | nil => simp [first?]
  | cons d a ih =>
      obtain ⟨hd, ha⟩ := not_or.mp (mt List.mem_cons.mpr h)
      rw [List.cons_append, first?, if_neg (Ne.symm hd), ih ha, Option.map_some]

/-- The first part of a cut is the one without the separator. -/
theorem first?_eq_some :
  first? c s = some (a, b) ↔ s = a ++ c :: b ∧ c ∉ a
  := by
  constructor
  · intro h
    induction s generalizing a with
    | nil => cases h
    | cons d s ih =>
        rw [first?] at h
        split_ifs at h with hd
        · obtain ⟨rfl, rfl⟩ : [] = a ∧ s = b := by simpa using h
          rw [hd]
          exact ⟨rfl, List.not_mem_nil⟩
        · obtain ⟨⟨a', b'⟩, hcut, hsame⟩ := Option.map_eq_some_iff.mp h
          obtain ⟨rfl, rfl⟩ : d :: a' = a ∧ b' = b := by simpa using hsame
          obtain ⟨rfl, hnew⟩ := ih hcut
          refine ⟨rfl, ?_⟩
          rw [List.mem_cons, not_or]
          exact ⟨Ne.symm hd, hnew⟩
  · rintro ⟨rfl, h⟩
    exact first?_append h b

theorem last?_eq_none :
  last? c s = none ↔ c ∉ s
  := by
  rw [last?, Option.map_eq_none_iff, first?_eq_none, List.mem_reverse]

/-- The second part of a cut at the last separator is the one without it. -/
theorem last?_eq_some :
  last? c s = some (a, b) ↔ s = a ++ c :: b ∧ c ∉ b
  := by
  have hreverse : s.reverse = b.reverse ++ c :: a.reverse ↔ s = a ++ c :: b := by
    rw [← List.reverse_inj, List.reverse_reverse, List.reverse_append, List.reverse_cons,
      List.reverse_reverse, List.reverse_reverse, List.append_assoc, List.singleton_append]
  rw [← hreverse, ← @List.mem_reverse _ _ b, ← first?_eq_some, last?, Option.map_eq_some_iff]
  constructor
  · rintro ⟨⟨b', a'⟩, hcut, hsame⟩
    obtain ⟨rfl, rfl⟩ : a'.reverse = a ∧ b'.reverse = b := by simpa using hsame
    rw [hcut, List.reverse_reverse, List.reverse_reverse]
  · intro hcut
    use (b.reverse, a.reverse), hcut
    simp only [List.reverse_reverse]

theorem last?_append (h : c ∉ b) (a : List α) :
  last? c (a ++ c :: b) = some (a, b)
  := last?_eq_some.mpr ⟨rfl, h⟩

theorem partition_append (h : c ∉ a) (b : List α) :
  partition c (a ++ c :: b) = (a, b)
  := by
  rw [partition, first?_append h, Option.getD_some]

theorem partition_of_notMem (h : c ∉ s) :
  partition c s = (s, [])
  := by
  rw [partition, first?_eq_none.mpr h, Option.getD_none]

theorem rpartition_append (h : c ∉ b) (a : List α) :
  rpartition c (a ++ c :: b) = (a, b)
  := by
  rw [rpartition, last?_append h, Option.getD_some]

theorem rpartition_of_notMem (h : c ∉ s) :
  rpartition c s = ([], s)
  := by
  rw [rpartition, last?_eq_none.mpr h, Option.getD_none]

/-- The parts around a separator are parts of the list. -/
theorem infix_of_first? (h : first? c s = some (a, b)) :
  a <:+: s ∧ b <:+: s
  := by
  obtain ⟨rfl, -⟩ := first?_eq_some.mp h
  exact ⟨(List.prefix_append a _).isInfix, ⟨a ++ [c], [], by simp⟩⟩

theorem partition_infix (c : α) (s : List α) :
  (partition c s).1 <+: s ∧ (partition c s).2 <:+: s
  := by
  cases hcut : first? c s with
  | none =>
      rw [partition, hcut]
      exact ⟨List.prefix_rfl, List.nil_infix⟩
  | some parts =>
      rw [partition, hcut]
      obtain ⟨rfl, -⟩ := first?_eq_some.mp hcut
      exact ⟨List.prefix_append _ _, (infix_of_first? hcut).2⟩

theorem notMem_rpartition (c : α) (s : List α) :
  c ∉ (rpartition c s).2
  := by
  cases hcut : last? c s with
  | none =>
      rw [rpartition, hcut]
      exact last?_eq_none.mp hcut
  | some parts =>
      rw [rpartition, hcut]
      exact (last?_eq_some.mp hcut).2

/-! ### A pattern -/

/-- What a list is cut at begins at the first occurrence of the head of the pattern, if the
pattern does. -/
theorem firstOf?_append {d : α} (h : d ∉ a) (q b : List α) :
  firstOf? (d :: q) (a ++ (d :: q) ++ b) = some (a, b)
  := by
  induction a with
  | nil =>
      have hprefix : d :: q <+: d :: (q ++ b) := List.prefix_append (d :: q) b
      rw [List.nil_append, List.cons_append, firstOf?, if_pos hprefix]
      simp
  | cons e a ih =>
      obtain ⟨he, ha⟩ := not_or.mp (mt List.mem_cons.mpr h)
      have hprefix : ¬ d :: q <+: e :: (a ++ (d :: q) ++ b) := by
        intro hprefix
        exact he (List.cons_prefix_cons.mp hprefix).1
      rw [List.cons_append, List.cons_append, firstOf?, if_neg hprefix, ih ha, Option.map_some]

/-- The pattern stands between the parts of a cut. -/
theorem eq_append_of_firstOf? {p : List α} (h : firstOf? p s = some (a, b)) :
  s = a ++ p ++ b
  := by
  induction s generalizing a with
  | nil => cases h
  | cons d s ih =>
      rw [firstOf?] at h
      split_ifs at h with hprefix
      · obtain ⟨rfl, rfl⟩ : [] = a ∧ (d :: s).drop p.length = b := by simpa using h
        obtain ⟨rest, hrest⟩ := hprefix
        rw [← hrest]
        simp
      · obtain ⟨⟨a', b'⟩, hcut, hsame⟩ := Option.map_eq_some_iff.mp h
        obtain ⟨rfl, rfl⟩ : d :: a' = a ∧ b' = b := by simpa using hsame
        rw [ih hcut]
        rfl

/-! ### Splitting -/

theorem splitMax_succ (h : c ∉ a) (n : ℕ) (b : List α) :
  splitMax c (n + 1) (a ++ c :: b) = a :: splitMax c n b
  := by
  rw [splitMax, first?_append h]

/-- The first part of a list that is split has no separator. -/
theorem splitMax_eq_cons {n : ℕ} {p q : List α} {ps : List (List α)}
    (h : splitMax c (n + 1) s = p :: q :: ps) :
  c ∉ p ∧ ∃ rest, s = p ++ c :: rest ∧ splitMax c n rest = q :: ps
  := by
  rw [splitMax] at h
  cases hcut : first? c s with
  | none =>
      rw [hcut] at h
      simp at h
  | some parts =>
      obtain ⟨a, rest⟩ := parts
      rw [hcut] at h
      obtain ⟨rfl, hrest⟩ := List.cons.inj h
      obtain ⟨hs, hnew⟩ := first?_eq_some.mp hcut
      exact ⟨hnew, rest, hs, hrest⟩

/-- Three parts that were joined by separators are those that the list is split into, unless
one of the first two contains the separator. -/
theorem splitMax_append_iff {d : List α} :
  splitMax c 2 (a ++ c :: (b ++ c :: d)) = [a, b, d] ↔ c ∉ a ∧ c ∉ b
  := by
  constructor
  · intro h
    obtain ⟨ha, rest, hrest, hsplit⟩ := splitMax_eq_cons h
    obtain ⟨hb, -⟩ := splitMax_eq_cons hsplit
    exact ⟨ha, hb⟩
  · rintro ⟨ha, hb⟩
    rw [splitMax_succ ha, splitMax_succ hb]
    rfl

/-- A list with enough separators has all the parts. -/
theorem length_splitMax {n : ℕ} (h : n ≤ s.count c) :
  (splitMax c n s).length = n + 1
  := by
  induction n generalizing s with
  | zero => rfl
  | succ n ih =>
      obtain ⟨⟨a, b⟩, hcut⟩ : ∃ parts, first? c s = some parts := by
        rw [← Option.ne_none_iff_exists', ne_eq, first?_eq_none, not_not]
        exact List.count_pos_iff.mp (Nat.lt_of_lt_of_le n.succ_pos h)
      obtain ⟨rfl, ha⟩ := first?_eq_some.mp hcut
      have hb : n ≤ b.count c := by
        rw [List.count_append, List.count_cons_self, List.count_eq_zero.mpr ha] at h
        omega
      rw [splitMax, hcut, List.length_cons, ih hb]

/-- The parts make up the list again. -/
theorem intercalate_splitMax (c : α) (n : ℕ) (s : List α) :
  [c].intercalate (splitMax c n s) = s
  := by
  induction n generalizing s with
  | zero => simp [splitMax]
  | succ n ih =>
      rw [splitMax]
      cases hcut : first? c s with
      | none => simp
      | some parts =>
          obtain ⟨rfl, -⟩ := first?_eq_some.mp hcut
          dsimp only
          have hne : splitMax c n parts.2 ≠ [] := by
            cases n with
            | zero => exact List.cons_ne_nil _ _
            | succ n =>
                rw [splitMax]
                split <;> exact List.cons_ne_nil _ _
          rw [List.intercalate_cons_of_ne_nil hne, ih, List.append_assoc, List.singleton_append]

end Cut
