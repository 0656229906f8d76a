import Mathlib.Data.List.Basic
import Mathlib.Data.List.Induction
import Mathlib.Data.List.Nodup

/-!
# Dictionaries

A dictionary is a list of keys with their values.  A key that is set again keeps its place.
-/

abbrev Dict (κ ν : Type) : Type := List (κ × ν)

namespace Dict

variable {κ ν : Type} [DecidableEq κ]

/-- The value of a key. -/
def get? (d : Dict κ ν) (key : κ) : Option ν := (d.find? fun e => e.1 == key).map Prod.snd

/-- The key is set to the value: in its place if it is there, at the end otherwise. -/
def set (d : Dict κ ν) (key : κ) (value : ν) : Dict κ ν :=
  if d.any fun e => e.1 == key then d.map fun e => if e.1 = key then (key, value) else e
  else d ++ [(key, value)]

/-- The keys are set to the values, in order. -/
def ofList (entries : List (κ × ν)) : Dict κ ν := entries.foldl (fun d e => d.set e.1 e.2) []

theorem get?_cons_of_eq {d : Dict κ ν} {key : κ} {e : κ × ν} (h : e.1 = key) :
  get? (e :: d) key = some e.2
  := by
  rw [get?, List.find?_cons_of_pos (by simpa using h), Option.map_some]

theorem get?_cons_of_ne {d : Dict κ ν} {key : κ} {e : κ × ν} (h : e.1 ≠ key) :
  get? (e :: d) key = d.get? key
  := by
  rw [get?, List.find?_cons_of_neg (by simpa using h)]
  rfl

theorem mem_of_get? {d : Dict κ ν} {key : κ} {value : ν} (h : d.get? key = some value) :
  (key, value) ∈ d
  := by
  obtain ⟨e, he, rfl⟩ := Option.map_eq_some_iff.mp h
  obtain rfl : e.1 = key := by simpa using List.find?_some he
  exact List.mem_of_find?_eq_some he

theorem ne_of_get?_eq_none {d : Dict κ ν} {key : κ} (h : d.get? key = none) {e : κ × ν}
    (he : e ∈ d) :
  e.1 ≠ key
  := by
  have hdiffer := List.find?_eq_none.mp (Option.map_eq_none_iff.mp h) e he
  simpa using hdiffer

theorem mem_set_iff {d : Dict κ ν} {key : κ} {value : ν} {e : κ × ν} :
  e ∈ d.set key value ↔ (e ∈ d ∧ e.1 ≠ key) ∨ e = (key, value)
  := by
  unfold set
  split_ifs with hany
  · simp only [List.mem_map]
    constructor
    · rintro ⟨e', he', rfl⟩
      by_cases hkey : e'.1 = key
      · exact .inr (if_pos hkey)
      · rw [if_neg hkey]
        exact .inl ⟨he', hkey⟩
    · rintro (⟨he, hkey⟩ | rfl)
      · exact ⟨e, he, if_neg hkey⟩
      · obtain ⟨e', he', hkey⟩ := List.any_eq_true.mp hany
        exact ⟨e', he', if_pos (beq_iff_eq.mp hkey)⟩
  · rw [List.mem_append, List.mem_singleton]
    apply or_congr_left
    rw [iff_self_and]
    intro he hkey
    exact hany (List.any_eq_true.mpr ⟨e, he, beq_iff_eq.mpr hkey⟩)

theorem mem_set {d : Dict κ ν} {key : κ} {value : ν} {e : κ × ν} (h : e ∈ d.set key value) :
  e ∈ d ∨ e = (key, value)
  := (mem_set_iff.mp h).imp_left And.left

/-- What is in a dictionary was put into it. -/
theorem mem_of_mem_ofList {entries : List (κ × ν)} {e : κ × ν} (h : e ∈ ofList entries) :
  e ∈ entries
  := by
  have hfold (entries : List (κ × ν)) (d : Dict κ ν)
      (h : e ∈ entries.foldl (fun d e => d.set e.1 e.2) d) : e ∈ d ∨ e ∈ entries := by
    induction entries generalizing d with
    | nil => exact .inl h
    | cons f entries ih =>
        obtain hset | hrest := ih _ h
        · obtain hd | rfl := mem_set hset
          · exact .inl hd
          · exact .inr List.mem_cons_self
        · exact .inr (List.mem_cons_of_mem f hrest)
  obtain hnil | hmem := hfold entries [] h
  · cases hnil
  · exact hmem

/-- A key that is set is in the dictionary, and so are those that were there before. -/
theorem exists_mem_set {d : Dict κ ν} {key other : κ} (value : ν)
    (h : other = key ∨ ∃ v, (other, v) ∈ d) :
  ∃ v, (other, v) ∈ d.set key value
  := by
  unfold set
  split
  · rename_i hany
    obtain ⟨e, he, hkey⟩ := List.any_eq_true.mp hany
    by_cases hother : other = key
    · use value
      apply List.mem_map.mpr
      use e, he
      rw [if_pos (beq_iff_eq.mp hkey), hother]
    · obtain ⟨v, hv⟩ := h.resolve_left hother
      use v
      apply List.mem_map.mpr
      use (other, v), hv
      rw [if_neg hother]
  · obtain rfl | ⟨v, hv⟩ := h
    · use value
      exact List.mem_append_right d (List.mem_singleton_self _)
    · use v
      exact List.mem_append_left _ hv

/-- Every key that was put into a dictionary is in it. -/
theorem exists_mem_ofList {entries : List (κ × ν)} {e : κ × ν} (h : e ∈ entries) :
  ∃ v, (e.1, v) ∈ ofList entries
  := by
  have hfold (entries : List (κ × ν)) (d : Dict κ ν)
      (h : (∃ v, (e.1, v) ∈ d) ∨ e ∈ entries) :
      ∃ v, (e.1, v) ∈ entries.foldl (fun d e => d.set e.1 e.2) d := by
    induction entries generalizing d with
    | nil => exact h.resolve_right List.not_mem_nil
    | cons f entries ih =>
        apply ih
        obtain hd | hmem := h
        · exact .inl (exists_mem_set f.2 (.inr hd))
        · obtain rfl | hrest := List.mem_cons.mp hmem
          · exact .inl (exists_mem_set e.2 (.inl rfl))
          · exact .inr hrest
  exact hfold entries [] (.inr h)

/-- A key that is set keeps its place, or comes last. -/
theorem keys_set (d : Dict κ ν) (key : κ) (value : ν) :
  (d.set key value).map Prod.fst
    = if key ∈ d.map Prod.fst then d.map Prod.fst else d.map Prod.fst ++ [key]
  := by
  have hany : d.any (fun e => e.1 == key) = true ↔ key ∈ d.map Prod.fst := by
    simp [List.any_eq_true]
  unfold set
  by_cases hmem : key ∈ d.map Prod.fst
  · rw [if_pos (hany.mpr hmem), if_pos hmem, List.map_map]
    apply List.map_congr_left
    intro e _
    rw [Function.comp_apply]
    split
    · rename_i hkey
      exact hkey.symm
    · rfl
  · rw [if_neg fun h => hmem (hany.mp h), if_neg hmem, List.map_append]
    rfl

theorem nodup_keys_set {d : Dict κ ν} (h : (d.map Prod.fst).Nodup) (key : κ) (value : ν) :
  ((d.set key value).map Prod.fst).Nodup
  := by
  rw [keys_set]
  split_ifs with hkey
  · exact h
  · exact List.concat_eq_append ▸ h.concat hkey

/-- A dictionary that was built has no key twice. -/
theorem nodup_keys_ofList (entries : List (κ × ν)) :
  ((ofList entries).map Prod.fst).Nodup
  := by
  have hfold (d : Dict κ ν) (hd : (d.map Prod.fst).Nodup) :
      ((entries.foldl (fun d e => d.set e.1 e.2) d).map Prod.fst).Nodup := by
    induction entries generalizing d with
    | nil => exact hd
    | cons e entries ih => exact ih _ (nodup_keys_set hd e.1 e.2)
  exact hfold [] List.nodup_nil

/-- Entries without a key twice are a dictionary as they are. -/
theorem ofList_eq_self {entries : List (κ × ν)} (h : (entries.map Prod.fst).Nodup) :
  ofList entries = entries
  := by
  have hfold (d : Dict κ ν) (entries : List (κ × ν))
      (hnodup : ((d ++ entries).map Prod.fst).Nodup) :
      entries.foldl (fun d e => Dict.set d e.1 e.2) d = d ++ entries := by
    induction entries generalizing d with
    | nil => exact (List.append_nil d).symm
    | cons e entries ih =>
        have hnew : ¬ d.any (fun f => f.1 == e.1) = true := by
          rw [List.any_eq_true]
          rintro ⟨f, hf, hsame⟩
          rw [List.map_append, List.nodup_append] at hnodup
          refine hnodup.2.2 f.1 (List.mem_map_of_mem hf) e.1 ?_ (by simpa using hsame)
          exact List.mem_cons_self
        rw [List.foldl_cons, Dict.set, if_neg hnew, ih, List.append_assoc, List.singleton_append]
        rwa [List.append_assoc, List.singleton_append]
  exact hfold [] entries h

/-- The value that a key was set to first does not matter when it is set again. -/
theorem set_set (d : Dict κ ν) (key : κ) (value value' : ν) :
  (d.set key value).set key value' = d.set key value'
  := by
  have hmem : key ∈ (d.set key value).map Prod.fst := by
    rw [keys_set]
    split
    · assumption
    · exact List.mem_append_right _ (List.mem_singleton_self key)
  have hany : (d.set key value).any (fun e => e.1 == key) = true := by
    simpa [List.any_eq_true] using hmem
  conv_lhs => rw [set, if_pos hany]
  unfold set
  split
  · rw [List.map_map]
    apply List.map_congr_left
    intro e _
    by_cases hkey : e.1 = key <;> simp [hkey]
  · rename_i hnone
    have hne : ∀ e ∈ d, e.1 ≠ key := by
      intro e he hkey
      exact hnone (List.any_eq_true.mpr ⟨e, he, beq_iff_eq.mpr hkey⟩)
    rw [List.map_append, List.map_congr_left fun e he => if_neg (hne e he), List.map_id']
    simp

/-- Setting a key does not change the entries of the others. -/
theorem filter_set (d : Dict κ ν) (key : κ) (value : ν) :
  (d.set key value).filter (fun e => e.1 ≠ key) = d.filter fun e => e.1 ≠ key
  := by
  unfold set
  split
  · rename_i hany
    clear hany
    induction d with
    | nil => rfl
    | cons e d ih =>
        by_cases hkey : e.1 = key
        · simpa [hkey] using ih
        · simpa [hkey] using ih
  · simp

theorem get?_eq_get?_filter (d : Dict κ ν) {key other : κ} (h : other ≠ key) :
  d.get? other = get? (d.filter fun e => e.1 ≠ key) other
  := by
  unfold get?
  rw [List.find?_filter]
  congr 2
  funext e
  by_cases hother : e.1 = other
  · simp [hother, h]
  · simp [hother]

/-- Setting a key does not change the values of the others. -/
theorem get?_set_of_ne (d : Dict κ ν) {key other : κ} (h : other ≠ key) (value : ν) :
  (d.set key value).get? other = d.get? other
  := by
  rw [get?_eq_get?_filter _ h, filter_set, ← get?_eq_get?_filter d h]

theorem get?_set_self (d : Dict κ ν) (key : κ) (value : ν) :
  (d.set key value).get? key = some value
  := by
  have hall : ∀ e ∈ d.set key value, e.1 = key → e = (key, value) := by
    intro e he hkey
    unfold set at he
    split at he
    · obtain ⟨e', -, rfl⟩ := List.mem_map.mp he
      split at hkey
      · rename_i hsame
        rw [if_pos hsame]
      · rename_i hne
        exact absurd hkey hne
    · rename_i hany
      obtain hd | hnew := List.mem_append.mp he
      · exact absurd (List.any_eq_true.mpr ⟨e, hd, by simpa using hkey⟩) hany
      · exact List.mem_singleton.mp hnew
  have hset : key = key ∨ ∃ v, (key, v) ∈ d := .inl rfl
  obtain ⟨v, hv⟩ := exists_mem_set value hset
  cases hget : (d.set key value).get? key with
  | none => exact absurd rfl (ne_of_get?_eq_none hget hv)
  | some v' =>
      have hmem := hall _ (mem_of_get? hget) rfl
      rw [(Prod.mk.inj hmem).2]

/-- A dictionary holds under a key the value that the key was set to last. -/
theorem get?_ofList (entries : List (κ × ν)) (key : κ) :
  (ofList entries).get? key = (entries.reverse.find? fun e => e.1 == key).map Prod.snd
  := by
  induction entries using List.reverseRecOn with
  | nil => rfl
  | append_singleton entries e ih =>
      have hset : ofList (entries ++ [e]) = (ofList entries).set e.1 e.2 := by
        rw [ofList, List.foldl_append]
        rfl
      rw [hset, List.reverse_append, List.reverse_singleton, List.singleton_append]
      by_cases hkey : e.1 = key
      · rw [← hkey, get?_set_self, List.find?_cons_of_pos (by simp)]
        rfl
      · rw [get?_set_of_ne _ (Ne.symm hkey), ih, List.find?_cons_of_neg (by simpa using hkey)]

/-- Entries of other keys do not matter to the value of a key. -/
theorem get?_ofList_filter (entries : List (κ × ν)) {key : κ} {keep : κ × ν → Bool}
    (h : ∀ e : κ × ν, e.1 = key → keep e = true) :
  (ofList (entries.filter keep)).get? key = (ofList entries).get? key
  := by
  rw [get?_ofList, get?_ofList, ← List.filter_reverse, List.find?_filter]
  congr 2
  funext e
  by_cases hkey : e.1 = key
  · simp [hkey, h e hkey]
  · simp [hkey]

end Dict
