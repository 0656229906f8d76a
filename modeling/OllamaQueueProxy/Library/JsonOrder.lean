import OllamaQueueProxy.Library.Json
import Mathlib.Data.List.Perm.Basic

/-!
# The order of fields, and the octets of a text

Two JSON values are the same if they differ in nothing but the order of the fields of their
objects (`Same`).  Sorting gives equal values exactly to those that are the same
(`sort_eq_iff`), if no object has a key twice; so do the canonical texts, and their octets.
-/

namespace Json

/-! ### Values up to the order of fields -/

mutual

/-- No object within the value has a key twice. -/
def Distinct : Json → Prop
  | .array elements => DistinctElements elements
  | .object fields => (fields.map Prod.fst).Nodup ∧ DistinctFields fields
  | _ => True

def DistinctElements : List Json → Prop
  | [] => True
  | j :: js => j.Distinct ∧ DistinctElements js

def DistinctFields : List (Text × Json) → Prop
  | [] => True
  | (_, j) :: fields => j.Distinct ∧ DistinctFields fields

end

mutual

/-- The values are the same up to the order of the fields of their objects, at every depth. -/
def Same : Json → Json → Prop
  | .null, .null => True
  | .bool b, .bool c => b = c
  | .number n, .number m => n = m
  | .string s, .string t => s = t
  | .array xs, .array ys => SameElements xs ys
  | .object fs, .object gs => ∃ hs, SameFields fs hs ∧ hs.Perm gs
  | _, _ => False

def SameElements : List Json → List Json → Prop
  | [], [] => True
  | j :: js, k :: ks => j.Same k ∧ SameElements js ks
  | _, _ => False

/-- The fields agree one by one, their values up to order. -/
def SameFields : List (Text × Json) → List (Text × Json) → Prop
  | [], [] => True
  | (l, j) :: fs, (m, k) :: gs => l = m ∧ j.Same k ∧ SameFields fs gs
  | _, _ => False

end

theorem distinctFields_iff {fields : List (Text × Json)} :
  DistinctFields fields ↔ ∀ f ∈ fields, f.2.Distinct
  := by
  induction fields with
  | nil => simp [DistinctFields]
  | cons f fields ih => rw [DistinctFields, ih, List.forall_mem_cons]

theorem sortFields_eq_map (fields : List (Text × Json)) :
  sortFields fields = fields.map fun f => (f.1, f.2.sort)
  := by
  induction fields with
  | nil => rfl
  | cons f fields ih => rw [sortFields, ih, List.map_cons]

theorem perm_sortFields {fs gs : List (Text × Json)} (h : fs.Perm gs) :
  (sortFields fs).Perm (sortFields gs)
  := by
  rw [sortFields_eq_map, sortFields_eq_map]
  exact h.map _

theorem map_fst_sortFields (fields : List (Text × Json)) :
  (sortFields fields).map Prod.fst = fields.map Prod.fst
  := by
  rw [sortFields_eq_map, List.map_map]
  rfl

/-- Fields that are sorted to a permutation of others are those of a permutation of them. -/
theorem exists_perm_of_sortFields {fields sorted : List (Text × Json)}
    (h : sorted.Perm (sortFields fields)) :
  ∃ hs, sorted = sortFields hs ∧ hs.Perm fields
  := by
  rw [sortFields_eq_map] at h
  obtain ⟨hs, hmap, hperm⟩ := List.perm_comp_forall₂ (r := fun f g => f = (g.1, g.2.sort)) h
    (List.forall₂_map_left_iff.mpr (List.forall₂_same.mpr fun _ _ => rfl))
  refine ⟨hs, ?_, hperm⟩
  rw [sortFields_eq_map, ← List.forall₂_eq_eq_eq, List.forall₂_map_right_iff]
  exact hmap

/-- Fields with different keys have one order in which they are sorted. -/
theorem insertionSort_eq_of_perm {fs gs : List (Text × Json)} (h : fs.Perm gs)
    (hkeys : (gs.map Prod.fst).Nodup) :
  fs.insertionSort (fun f g => f.1 ≤ g.1) = gs.insertionSort fun f g => f.1 ≤ g.1
  := by
  have hpairwise (fields : List (Text × Json)) :
      (fields.insertionSort fun f g => f.1 ≤ g.1).Pairwise fun f g => f.1 ≤ g.1 := by
    have htotal : Std.Total fun f g : Text × Json => f.1 ≤ g.1 :=
      ⟨fun f g => le_total f.1 g.1⟩
    have htrans : IsTrans (Text × Json) fun f g => f.1 ≤ g.1 :=
      ⟨fun _ _ _ => le_trans⟩
    exact List.pairwise_insertionSort _ fields
  have hperm : (fs.insertionSort fun f g => f.1 ≤ g.1).Perm
      (gs.insertionSort fun f g => f.1 ≤ g.1) :=
    (List.perm_insertionSort _ fs).trans (h.trans (List.perm_insertionSort _ gs).symm)
  refine List.Perm.eq_of_pairwise ?_ (hpairwise fs) (hpairwise gs) hperm
  intro f g hf hg hle hge
  have hf' := h.mem_iff.mp ((List.perm_insertionSort _ fs).mem_iff.mp hf)
  have hg' := (List.perm_insertionSort _ gs).mem_iff.mp hg
  exact List.inj_on_of_nodup_map hkeys hf' hg' (le_antisymm hle hge)

mutual

theorem sort_eq_of_same (a b : Json) (hb : b.Distinct) (h : a.Same b) :
  a.sort = b.sort
  := by
  match a, b with
  | .null, .null => rfl
  | .bool _, .bool _ => exact congrArg Json.bool h
  | .number _, .number _ => exact congrArg Json.number h
  | .string _, .string _ => exact congrArg Json.string h
  | .array xs, .array ys => exact congrArg Json.array (sortElements_eq_of_same xs ys hb h)
  | .object fs, .object gs =>
      obtain ⟨hs, hsame, hperm⟩ := h
      have hdistinct : DistinctFields hs :=
        distinctFields_iff.mpr fun f hf => distinctFields_iff.mp hb.2 f (hperm.mem_iff.mp hf)
      simp only [sort]
      rw [sortFields_eq_of_same fs hs hdistinct hsame,
        insertionSort_eq_of_perm (perm_sortFields hperm)]
      rw [map_fst_sortFields]
      exact hb.1

theorem sortElements_eq_of_same (xs ys : List Json) (hys : DistinctElements ys)
    (h : SameElements xs ys) :
  sortElements xs = sortElements ys
  := by
  match xs, ys with
  | [], [] => rfl
  | j :: js, k :: ks =>
      rw [sortElements, sortElements, sort_eq_of_same j k hys.1 h.1,
        sortElements_eq_of_same js ks hys.2 h.2]

theorem sortFields_eq_of_same (fs gs : List (Text × Json)) (hgs : DistinctFields gs)
    (h : SameFields fs gs) :
  sortFields fs = sortFields gs
  := by
  match fs, gs with
  | [], [] => rfl
  | (l, j) :: fs, (m, k) :: gs =>
      obtain ⟨rfl, hsame, hrest⟩ := h
      rw [sortFields, sortFields, sort_eq_of_same j k hgs.1 hsame,
        sortFields_eq_of_same fs gs hgs.2 hrest]

end

mutual

theorem same_of_sort_eq (a b : Json) (h : a.sort = b.sort) :
  a.Same b
  := by
  match a, b with
  | .null, .null => trivial
  | .bool _, .bool _ => exact Json.bool.inj h
  | .number _, .number _ => exact Json.number.inj h
  | .string _, .string _ => exact Json.string.inj h
  | .array xs, .array ys => exact sameElements_of_sort_eq xs ys (Json.array.inj h)
  | .object fs, .object gs =>
      have hsorted := Json.object.inj h
      have hperm : (sortFields fs).Perm (sortFields gs) := by
        refine (List.perm_insertionSort (fun f g => f.1 ≤ g.1) _).symm.trans ?_
        rw [hsorted]
        exact List.perm_insertionSort _ _
      obtain ⟨hs, hfields, hhs⟩ := exists_perm_of_sortFields hperm
      exact ⟨hs, sameFields_of_sort_eq fs hs hfields, hhs⟩

theorem sameElements_of_sort_eq (xs ys : List Json) (h : sortElements xs = sortElements ys) :
  SameElements xs ys
  := by
  match xs, ys with
  | [], [] => trivial
  | j :: js, k :: ks =>
      obtain ⟨hhead, htail⟩ := List.cons.inj h
      exact ⟨same_of_sort_eq j k hhead, sameElements_of_sort_eq js ks htail⟩

theorem sameFields_of_sort_eq (fs gs : List (Text × Json)) (h : sortFields fs = sortFields gs) :
  SameFields fs gs
  := by
  match fs, gs with
  | [], [] => trivial
  | (l, j) :: fs, (m, k) :: gs =>
      obtain ⟨hhead, htail⟩ := List.cons.inj h
      obtain ⟨hkey, hvalue⟩ := Prod.mk.inj hhead
      exact ⟨hkey, same_of_sort_eq j k hvalue, sameFields_of_sort_eq fs gs htail⟩

end

/-- Sorting gives equal values exactly to those that are the same up to the order of fields. -/
theorem sort_eq_iff {a b : Json} (hb : b.Distinct) :
  a.sort = b.sort ↔ a.Same b
  := ⟨same_of_sort_eq a b, sort_eq_of_same a b hb⟩

/-- So does the canonical text. -/
theorem canonical_eq_iff {a b : Json} (hb : b.Distinct) :
  a.canonical = b.canonical ↔ a.Same b
  := by
  rw [← sort_eq_iff hb]
  exact ⟨canonical_inj, fun h => congrArg (write escape) h⟩

/-! ### Octets -/

/-- `str.encode`: the octets of a text in UTF-8.  There are none if a character is a surrogate. -/
def encode? (t : Text) : Option (List UInt8) :=
  if ∀ c ∈ t, c.isValidChar then some (utf8 t) else none

theorem encode?_eq_some {t : Text} {octets : List UInt8} (h : encode? t = some octets) :
  (∀ c ∈ t, c.isValidChar) ∧ utf8 t = octets
  := by
  unfold encode? at h
  split_ifs at h with hvalid
  exact ⟨hvalid, Option.some.inj h⟩

theorem map_toNat_ofNat {t : Text} (h : ∀ c ∈ t, c.isValidChar) :
  (t.map Char.ofNat).map Char.toNat = t
  := by
  rw [List.map_map]
  conv_rhs => rw [← List.map_id t]
  refine List.map_congr_left fun c hc => ?_
  change (Char.ofNat c).toNat = c
  rw [Char.ofNat, dif_pos (h c hc)]
  rfl

theorem encode?_append (s t : Text) :
  encode? (s ++ t) = (encode? s).bind fun x => (encode? t).map fun y => x ++ y
  := by
  have hutf8 : utf8 (s ++ t) = utf8 s ++ utf8 t := List.flatMap_append
  unfold encode?
  by_cases hs : ∀ c ∈ s, c.isValidChar
  · by_cases ht : ∀ c ∈ t, c.isValidChar
    · rw [if_pos (List.forall_mem_append.mpr ⟨hs, ht⟩), if_pos hs, if_pos ht, hutf8]
      rfl
    · rw [if_neg fun h => ht (List.forall_mem_append.mp h).2, if_pos hs, if_neg ht]
      rfl
  · rw [if_neg fun h => hs (List.forall_mem_append.mp h).1, if_neg hs]
    rfl

/-- Texts with the same octets are the same. -/
theorem encode?_inj {s t : Text} {octets : List UInt8} (hs : encode? s = some octets)
    (ht : encode? t = some octets) :
  s = t
  := by
  obtain ⟨hvalid, hoctets⟩ := encode?_eq_some hs
  obtain ⟨hvalid', hoctets'⟩ := encode?_eq_some ht
  have hencode : (s.map Char.ofNat).utf8Encode = (t.map Char.ofNat).utf8Encode := by
    simp only [List.utf8Encode, List.flatMap_map]
    exact congrArg List.toByteArray (hoctets.trans hoctets'.symm)
  have hchars : s.map Char.ofNat = t.map Char.ofNat := by
    have hdecode := congrArg ByteArray.utf8Decode? hencode
    simpa using hdecode
  rw [← map_toNat_ofNat hvalid, hchars, map_toNat_ofNat hvalid']

end Json
