import OllamaQueueProxy.Library.ObjectGraph

/-!
# Trees of objects

A document is a tree if no object is reached by two paths.  Assignments to paths of a tree of
which none begins with another are independent of their order (`putAll?_of_perm`), and change
nothing but what stands at their paths (`get?_of_some`, `get?_of_none`).
-/

namespace ObjectGraph

variable {κ σ : Type}

/-! ### Paths -/

/-- The value at a path. -/
def get? (h : Heap κ σ) (v : Value κ σ) (path : List (Step κ)) : Option (Value κ σ) :=
  path.foldlM (child? h) v

/-- What a value is, regardless of what it contains. -/
inductive Shape (σ : Type) where
  | scalar (s : σ)
  | dict
  | list (length : ℕ)
  deriving DecidableEq

def shape (h : Heap κ σ) : Value κ σ → Shape σ
  | .scalar s => .scalar s
  | .ref a =>
      match h a with
      | .dict _ => .dict
      | .list elements => .list elements.length

/-- What is at a path.  A nested value is determined by this, for all paths. -/
def look? (h : Heap κ σ) (v : Value κ σ) (path : List (Step κ)) : Option (Shape σ) :=
  (get? h v path).map (shape h)

/-- A path of keys. -/
abbrev keyPath (keys : List κ) : List (Step κ) := keys.map .key

/-- The path of an assignment. -/
def Assignment.path (x : Assignment κ σ) : List κ := x.dir ++ [x.leaf]

namespace Document

variable (d : Document κ σ)

/-- No object is reached by two paths. -/
def IsTree : Prop :=
  ∀ {p q : List (Step κ)} {a : Name κ}, get? d.heap d.root p = some (.ref a) →
    get? d.heap d.root q = some (.ref a) → p = q

/-- There is no value but dictionaries at the beginnings of a path of keys. -/
def RunsThrough (dir : List κ) : Prop :=
  ∀ q, q <+: dir →
    look? d.heap d.root (keyPath q) = none ∨ look? d.heap d.root (keyPath q) = some .dict

/-- The dictionary at a path, whether it is there or is to be made. -/
def place? (dir : List κ) : Option (Name κ) :=
  (name? d.heap d.root).bind fun a => dir.foldlM d.next? a

end Document

/-! ### Places -/

variable {d : Document κ σ} {a b c : Name κ} {k : κ} {p q dir : List κ}

theorem shape_overlay (h : Heap κ σ) (edits : Edits κ σ) :
  shape (overlay h edits) = shape h
  := by
  funext v
  cases v with
  | scalar s => rfl
  | ref a => cases hobject : h a <;> simp [shape, overlay, hobject]

theorem get?_append (h : Heap κ σ) (v : Value κ σ) (p : List (Step κ)) (s : Step κ) :
  get? h v (p ++ [s]) = (get? h v p).bind fun u => child? h u s
  := by
  simp only [get?, List.foldlM_append, List.foldlM_cons, List.foldlM_nil, Option.bind_eq_bind]
  congr 1
  funext u
  cases child? h u s <;> rfl

theorem keyPath_append (q : List κ) (k : κ) :
  keyPath (q ++ [k]) = keyPath q ++ [.key k]
  := by
  simp

theorem keyPath_injective :
  Function.Injective (keyPath (κ := κ))
  := List.map_injective_iff.mpr fun _ _ => Step.key.inj

namespace Document

theorem place?_append (q : List κ) (k : κ) :
  d.place? (q ++ [k]) = (d.place? q).bind fun a => d.next? a k
  := by
  simp only [place?, List.foldlM_append, List.foldlM_cons, List.foldlM_nil, Option.bind_assoc,
    Option.bind_eq_bind]
  congr 1
  funext a
  congr 1
  funext b
  cases d.next? b k <;> rfl

/-- The beginnings of a path with a place have one. -/
theorem isSome_place?_of_begins (hbegins : q <+: dir) (hplace : (d.place? dir).isSome) :
  (d.place? q).isSome
  := by
  induction dir using List.reverseRecOn with
  | nil => rwa [List.prefix_nil.mp hbegins]
  | append_singleton dir k ih =>
      obtain rfl | hbegins := List.prefix_concat_iff.mp hbegins
      · exact hplace
      · refine ih hbegins ?_
        rw [place?_append] at hplace
        exact Option.isSome_of_isSome_bind hplace

/-- A place is an object of the document that stands there, or is to be made. -/
theorem get?_of_place? (hplace : d.place? q = some a) :
  (∃ entries, d.heap a = .dict entries)
    ∧ (get? d.heap d.root (keyPath q) = some (.ref a)
      ∨ get? d.heap d.root (keyPath q) = none ∧ ∃ b k, a = .made b k)
  := by
  induction q using List.reverseRecOn generalizing a with
  | nil =>
      obtain ⟨_, hname, ⟨⟩⟩ := Option.bind_eq_some_iff.mp hplace
      obtain ⟨hroot, hdict⟩ := name?_eq_some hname
      exact ⟨hdict, .inl (congrArg some hroot)⟩
  | append_singleton q k ih =>
      rw [place?_append] at hplace
      obtain ⟨b, hb, hnext⟩ := Option.bind_eq_some_iff.mp hplace
      obtain ⟨⟨entries, hdict⟩, hget⟩ := ih hb
      obtain ⟨ha, hdict'⟩ := next?_eq_some hdict hnext
      refine ⟨hdict', ?_⟩
      rw [keyPath_append, get?_append]
      obtain hget | ⟨hget, c, j, rfl⟩ := hget
      · rw [hget, Option.bind_some]
        simp only [child?, hdict]
        cases hentry : entries k with
        | none =>
            rw [hentry, Option.getD_none] at ha
            exact .inr ⟨rfl, b, k, (Value.ref.inj ha).symm⟩
        | some v =>
            rw [hentry, Option.getD_some] at ha
            exact .inl (congrArg some ha)
      · rw [d.heap_made] at hdict
        obtain rfl := Object.dict.inj hdict
        rw [Option.getD_none] at ha
        rw [hget]
        exact .inr ⟨rfl, _, k, (Value.ref.inj ha).symm⟩

/-- The walk goes on from a place unless a value that is no dictionary stands there. -/
theorem isSome_next? (hplace : d.place? q = some a)
    (hlook : look? d.heap d.root (keyPath (q ++ [k])) = none
      ∨ look? d.heap d.root (keyPath (q ++ [k])) = some .dict) :
  (d.next? a k).isSome
  := by
  obtain ⟨⟨entries, hdict⟩, hget⟩ := get?_of_place? hplace
  rw [next?_of_dict hdict]
  cases hentry : entries k with
  | none =>
      rw [Option.getD_none, madeAt, name?_of_dict (d.heap_made a k)]
      rfl
  | some v =>
      obtain hget | ⟨_, b, j, rfl⟩ := hget
      · rw [look?, keyPath_append, get?_append, hget, Option.bind_some] at hlook
        simp only [child?, hdict, hentry, Option.map_some] at hlook
        cases v with
        | scalar s => simp [shape] at hlook
        | ref c =>
            cases hobject : d.heap c with
            | dict entries => simp [name?_of_dict hobject]
            | list elements => simp [shape, hobject] at hlook
      · rw [d.heap_made] at hdict
        obtain rfl := Object.dict.inj hdict
        cases hentry

/-- A path has a place exactly if it runs through nothing but dictionaries. -/
theorem runsThrough_iff :
  d.RunsThrough dir ↔ (d.place? dir).isSome
  := by
  constructor
  · intro hruns
    induction dir using List.reverseRecOn with
    | nil =>
        have hroot := hruns [] List.prefix_rfl
        cases hvalue : d.root with
        | scalar s => simp [look?, get?, hvalue, shape] at hroot
        | ref a =>
            cases hobject : d.heap a with
            | dict entries => simp [place?, name?, dict?, hvalue, hobject]
            | list elements => simp [look?, get?, hvalue, shape, hobject] at hroot
    | append_singleton q k ih =>
        obtain ⟨a, ha⟩ := Option.isSome_iff_exists.mp
          (ih fun q' hq' => hruns q' (hq'.trans (List.prefix_append _ _)))
        rw [place?_append, ha, Option.bind_some]
        exact isSome_next? ha (hruns (q ++ [k]) List.prefix_rfl)
  · intro hplace q hbegins
    obtain ⟨a, ha⟩ := Option.isSome_iff_exists.mp (isSome_place?_of_begins hbegins hplace)
    obtain ⟨⟨entries, hdict⟩, hget | ⟨hget, _⟩⟩ := get?_of_place? ha
    · right
      simp [look?, hget, shape, hdict]
    · left
      simp [look?, hget]

/-- What stands at a path of the document is none of the objects that are made. -/
theorem get?_ne_made (p : List (Step κ)) :
  get? d.heap d.root p ≠ some (.ref (.made a k))
  := by
  cases p using List.reverseRecOn with
  | nil => exact fun h => d.root_ne_made (Option.some.inj h)
  | append_singleton p s =>
      rw [get?_append]
      intro h
      obtain ⟨u, _, hu⟩ := Option.bind_eq_some_iff.mp h
      exact d.ne_made_of_child hu

/-- The dictionary that is made for an entry is the place of one path. -/
theorem place?_made (hplace : d.place? q = some (.made a k)) :
  ∃ p, q = p ++ [k] ∧ d.place? p = some a
  := by
  cases q using List.reverseRecOn with
  | nil =>
      obtain ⟨_, hname, ⟨⟩⟩ := Option.bind_eq_some_iff.mp hplace
      exact absurd (name?_eq_some hname).1 d.root_ne_made
  | append_singleton p j =>
      rw [place?_append] at hplace
      obtain ⟨b, hb, hnext⟩ := Option.bind_eq_some_iff.mp hplace
      obtain ⟨⟨entries, hdict⟩, _⟩ := get?_of_place? hb
      obtain ⟨hvalue, _⟩ := next?_eq_some hdict hnext
      cases hentry : entries j with
      | none =>
          rw [hentry, Option.getD_none] at hvalue
          obtain ⟨rfl, rfl⟩ := Name.made.inj (Value.ref.inj hvalue)
          exact ⟨p, rfl, hb⟩
      | some v =>
          rw [hentry, Option.getD_some] at hvalue
          refine absurd ?_ (d.ne_made_of_child (v := .ref b) (s := .key j) (a := a) (k := k))
          simp [child?, hdict, hentry, hvalue]

/-- In a tree, different paths have different places. -/
theorem place?_inj (htree : d.IsTree) (hp : d.place? p = some a) (hq : d.place? q = some a) :
  p = q
  := by
  induction a generalizing p q with
  | object n =>
      have hget {r : List κ} (hr : d.place? r = some (.object n)) :
          get? d.heap d.root (keyPath r) = some (.ref (.object n)) := by
        obtain ⟨_, hget | ⟨_, _, _, ⟨⟩⟩⟩ := get?_of_place? hr
        exact hget
      exact keyPath_injective (htree (hget hp) (hget hq))
  | made b k ih =>
      obtain ⟨p', rfl, hp'⟩ := place?_made hp
      obtain ⟨q', rfl, hq'⟩ := place?_made hq
      rw [ih hp' hq']

/-- A document is a tree if no object is contained in two places, nor the root in any. -/
theorem isTree_of_child_unique
    (hunique : ∀ {a b c s t}, child? d.heap (.ref a) s = some (.ref c) →
      child? d.heap (.ref b) t = some (.ref c) → a = b ∧ s = t)
    (hroot : ∀ {a s}, child? d.heap (.ref a) s ≠ some d.root) :
  d.IsTree
  := by
  have hparent {p : List (Step κ)} {s : Step κ} {a : Name κ}
      (hget : get? d.heap d.root (p ++ [s]) = some (.ref a)) :
      ∃ b, get? d.heap d.root p = some (.ref b) ∧ child? d.heap (.ref b) s = some (.ref a) := by
    rw [get?_append] at hget
    obtain ⟨u, hu, hchild⟩ := Option.bind_eq_some_iff.mp hget
    cases u with
    | scalar s => cases hchild
    | ref b => exact ⟨b, hu, hchild⟩
  intro p q a hp hq
  induction p using List.reverseRecOn generalizing q a with
  | nil =>
      cases q using List.reverseRecOn with
      | nil => rfl
      | append_singleton q t =>
          obtain ⟨c, _, hchild⟩ := hparent hq
          rw [← hp] at hchild
          exact absurd hchild hroot
  | append_singleton p s ih =>
      obtain ⟨b, hb, hchild⟩ := hparent hp
      cases q using List.reverseRecOn with
      | nil =>
          rw [← hq] at hchild
          exact absurd hchild hroot
      | append_singleton q t =>
          obtain ⟨c, hc, hchild'⟩ := hparent hq
          obtain ⟨rfl, rfl⟩ := hunique hchild hchild'
          rw [ih hb hc]

/-! ### Writes -/

variable {x y : Assignment κ σ} {w w' : Write κ σ} {steps : List (Name κ × κ)}

theorem foldlM_of_resolve? (hresolve : d.resolve? a dir = some (steps, c)) :
  dir.foldlM d.next? a = some c
    ∧ ∀ b k, (b, k) ∈ steps ↔ ∃ q, q ++ [k] <+: dir ∧ q.foldlM d.next? a = some b
  := by
  induction dir generalizing a steps with
  | nil =>
      obtain ⟨rfl, rfl⟩ := Prod.mk.inj (Option.some.inj hresolve)
      simp
  | cons key keys ih =>
      obtain ⟨b, steps', hnext, hresolve', rfl⟩ := resolve?_cons.mp hresolve
      obtain ⟨hfoldlM, hsteps⟩ := ih hresolve'
      refine ⟨by simp [List.foldlM_cons, hnext, hfoldlM], fun c' k => ?_⟩
      rw [List.mem_cons, hsteps]
      constructor
      · rintro (⟨⟨⟩⟩ | ⟨q, hq, hc'⟩)
        · exact ⟨[], by simp, rfl⟩
        · exact ⟨key :: q, by simpa using hq, by simp [List.foldlM_cons, hnext, hc']⟩
      · rintro ⟨_ | ⟨j, q⟩, hq, hc'⟩
        · obtain ⟨rfl, _⟩ := List.cons_prefix_cons.mp hq
          obtain rfl := Option.some.inj hc'
          exact .inl rfl
        · obtain ⟨rfl, hq'⟩ := List.cons_prefix_cons.mp hq
          rw [List.foldlM_cons, hnext] at hc'
          exact .inr ⟨q, hq', hc'⟩

theorem isSome_resolve? :
  (d.resolve? a dir).isSome = (dir.foldlM d.next? a).isSome
  := by
  induction dir generalizing a with
  | nil => rfl
  | cons key keys ih =>
      rw [resolve?, List.foldlM_cons]
      cases hnext : d.next? a key with
      | none => rfl
      | some b =>
          simp only [Option.bind_eq_bind, Option.bind_some, ← ih]
          cases d.resolve? b keys <;> rfl

theorem isSome_write? :
  (d.write? x).isSome = (d.place? x.dir).isSome
  := by
  rw [write?, place?]
  cases name? d.heap d.root with
  | none => rfl
  | some a =>
      simp only [Option.bind_eq_bind, Option.bind_some, ← isSome_resolve?]
      cases d.resolve? a x.dir <;> rfl

theorem loc_of_write? (hwrite : d.write? x = some w) :
  d.place? x.dir = some w.loc.1 ∧ w.loc.2 = x.leaf ∧ w.value = x.value
  := by
  obtain ⟨a, steps, c, hname, hresolve, rfl⟩ := write?_eq_some.mp hwrite
  rw [place?, hname]
  exact ⟨(foldlM_of_resolve? hresolve).1, rfl, rfl⟩

theorem mem_steps_of_write? (hwrite : d.write? x = some w) :
  (a, k) ∈ w.steps ↔ ∃ q, q ++ [k] <+: x.dir ∧ d.place? q = some a
  := by
  obtain ⟨b, steps, c, hname, hresolve, rfl⟩ := write?_eq_some.mp hwrite
  rw [(foldlM_of_resolve? hresolve).2]
  simp only [place?, hname, Option.bind_some]

/-- A write is on the way of another in a tree only if the path of the one begins that of the
other. -/
theorem not_mem_steps_of_not_begins (htree : d.IsTree) (hx : d.write? x = some w)
    (hy : d.write? y = some w') (hbegins : ¬ x.path <+: y.path) :
  w.loc ∉ w'.steps
  := by
  intro hmem
  obtain ⟨q, hq, hplace⟩ := (mem_steps_of_write? hy).mp hmem
  obtain ⟨hplace', hleaf, _⟩ := loc_of_write? hx
  rw [place?_inj htree hplace hplace', hleaf] at hq
  exact hbegins (hq.trans (List.prefix_append _ _))

theorem apart_of_not_begins (htree : d.IsTree) (hx : d.write? x = some w)
    (hy : d.write? y = some w') (hbegins : ¬ x.path <+: y.path) (hbegins' : ¬ y.path <+: x.path) :
  Apart w w'
  where
  loc_ne hloc := by
    obtain ⟨hplace, hleaf, _⟩ := loc_of_write? hx
    obtain ⟨hplace', hleaf', _⟩ := loc_of_write? hy
    have hdir : x.dir = y.dir := place?_inj htree (hloc ▸ hplace) hplace'
    have hpath : x.path = y.path := by
      rw [Assignment.path, Assignment.path, hdir, ← hleaf, ← hleaf', hloc]
    exact hbegins (hpath ▸ List.prefix_rfl)
  not_mem_steps := not_mem_steps_of_not_begins htree hx hy hbegins
  not_mem_steps' := not_mem_steps_of_not_begins htree hy hx hbegins'

end Document

/-! ### Assignments to a tree -/

/-- Assignments of which every one has a place in a tree, and no path begins with that of
another. -/
structure Separate (d : Document κ σ) (xs : List (Assignment κ σ)) : Prop where
  isTree : d.IsTree
  runsThrough : ∀ x ∈ xs, d.RunsThrough x.dir
  not_begins : xs.Pairwise fun x y => ¬ x.path <+: y.path ∧ ¬ y.path <+: x.path

namespace Separate

variable {xs ys : List (Assignment κ σ)} {x : Assignment κ σ}

theorem exists_write (hxs : Separate d xs) (hx : x ∈ xs) :
  ∃ w, d.write? x = some w
  := Option.isSome_iff_exists.mp
    (Document.isSome_write?.trans (Document.runsThrough_iff.mp (hxs.runsThrough x hx)))

theorem pairwise_apart (hxs : Separate d xs) :
  (xs.filterMap d.write?).Pairwise Apart
  := List.pairwise_filterMap.mpr (hxs.not_begins.imp fun hbegins _ hx _ hy =>
    Document.apart_of_not_begins hxs.isTree hx hy hbegins.1 hbegins.2)

theorem of_perm (hxs : Separate d xs) (hperm : ys.Perm xs) :
  Separate d ys
  where
  isTree := hxs.isTree
  runsThrough y hy := hxs.runsThrough y (hperm.mem_iff.mp hy)
  not_begins := hxs.not_begins.perm hperm.symm fun h => ⟨h.2, h.1⟩

variable [DecidableEq κ]

/-- The assignments succeed in every order, with the same result. -/
theorem putAll?_of_perm (hxs : Separate d xs) (hperm : ys.Perm xs) :
  putAll? d.heap d.root ys = some (overlay d.heap (d.editsOf xs))
  := by
  have hys := hxs.of_perm hperm
  have hedits : d.editsOf ys = d.editsOf xs :=
    Document.foldl_edit_perm (hperm.filterMap _) hys.pairwise_apart
  rw [← hedits]
  refine Document.putAll?_heap_eq_some.mpr ⟨fun y hy => ?_, ?_, rfl⟩
  · obtain ⟨w, hw⟩ := hys.exists_write hy
    rw [hw]
    rfl
  · exact hys.pairwise_apart.imp fun hapart => hapart.not_mem_steps

/-- What is put at an entry of a place. -/
theorem editsOf_path (hxs : Separate d xs) (hx : x ∈ xs) (hplace : d.place? x.dir = some a) :
  d.editsOf xs (a, x.leaf) = some (.scalar x.value)
  := by
  obtain ⟨w, hw⟩ := hxs.exists_write hx
  obtain ⟨hloc, hleaf, hvalue⟩ := Document.loc_of_write? hw
  have heq : (a, x.leaf) = w.loc :=
    Prod.ext (Option.some.inj (hplace.symm.trans hloc)) hleaf.symm
  rw [heq, ← hvalue]
  exact Document.foldl_edit_loc hxs.pairwise_apart (List.mem_filterMap.mpr ⟨x, hx, hw⟩)

theorem editsOf_of_ne (hxs : Separate d xs) (hplace : d.place? q = some a)
    (hne : ∀ x ∈ xs, x.path ≠ q ++ [k]) :
  d.editsOf xs (a, k) =
    if (∃ w ∈ xs.filterMap d.write?, (a, k) ∈ w.steps) ∧ d.Absent (a, k) then
      some (madeAt (a, k))
    else none
  := by
  have hloc : ∀ w ∈ xs.filterMap d.write?, (a, k) ≠ w.loc := by
    intro w hw heq
    obtain ⟨x, hx, hwrite⟩ := List.mem_filterMap.mp hw
    obtain ⟨hdir, hleaf, _⟩ := Document.loc_of_write? hwrite
    rw [← heq] at hdir hleaf
    have hq := Document.place?_inj hxs.isTree hdir hplace
    apply hne x hx
    rw [Assignment.path, hq, ← hleaf]
  rw [Document.editsOf, Document.foldl_edit_of_ne_loc hloc]
  simp only [Option.isNone_none, and_true]

omit [DecidableEq κ] in
/-- The entries that are passed. -/
theorem exists_mem_steps_iff (hxs : Separate d xs) (hplace : d.place? q = some a) :
  (∃ w ∈ xs.filterMap d.write?, (a, k) ∈ w.steps) ↔ ∃ x ∈ xs, q ++ [k] <+: x.dir
  := by
  constructor
  · rintro ⟨w, hw, hstep⟩
    obtain ⟨x, hx, hwrite⟩ := List.mem_filterMap.mp hw
    obtain ⟨q', hq', hplace'⟩ := (Document.mem_steps_of_write? hwrite).mp hstep
    rw [Document.place?_inj hxs.isTree hplace' hplace] at hq'
    exact ⟨x, hx, hq'⟩
  · rintro ⟨x, hx, hq⟩
    obtain ⟨w, hwrite⟩ := hxs.exists_write hx
    exact ⟨w, List.mem_filterMap.mpr ⟨x, hx, hwrite⟩,
      (Document.mem_steps_of_write? hwrite).mpr ⟨q, hq, hplace⟩⟩

/-- An object that is no place has no edited entry. -/
theorem editsOf_of_place?_ne (hplace : ∀ q, d.place? q ≠ some a) :
  d.editsOf xs (a, k) = none
  := by
  have hwrites : ∀ w ∈ xs.filterMap d.write?, (a, k) ≠ w.loc ∧ (a, k) ∉ w.steps := by
    intro w hw
    obtain ⟨x, hx, hwrite⟩ := List.mem_filterMap.mp hw
    refine ⟨fun heq => ?_, fun hstep => ?_⟩
    · have hdir := (Document.loc_of_write? hwrite).1
      rw [← heq] at hdir
      exact hplace _ hdir
    · obtain ⟨q, _, hq⟩ := (Document.mem_steps_of_write? hwrite).mp hstep
      exact hplace q hq
  rw [Document.editsOf, Document.foldl_edit_of_ne_loc fun w hw => (hwrites w hw).1, if_neg]
  rintro ⟨⟨w, hw, hstep⟩, _⟩
  exact (hwrites w hw).2 hstep

/-- An entry is left alone if no assignment is made to it, and none passes it while it is
missing. -/
theorem editsOf_eq_none (hxs : Separate d xs) (hplace : d.place? q = some a)
    (hne : ∀ x ∈ xs, x.path ≠ q ++ [k])
    (hpass : d.Absent (a, k) → ∀ x ∈ xs, ¬ q ++ [k] <+: x.path) :
  d.editsOf xs (a, k) = none
  := by
  rw [hxs.editsOf_of_ne hplace hne, if_neg]
  rintro ⟨hstep, habsent⟩
  obtain ⟨x, hx, hbegins⟩ := (hxs.exists_mem_steps_iff hplace).mp hstep
  exact hpass habsent x hx (hbegins.trans (List.prefix_append _ _))

/-- So is one of an object of the document that stands at a path. -/
theorem editsOf_of_get? {p : List (Step κ)} (hxs : Separate d xs)
    (hget : get? d.heap d.root p = some (.ref a))
    (hne : ∀ x ∈ xs, keyPath x.path ≠ p ++ [.key k])
    (hpass : d.Absent (a, k) → ∀ x ∈ xs, ¬ p ++ [.key k] <+: keyPath x.path) :
  d.editsOf xs (a, k) = none
  := by
  by_cases hplace : ∃ q, d.place? q = some a
  · obtain ⟨q, hq⟩ := hplace
    have hp : p = keyPath q := by
      obtain ⟨_, hget' | ⟨_, b, j, rfl⟩⟩ := Document.get?_of_place? hq
      · exact hxs.isTree hget hget'
      · exact absurd hget (Document.get?_ne_made p)
    subst hp
    refine hxs.editsOf_eq_none hq (fun x hx heq => hne x hx ?_) fun habsent x hx hbegins =>
      hpass habsent x hx ?_
    · rw [heq, keyPath_append]
    · rw [← keyPath_append]
      exact hbegins.map Step.key
  · exact editsOf_of_place?_ne (not_exists.mp hplace)

variable {p : List (Step κ)} {v : Value κ σ}

/-- A value of the tree stays where it is unless an assignment is made to its path or to a
beginning of it. -/
theorem get?_of_some (hxs : Separate d xs) (hp : ∀ x ∈ xs, ¬ keyPath x.path <+: p)
    (hget : get? d.heap d.root p = some v) :
  get? (overlay d.heap (d.editsOf xs)) d.root p = some v
  := by
  induction p using List.reverseRecOn generalizing v with
  | nil => exact hget
  | append_singleton p s ih =>
      rw [get?_append] at hget ⊢
      obtain ⟨u, hu, hchild⟩ := Option.bind_eq_some_iff.mp hget
      rw [ih (fun x hx hbegins => hp x hx (hbegins.trans (List.prefix_append _ _))) hu,
        Option.bind_some]
      cases u with
      | scalar s => cases hchild
      | ref a =>
          rw [child?_overlay, hchild]
          rintro k rfl entries hdict
          refine hxs.editsOf_of_get? hu (fun x hx heq => hp x hx (heq ▸ List.prefix_rfl)) ?_
          intro habsent
          rw [Document.Absent, hchild] at habsent
          cases habsent

omit [DecidableEq κ] in
theorem not_path_prefix_dir (hxs : Separate d xs) (hx : x ∈ xs) {y : Assignment κ σ}
    (hy : y ∈ xs) :
  ¬ y.path <+: x.dir
  := by
  intro hbegins
  by_cases heq : y = x
  · subst heq
    have hlength := hbegins.length_le
    simp only [Assignment.path, List.length_append, List.length_singleton] at hlength
    omega
  · have hpair : ¬ y.path <+: x.path ∧ ¬ x.path <+: y.path := by
      have hsymm : Std.Symm fun x y : Assignment κ σ => ¬ x.path <+: y.path ∧ ¬ y.path <+: x.path :=
        ⟨fun _ _ h => ⟨h.2, h.1⟩⟩
      exact hxs.not_begins.forall hy hx heq
    exact hpair.1 (hbegins.trans (List.prefix_append _ _))

/-- On the way of an assignment stand the dictionaries at which it is made. -/
theorem get?_of_prefix_dir (hxs : Separate d xs) (hx : x ∈ xs) (hq : q <+: x.dir)
    (hplace : d.place? q = some a) :
  get? (overlay d.heap (d.editsOf xs)) d.root (keyPath q) = some (.ref a)
  := by
  induction q using List.reverseRecOn generalizing a with
  | nil =>
      obtain ⟨_, hname, ⟨⟩⟩ := Option.bind_eq_some_iff.mp hplace
      exact congrArg some (name?_eq_some hname).1
  | append_singleton q k ih =>
      rw [Document.place?_append] at hplace
      obtain ⟨b, hb, hnext⟩ := Option.bind_eq_some_iff.mp hplace
      obtain ⟨⟨entries, hdict⟩, _⟩ := Document.get?_of_place? hb
      obtain ⟨ha, _⟩ := Document.next?_eq_some hdict hnext
      rw [keyPath_append, get?_append, ih ((List.prefix_append _ _).trans hq) hb,
        Option.bind_some]
      have hne : ∀ y ∈ xs, y.path ≠ q ++ [k] := fun y hy heq =>
        hxs.not_path_prefix_dir hx hy (heq ▸ hq)
      simp only [child?, overlay, hdict, hxs.editsOf_of_ne hb hne,
        hxs.exists_mem_steps_iff hb, Document.absent_iff hdict]
      cases hentry : entries k with
      | none =>
          rw [hentry, Option.getD_none] at ha
          rw [if_pos ⟨⟨x, hx, hq⟩, rfl⟩, ha]
          rfl
      | some v =>
          rw [hentry, Option.getD_some] at ha
          simp [ha]

/-- The value of an assignment stands at its path. -/
theorem get?_path (hxs : Separate d xs) (hx : x ∈ xs) :
  get? (overlay d.heap (d.editsOf xs)) d.root (keyPath x.path) = some (.scalar x.value)
  := by
  obtain ⟨a, ha⟩ := Option.isSome_iff_exists.mp
    (Document.runsThrough_iff.mp (hxs.runsThrough x hx))
  obtain ⟨⟨entries, hdict⟩, _⟩ := Document.get?_of_place? ha
  rw [Assignment.path, keyPath_append, get?_append,
    hxs.get?_of_prefix_dir hx List.prefix_rfl ha, Option.bind_some]
  simp [child?, overlay, hdict, hxs.editsOf_path hx ha]

/-- A dictionary that is made on the way of an assignment has no entry but those on the way of
one. -/
theorem get?_append_of_prefix_dir {s : Step κ} (hxs : Separate d xs) (hx : x ∈ xs)
    (hdir : q <+: x.dir) (hnone : get? d.heap d.root (keyPath q) = none)
    (hp : ∀ y ∈ xs, ¬ keyPath y.path <+: keyPath q ++ [s]
      ∧ ¬ keyPath q ++ [s] <+: keyPath y.path) :
  get? (overlay d.heap (d.editsOf xs)) d.root (keyPath q ++ [s]) = none
  := by
  obtain ⟨a, ha⟩ := Option.isSome_iff_exists.mp (Document.isSome_place?_of_begins hdir
    (Document.runsThrough_iff.mp (hxs.runsThrough x hx)))
  obtain ⟨_, hstands | ⟨_, b, j, rfl⟩⟩ := Document.get?_of_place? ha
  · rw [hnone] at hstands
    cases hstands
  · rw [get?_append, hxs.get?_of_prefix_dir hx hdir ha, Option.bind_some, child?_overlay]
    · cases s <;> simp [child?, d.heap_made]
    · rintro k rfl _ _
      rw [← keyPath_append] at hp
      apply hxs.editsOf_eq_none ha
      · intro y hy heq
        exact (hp y hy).1 (heq ▸ List.prefix_rfl)
      · intro _ y hy hbelow
        exact (hp y hy).2 (hbelow.map Step.key)

/-- Nothing is put at a path where nothing is, unless an assignment is made to it, to a beginning
of it, or to a path that it is a beginning of. -/
theorem get?_of_none (hxs : Separate d xs)
    (hp : ∀ x ∈ xs, ¬ keyPath x.path <+: p ∧ ¬ p <+: keyPath x.path)
    (hget : get? d.heap d.root p = none) :
  get? (overlay d.heap (d.editsOf xs)) d.root p = none
  := by
  induction p using List.reverseRecOn with
  | nil => cases hget
  | append_singleton p s ih =>
      have hpath : ∀ x ∈ xs, ¬ keyPath x.path <+: p := fun x hx hbegins =>
        (hp x hx).1 (hbegins.trans (List.prefix_append _ _))
      cases hu : get? d.heap d.root p with
      | some u =>
          rw [get?_append, hu, Option.bind_some] at hget
          rw [get?_append, hxs.get?_of_some hpath hu, Option.bind_some]
          cases u with
          | scalar s => rfl
          | ref a =>
              rw [child?_overlay, hget]
              rintro k rfl _ _
              exact hxs.editsOf_of_get? hu
                (fun x hx heq => (hp x hx).1 (heq ▸ List.prefix_rfl)) fun _ x hx => (hp x hx).2
      | none =>
          by_cases hbelow : ∃ x ∈ xs, p <+: keyPath x.path
          · obtain ⟨x, hx, hbegins⟩ := hbelow
            obtain ⟨q, hq, rfl⟩ := List.prefix_map_iff.mp hbegins
            obtain rfl | hdir := List.prefix_concat_iff.mp hq
            · exact absurd List.prefix_rfl (hpath x hx)
            · exact hxs.get?_append_of_prefix_dir hx hdir hu hp
          · rw [get?_append, ih (fun x hx => ⟨hpath x hx, fun h => hbelow ⟨x, hx, h⟩⟩) hu]
            rfl

/-! ### What is at the paths of an edited tree -/

/-- At the path of an assignment is its value. -/
theorem look?_path (hxs : Separate d xs) (hx : x ∈ xs) :
  look? (overlay d.heap (d.editsOf xs)) d.root (keyPath x.path) = some (.scalar x.value)
  := by
  rw [look?, hxs.get?_path hx]
  rfl

/-- What was there stays, besides the paths of assignments and what is below them. -/
theorem look?_of_ne_none (hxs : Separate d xs) (hp : ∀ x ∈ xs, ¬ keyPath x.path <+: p)
    (hlook : look? d.heap d.root p ≠ none) :
  look? (overlay d.heap (d.editsOf xs)) d.root p = look? d.heap d.root p
  := by
  rw [look?, look?, shape_overlay]
  cases hget : get? d.heap d.root p with
  | none => simp [look?, hget] at hlook
  | some v => rw [hxs.get?_of_some hp hget]

/-- Nothing is new, besides the paths of assignments and the dictionaries on the way. -/
theorem look?_of_none (hxs : Separate d xs)
    (hp : ∀ x ∈ xs, ¬ keyPath x.path <+: p ∧ ¬ p <+: keyPath x.path)
    (hlook : look? d.heap d.root p = none) :
  look? (overlay d.heap (d.editsOf xs)) d.root p = none
  := by
  rw [look?, hxs.get?_of_none hp (Option.map_eq_none_iff.mp hlook)]
  rfl

end Separate

end ObjectGraph
