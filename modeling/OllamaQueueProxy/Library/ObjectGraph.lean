import Mathlib.Data.List.Forall2
import Mathlib.Data.List.Infix
import Mathlib.Data.List.Pairwise
import Mathlib.Logic.Function.Basic

/-!
# Graphs of objects

Dictionaries and lists as a program holds them: each is an object with a name of its own, and
what it contains are scalars and references to objects, so that an object may be reached in more
than one way.

A value is put at a path by a walk that makes the dictionaries that are missing.  What a sequence
of such operations does to a document is described by edits of entries (`putAll?_eq_some`):
the paths are resolved in the document as it was (`resolve?`), and an operation fails exactly if
its path does not resolve, or an earlier one has put a scalar on its way.
-/

namespace ObjectGraph

variable {κ σ : Type}

/-! ### Objects -/

/-- The name of an object.  An object that is made for a missing entry is named by it. -/
inductive Name (κ : Type) where
  | object (n : ℕ)
  | made (owner : Name κ) (key : κ)
  deriving DecidableEq

inductive Value (κ σ : Type) where
  | scalar (s : σ)
  | ref (a : Name κ)

inductive Object (κ σ : Type) where
  | dict (entries : κ → Option (Value κ σ))
  | list (elements : List (Value κ σ))

/-- The objects by their names.  Those that are not in use are empty dictionaries. -/
abbrev Heap (κ σ : Type) : Type := Name κ → Object κ σ

/-- The dictionary that a value refers to, with its name. -/
def dict? (h : Heap κ σ) : Value κ σ → Option (Name κ × (κ → Option (Value κ σ)))
  | .scalar _ => none
  | .ref a =>
      match h a with
      | .dict entries => some (a, entries)
      | .list _ => none

section

variable [DecidableEq κ]

/-- `target[key] = value`, unless the target is no dictionary. -/
def setItem? (h : Heap κ σ) (target : Value κ σ) (key : κ) (value : Value κ σ) :
    Option (Heap κ σ) :=
  (dict? h target).map fun (a, entries) =>
    Function.update h a (.dict (Function.update entries key (some value)))

/-- `target.setdefault(key, {})`, unless the target is no dictionary. -/
def setdefault? (h : Heap κ σ) (target : Value κ σ) (key : κ) :
    Option (Heap κ σ × Value κ σ) :=
  (dict? h target).map fun (a, entries) =>
    match entries key with
    | some value => (h, value)
    | none =>
        (Function.update h a (.dict (Function.update entries key (some (.ref (.made a key))))),
          .ref (.made a key))

/-- The value at the end of a path of keys, with the missing dictionaries made. -/
def walk? (h : Heap κ σ) (target : Value κ σ) : List κ → Option (Heap κ σ × Value κ σ)
  | [] => some (h, target)
  | key :: keys => do
      let (h, target) ← setdefault? h target key
      walk? h target keys

/-- A value is put under a key of the dictionary at the end of a path. -/
def put? (h : Heap κ σ) (target : Value κ σ) (dir : List κ) (leaf : κ) (value : Value κ σ) :
    Option (Heap κ σ) := do
  let (h, target) ← walk? h target dir
  setItem? h target leaf value

end

/-! ### Documents -/

/-- A step of a path. -/
inductive Step (κ : Type) where
  | key (key : κ)
  | index (i : ℕ)
  deriving DecidableEq

/-- What a value contains at a step. -/
def child? (h : Heap κ σ) (v : Value κ σ) (s : Step κ) : Option (Value κ σ) :=
  match v with
  | .scalar _ => none
  | .ref a =>
      match h a, s with
      | .dict entries, .key key => entries key
      | .list elements, .index i => elements[i]?
      | _, _ => none

/-- A value as it was read.  Its objects are numbered. -/
structure Document (κ σ : Type) where
  heap : Heap κ σ
  root : Value κ σ
  heap_made : ∀ a k, heap (.made a k) = .dict fun _ => none
  ne_made_of_child : ∀ {v s a k}, child? heap v s ≠ some (.ref (.made a k))
  root_ne_made : ∀ {a k}, root ≠ .ref (.made a k)

/-- The document of objects of which the first one is the root. -/
def Document.ofHeap (heap : Heap κ σ) (heap_made : ∀ a k, heap (.made a k) = .dict fun _ => none)
    (ne_made_of_child : ∀ {v s a k}, child? heap v s ≠ some (.ref (.made a k))) :
    Document κ σ where
  heap := heap
  root := .ref (.object 0)
  heap_made := heap_made
  ne_made_of_child := ne_made_of_child
  root_ne_made := nofun

/-- The name of the dictionary that a value refers to. -/
def name? (h : Heap κ σ) (v : Value κ σ) : Option (Name κ) := (dict? h v).map Prod.fst

namespace Document

variable (d : Document κ σ)

/-- The dictionary under a key of a dictionary, whether it is there or is to be made. -/
def next? (a : Name κ) (key : κ) : Option (Name κ) :=
  match d.heap a with
  | .dict entries => name? d.heap ((entries key).getD (.ref (.made a key)))
  | .list _ => none

/-- The dictionary at the end of a path from a dictionary, and the entries on the way. -/
def resolve? (a : Name κ) : List κ → Option (List (Name κ × κ) × Name κ)
  | [] => some ([], a)
  | key :: keys => do
      let b ← d.next? a key
      let (steps, c) ← resolve? b keys
      return ((a, key) :: steps, c)

/-- The document has nothing at an entry. -/
def Absent (e : Name κ × κ) : Prop := child? d.heap (.ref e.1) (.key e.2) = none

instance (e : Name κ × κ) : Decidable (d.Absent e) :=
  inferInstanceAs (Decidable (_ = none))

end Document

/-! ### Edits -/

/-- What has been put at the entries of a document. -/
abbrev Edits (κ σ : Type) : Type := Name κ × κ → Option (Value κ σ)

/-- The objects with the entries edited. -/
def overlay (h : Heap κ σ) (edits : Edits κ σ) : Heap κ σ := fun a =>
  match h a with
  | .dict entries => .dict fun key => (edits (a, key)).or (entries key)
  | .list elements => .list elements

/-- A scalar that is put at an entry, and the entries on the way to it. -/
structure Write (κ σ : Type) where
  steps : List (Name κ × κ)
  loc : Name κ × κ
  value : σ

/-- A scalar that is to be put under a key of the dictionary at a path. -/
structure Assignment (κ σ : Type) where
  dir : List κ
  leaf : κ
  value : σ

/-- The assignments are made one after the other. -/
def putAll? [DecidableEq κ] (h : Heap κ σ) (root : Value κ σ)
    (assignments : List (Assignment κ σ)) : Option (Heap κ σ) :=
  assignments.foldlM (fun h x => put? h root x.dir x.leaf (.scalar x.value)) h

/-- Where an assignment takes place in the document, and what it passes. -/
def Document.write? (d : Document κ σ) (x : Assignment κ σ) : Option (Write κ σ) := do
  let a ← name? d.heap d.root
  let (steps, c) ← d.resolve? a x.dir
  return ⟨steps, (c, x.leaf), x.value⟩

/-- The reference to the dictionary that is made for an entry. -/
def madeAt (e : Name κ × κ) : Value κ σ := .ref (.made e.1 e.2)

/-- The edits go on with a write. -/
def Document.edit [DecidableEq κ] (d : Document κ σ) (edits : Edits κ σ) (w : Write κ σ) :
    Edits κ σ := fun e =>
  if e = w.loc then some (.scalar w.value)
  else if e ∈ w.steps ∧ d.Absent e ∧ (edits e).isNone then some (madeAt e)
  else edits e

/-- A walk passes an entry: a dictionary is made for it if nothing is there. -/
def Document.step [DecidableEq κ] (d : Document κ σ) (edits : Edits κ σ) (e : Name κ × κ) :
    Edits κ σ :=
  if d.Absent e ∧ (edits e).isNone then Function.update edits e (some (madeAt e)) else edits

/-- No scalar has been put at the entry. -/
def Free (edits : Edits κ σ) (e : Name κ × κ) : Prop := ∀ s, edits e ≠ some (.scalar s)

/-- References are put at missing entries only, to the objects made for them. -/
def Document.Sound (d : Document κ σ) (edits : Edits κ σ) : Prop :=
  ∀ e a, edits e = some (.ref a) → .ref a = madeAt (σ := σ) e ∧ d.Absent e

/-- Neither write is on the way of the other, nor at the same place. -/
structure Apart (w w' : Write κ σ) : Prop where
  loc_ne : w.loc ≠ w'.loc
  not_mem_steps : w.loc ∉ w'.steps
  not_mem_steps' : w'.loc ∉ w.steps

instance : Std.Symm (Apart (κ := κ) (σ := σ)) :=
  ⟨fun _ _ h => ⟨h.loc_ne.symm, h.not_mem_steps', h.not_mem_steps⟩⟩

/-! ### Reading edited objects -/

section

variable {h : Heap κ σ} {edits : Edits κ σ} {a : Name κ} {entries : κ → Option (Value κ σ)}

theorem overlay_of_dict (hdict : h a = .dict entries) :
  overlay h edits a = .dict fun key => (edits (a, key)).or (entries key)
  := by
  rw [overlay, hdict]

theorem overlay_none (h : Heap κ σ) :
  overlay h (fun _ => none) = h
  := by
  funext a
  unfold overlay
  cases h a <;> rfl

theorem dict?_of_dict (hdict : h a = .dict entries) :
  dict? h (.ref a) = some (a, entries)
  := by
  rw [dict?, hdict]

theorem dict?_eq_some {v : Value κ σ} (hdict : dict? h v = some (a, entries)) :
  v = .ref a ∧ h a = .dict entries
  := by
  cases v with
  | scalar s => cases hdict
  | ref b =>
      cases hb : h b with
      | dict entries =>
          rw [dict?_of_dict hb] at hdict
          obtain ⟨rfl, rfl⟩ := Prod.mk.inj (Option.some.inj hdict)
          exact ⟨rfl, hb⟩
      | list elements =>
          simp only [dict?, hb] at hdict
          cases hdict

/-- An object contains what it did at a step at which nothing is put. -/
theorem child?_overlay {s : Step κ}
    (hedits : ∀ k, s = .key k → ∀ entries, h a = .dict entries → edits (a, k) = none) :
  child? (overlay h edits) (.ref a) s = child? h (.ref a) s
  := by
  cases hobject : h a with
  | list elements => simp [child?, overlay, hobject]
  | dict entries =>
      cases s with
      | index i => simp [child?, overlay, hobject]
      | key k => simp [child?, overlay, hobject, hedits k rfl entries hobject]

/-- An object stays a dictionary, or a list, under edits. -/
theorem name?_overlay (v : Value κ σ) :
  name? (overlay h edits) v = name? h v
  := by
  cases v with
  | scalar s => rfl
  | ref a =>
      cases ha : h a with
      | dict entries => simp [name?, dict?, overlay, ha]
      | list elements => simp [name?, dict?, overlay, ha]

theorem name?_eq_some {v : Value κ σ} (hname : name? h v = some a) :
  v = .ref a ∧ ∃ entries, h a = .dict entries
  := by
  obtain ⟨⟨b, entries⟩, hdict, rfl⟩ := Option.map_eq_some_iff.mp hname
  obtain ⟨hv, hentries⟩ := dict?_eq_some hdict
  exact ⟨hv, entries, hentries⟩

theorem name?_of_dict (hdict : h a = .dict entries) :
  name? h (.ref a) = some a
  := by
  rw [name?, dict?_of_dict hdict]
  rfl

variable [DecidableEq κ]

/-- Putting a value at an entry is an edit. -/
theorem update_overlay (hdict : h a = .dict entries) (key : κ) (v : Value κ σ) :
  Function.update (overlay h edits) a
      (.dict (Function.update (fun key => (edits (a, key)).or (entries key)) key (some v))) =
    overlay h (Function.update edits (a, key) (some v))
  := by
  funext b
  by_cases hb : b = a
  · subst hb
    rw [Function.update_self, overlay_of_dict hdict]
    congr 1
    funext key'
    by_cases hkey : key' = key
    · subst hkey
      rw [Function.update_self, Function.update_self, Option.some_or]
    · rw [Function.update_of_ne hkey, Function.update_of_ne (by simp [hkey])]
  · rw [Function.update_of_ne hb]
    unfold overlay
    cases h b with
    | list elements => rfl
    | dict entries =>
        simp only
        congr 1
        funext key'
        rw [Function.update_of_ne (by simp [hb])]

theorem setItem?_overlay (hdict : h a = .dict entries) (key : κ) (v : Value κ σ) :
  setItem? (overlay h edits) (.ref a) key v =
    some (overlay h (Function.update edits (a, key) (some v)))
  := by
  rw [setItem?, dict?_of_dict (overlay_of_dict hdict), Option.map_some]
  exact congrArg some (update_overlay hdict key v)

/-- Nothing can be put below a value that is no dictionary. -/
theorem put?_of_name? {v : Value κ σ} (hname : name? h v = none) (dir : List κ) (leaf : κ)
    (value : Value κ σ) :
  put? h v dir leaf value = none
  := by
  have hdict : dict? h v = none := Option.map_eq_none_iff.mp hname
  cases dir with
  | nil => simp [put?, walk?, setItem?, hdict]
  | cons key keys => simp [put?, walk?, setdefault?, hdict]

theorem put?_cons (h : Heap κ σ) (v : Value κ σ) (key : κ) (keys : List κ) (leaf : κ)
    (value : Value κ σ) :
  put? h v (key :: keys) leaf value =
    (setdefault? h v key).bind fun x => put? x.1 x.2 keys leaf value
  := by
  simp only [put?, walk?]
  cases setdefault? h v key <;> rfl

end

/-! ### A walk -/

namespace Document

variable {d : Document κ σ} {edits : Edits κ σ} {a b : Name κ} {key : κ}
  {entries : κ → Option (Value κ σ)} {e : Name κ × κ}

theorem absent_iff (hdict : d.heap a = .dict entries) :
  d.Absent (a, key) ↔ entries key = none
  := by
  simp [Absent, child?, hdict]

theorem next?_of_dict (hdict : d.heap a = .dict entries) (key : κ) :
  d.next? a key = name? d.heap ((entries key).getD (madeAt (a, key)))
  := by
  rw [next?, hdict]
  rfl

/-- The next dictionary is one that the entry refers to, or that is made for it. -/
theorem next?_eq_some (hdict : d.heap a = .dict entries) (hnext : d.next? a key = some b) :
  (entries key).getD (madeAt (a, key)) = .ref b ∧ ∃ entries', d.heap b = .dict entries'
  := by
  rw [next?_of_dict hdict] at hnext
  exact name?_eq_some hnext

theorem resolve?_cons {keys : List κ} {steps : List (Name κ × κ)} {c : Name κ} :
  d.resolve? a (key :: keys) = some (steps, c) ↔
    ∃ b steps', d.next? a key = some b ∧ d.resolve? b keys = some (steps', c)
      ∧ steps = (a, key) :: steps'
  := by
  simp only [resolve?, Option.bind_eq_bind, Option.bind_eq_some_iff, Option.pure_def,
    Option.some.injEq, Prod.mk.injEq]
  constructor
  · rintro ⟨b, hnext, ⟨steps', c'⟩, hresolve, hsteps, rfl⟩
    exact ⟨b, steps', hnext, hresolve, hsteps.symm⟩
  · rintro ⟨b, steps', hnext, hresolve, rfl⟩
    exact ⟨b, hnext, (steps', c), hresolve, rfl, rfl⟩

variable [DecidableEq κ]

theorem step_of_missing (habsent : d.Absent e) (hedit : edits e = none) :
  d.step edits e = Function.update edits e (some (madeAt e))
  := if_pos ⟨habsent, Option.isNone_iff_eq_none.mpr hedit⟩

theorem step_of_present (hpresent : ¬ (d.Absent e ∧ edits e = none)) :
  d.step edits e = edits
  := if_neg fun h => hpresent ⟨h.1, Option.isNone_iff_eq_none.mp h.2⟩

theorem free_step :
  Free (d.step edits e) = Free edits
  := by
  by_cases hmissing : d.Absent e ∧ edits e = none
  · rw [step_of_missing hmissing.1 hmissing.2]
    funext e'
    by_cases he : e' = e
    · subst he
      simp [Free, madeAt, hmissing.2]
    · simp [Free, he]
  · rw [step_of_present hmissing]

theorem sound_step (hsound : d.Sound edits) :
  d.Sound (d.step edits e)
  := by
  by_cases hmissing : d.Absent e ∧ edits e = none
  · rw [step_of_missing hmissing.1 hmissing.2]
    intro e' b hb
    by_cases he : e' = e
    · subst he
      rw [Function.update_self] at hb
      exact ⟨(Option.some.inj hb).symm, hmissing.1⟩
    · rw [Function.update_of_ne he] at hb
      exact hsound e' b hb
  · rwa [step_of_present hmissing]

theorem edit_cons (steps : List (Name κ × κ)) (loc : Name κ × κ) (value : σ) :
  d.edit (d.step edits e) ⟨steps, loc, value⟩ = d.edit edits ⟨e :: steps, loc, value⟩
  := by
  by_cases hmissing : d.Absent e ∧ edits e = none
  · rw [step_of_missing hmissing.1 hmissing.2]
    funext e'
    by_cases he : e' = e
    · subst he
      simp [edit, hmissing]
    · simp [edit, he]
  · rw [step_of_present hmissing]
    funext e'
    by_cases he : e' = e
    · subst he
      simp [edit, hmissing]
    · simp [edit, he]

/-- The walk goes on at a dictionary of the document, or at one that is made. -/
theorem setdefault?_of_next? (hsound : d.Sound edits) (hdict : d.heap a = .dict entries)
    (hfree : Free edits (a, key)) (hnext : d.next? a key = some b) :
  setdefault? (overlay d.heap edits) (.ref a) key =
    some (overlay d.heap (d.step edits (a, key)), .ref b)
  := by
  obtain ⟨hb, _⟩ := next?_eq_some hdict hnext
  rw [setdefault?, dict?_of_dict (overlay_of_dict hdict), Option.map_some]
  congr 1
  cases hedit : edits (a, key) with
  | some v =>
      cases v with
      | scalar s => exact absurd hedit (hfree s)
      | ref c =>
          obtain ⟨hc, habsent⟩ := hsound _ _ hedit
          rw [(absent_iff hdict).mp habsent, Option.getD_none] at hb
          rw [step_of_present (by simp [hedit])]
          simp [hedit, hc, hb]
  | none =>
      cases hentry : entries key with
      | some v =>
          rw [hentry, Option.getD_some] at hb
          rw [step_of_present (by simp [absent_iff hdict, hentry])]
          simp [hedit, hentry, hb]
      | none =>
          rw [hentry, Option.getD_none] at hb
          rw [step_of_missing ((absent_iff hdict).mpr hentry) hedit, ← update_overlay hdict, ← hb]
          simp only [hedit, hentry, Option.or_none]
          rfl

/-- Otherwise it comes to a value that is no dictionary. -/
theorem setdefault?_of_blocked (hdict : d.heap a = .dict entries)
    (hblocked : ¬ (Free edits (a, key) ∧ d.next? a key ≠ none)) (hsound : d.Sound edits) :
  ∃ v, setdefault? (overlay d.heap edits) (.ref a) key = some (overlay d.heap edits, v)
    ∧ name? (overlay d.heap edits) v = none
  := by
  simp only [name?_overlay]
  rw [setdefault?, dict?_of_dict (overlay_of_dict hdict), Option.map_some]
  rw [next?_of_dict hdict] at hblocked
  have hmade : name? d.heap (madeAt (a, key)) = some (.made a key) :=
    name?_of_dict (d.heap_made a key)
  cases hedit : edits (a, key) with
  | some v =>
      use v
      simp only [hedit, Option.some_or, true_and]
      cases v with
      | scalar s => rfl
      | ref c =>
          exfalso
          obtain ⟨hc, habsent⟩ := hsound _ _ hedit
          apply hblocked
          rw [(absent_iff hdict).mp habsent, Option.getD_none, hmade]
          exact ⟨by simp [Free, hedit], by simp⟩
  | none =>
      have hfree : Free edits (a, key) := by simp [Free, hedit]
      cases hentry : entries key with
      | some v =>
          use v
          rw [hentry, Option.getD_some] at hblocked
          simp only [hedit, hentry, Option.none_or, true_and]
          by_contra hname
          exact hblocked ⟨hfree, hname⟩
      | none =>
          exfalso
          rw [hentry, Option.getD_none, hmade] at hblocked
          exact hblocked ⟨hfree, by simp⟩

/-- A scalar is put at a path exactly if the path resolves and no scalar has been put on the
way. -/
theorem put?_overlay_eq_some {dir : List κ} {leaf : κ} {value : σ} {h : Heap κ σ}
    (hsound : d.Sound edits) (hdict : d.heap a = .dict entries) :
  put? (overlay d.heap edits) (.ref a) dir leaf (.scalar value) = some h ↔
    ∃ steps c, d.resolve? a dir = some (steps, c) ∧ (∀ e ∈ steps, Free edits e)
      ∧ h = overlay d.heap (d.edit edits ⟨steps, (c, leaf), value⟩)
  := by
  induction dir generalizing a edits entries with
  | nil =>
      have hedit : d.edit edits ⟨[], (a, leaf), value⟩ =
          Function.update edits (a, leaf) (some (.scalar value)) := by
        funext e
        simp [edit, Function.update_apply]
      simp [put?, walk?, resolve?, setItem?_overlay hdict, hedit, eq_comm]
  | cons key keys ih =>
      rw [put?_cons]
      by_cases hgoes : Free edits (a, key) ∧ d.next? a key ≠ none
      · obtain ⟨hfree, hnext⟩ := hgoes
        obtain ⟨b, hb⟩ := Option.ne_none_iff_exists'.mp hnext
        obtain ⟨_, entries', hdict'⟩ := next?_eq_some hdict hb
        rw [setdefault?_of_next? hsound hdict hfree hb, Option.bind_some,
          ih (sound_step hsound) hdict']
        rw [free_step]
        constructor
        · rintro ⟨steps, c, hresolve, hsteps, rfl⟩
          exact ⟨(a, key) :: steps, c, resolve?_cons.mpr ⟨b, steps, hb, hresolve, rfl⟩,
            List.forall_mem_cons.mpr ⟨hfree, hsteps⟩, by rw [edit_cons]⟩
        · rintro ⟨steps, c, hresolve, hsteps, rfl⟩
          obtain ⟨b', steps', hb', hresolve', rfl⟩ := resolve?_cons.mp hresolve
          obtain rfl := Option.some.inj (hb.symm.trans hb')
          exact ⟨steps', c, hresolve', (List.forall_mem_cons.mp hsteps).2, by rw [edit_cons]⟩
      · obtain ⟨v, hsetdefault, hname⟩ := setdefault?_of_blocked hdict hgoes hsound
        rw [hsetdefault, Option.bind_some, put?_of_name? hname]
        constructor
        · rintro ⟨⟩
        · rintro ⟨steps, c, hresolve, hfree, _⟩
          obtain ⟨b, steps', hnext, _, rfl⟩ := resolve?_cons.mp hresolve
          exact absurd ⟨hfree _ List.mem_cons_self, by simp [hnext]⟩ hgoes

/-! ### Assignments one after the other -/

variable {w : Write κ σ} {x : Assignment κ σ}

omit [DecidableEq κ] in
theorem write?_eq_some :
  d.write? x = some w ↔ ∃ a steps c, name? d.heap d.root = some a
    ∧ d.resolve? a x.dir = some (steps, c) ∧ w = ⟨steps, (c, x.leaf), x.value⟩
  := by
  simp only [write?, Option.bind_eq_bind, Option.bind_eq_some_iff, Option.pure_def,
    Option.some.injEq]
  constructor
  · rintro ⟨a, hname, ⟨steps, c⟩, hresolve, rfl⟩
    exact ⟨a, steps, c, hname, hresolve, rfl⟩
  · rintro ⟨a, steps, c, hname, hresolve, rfl⟩
    exact ⟨a, hname, (steps, c), hresolve, rfl⟩

theorem put?_root_eq_some {h : Heap κ σ} (hsound : d.Sound edits) :
  put? (overlay d.heap edits) d.root x.dir x.leaf (.scalar x.value) = some h ↔
    ∃ w, d.write? x = some w ∧ (∀ e ∈ w.steps, Free edits e)
      ∧ h = overlay d.heap (d.edit edits w)
  := by
  cases hname : name? d.heap d.root with
  | none =>
      rw [put?_of_name? (by rwa [name?_overlay])]
      simp [write?, hname]
  | some a =>
      obtain ⟨hroot, entries, hdict⟩ := name?_eq_some hname
      rw [hroot, put?_overlay_eq_some hsound hdict]
      constructor
      · rintro ⟨steps, c, hresolve, hfree, rfl⟩
        exact ⟨_, write?_eq_some.mpr ⟨a, steps, c, hname, hresolve, rfl⟩, hfree, rfl⟩
      · rintro ⟨w, hwrite, hfree, rfl⟩
        obtain ⟨a', steps, c, hname', hresolve, rfl⟩ := write?_eq_some.mp hwrite
        obtain rfl := Option.some.inj (hname.symm.trans hname')
        exact ⟨steps, c, hresolve, hfree, rfl⟩

theorem free_edit :
  Free (d.edit edits w) e ↔ e ≠ w.loc ∧ Free edits e
  := by
  unfold edit
  by_cases hloc : e = w.loc
  · simp [Free, hloc]
  · by_cases hmade : e ∈ w.steps ∧ d.Absent e ∧ (edits e).isNone
    · simp [Free, hloc, hmade, madeAt, Option.isNone_iff_eq_none.mp hmade.2.2]
    · simp only [Free, if_neg hloc, if_neg hmade]
      tauto

theorem sound_edit (hsound : d.Sound edits) :
  d.Sound (d.edit edits w)
  := by
  intro e b hb
  unfold edit at hb
  split_ifs at hb with hloc hmade
  · cases hb
  · exact ⟨(Option.some.inj hb).symm, hmade.2.1⟩
  · exact hsound e b hb

/-- Assignments succeed exactly if all of them have a place in the document, and none of them
has put a scalar on the way of a later one. -/
theorem putAll?_eq_some {xs : List (Assignment κ σ)} {h : Heap κ σ} (hsound : d.Sound edits) :
  putAll? (overlay d.heap edits) d.root xs = some h ↔
    ∃ ws, List.Forall₂ (fun x w => d.write? x = some w) xs ws
      ∧ (∀ w ∈ ws, ∀ e ∈ w.steps, Free edits e)
      ∧ ws.Pairwise (fun w w' => w.loc ∉ w'.steps)
      ∧ h = overlay d.heap (ws.foldl d.edit edits)
  := by
  induction xs generalizing edits with
  | nil =>
      constructor
      · rintro ⟨⟩
        exact ⟨[], .nil, by simp, .nil, rfl⟩
      · rintro ⟨_, ⟨⟩, _, _, rfl⟩
        rfl
  | cons x xs ih =>
      rw [putAll?, List.foldlM_cons, Option.bind_eq_bind, Option.bind_eq_some_iff]
      simp only [put?_root_eq_some hsound]
      constructor
      · rintro ⟨_, ⟨w, hwrite, hfree, rfl⟩, hrest⟩
        obtain ⟨ws, hws, hfree', hpairwise, rfl⟩ := (ih (sound_edit hsound)).mp hrest
        refine ⟨w :: ws, .cons hwrite hws, ?_, ?_, rfl⟩
        · rintro w' (_ | ⟨_, hw'⟩) e he
          · exact hfree e he
          · exact (free_edit.mp (hfree' w' hw' e he)).2
        · refine List.pairwise_cons.mpr ⟨?_, hpairwise⟩
          intro w' hw' hloc
          exact (free_edit.mp (hfree' w' hw' _ hloc)).1 rfl
      · rintro ⟨_, ⟨⟩ | @⟨_, w, _, ws, hwrite, hws⟩, hfree, hpairwise, rfl⟩
        obtain ⟨hloc, hpairwise⟩ := List.pairwise_cons.mp hpairwise
        refine ⟨_, ⟨w, hwrite, hfree w List.mem_cons_self, rfl⟩, ?_⟩
        refine (ih (sound_edit hsound)).mpr ⟨ws, hws, ?_, hpairwise, rfl⟩
        intro w' hw' e he
        refine free_edit.mpr ⟨?_, hfree w' (List.mem_cons_of_mem w hw') e he⟩
        rintro rfl
        exact hloc w' hw' he

/-! ### Assignments to a document -/

omit [DecidableEq κ] in
theorem forall₂_write?_iff {xs : List (Assignment κ σ)} {ws : List (Write κ σ)} :
  List.Forall₂ (fun x w => d.write? x = some w) xs ws ↔
    (∀ x ∈ xs, (d.write? x).isSome) ∧ ws = xs.filterMap d.write?
  := by
  induction xs generalizing ws with
  | nil => simp
  | cons x xs ih =>
      rw [List.forall_mem_cons]
      cases hwrite : d.write? x with
      | none => simp [List.forall₂_cons_left_iff, hwrite]
      | some w =>
          simp only [List.forall₂_cons_left_iff, ih, List.filterMap_cons_some hwrite, hwrite]
          constructor
          · rintro ⟨w', ws', hw', ⟨hall, rfl⟩, rfl⟩
            exact ⟨⟨rfl, hall⟩, by rw [Option.some.inj hw']⟩
          · rintro ⟨⟨_, hall⟩, rfl⟩
            exact ⟨w, _, rfl, ⟨hall, rfl⟩, rfl⟩

variable (d) in
/-- The edits that assignments make in the document. -/
def editsOf (xs : List (Assignment κ σ)) : Edits κ σ :=
  (xs.filterMap d.write?).foldl d.edit fun _ => none

theorem putAll?_heap_eq_some {xs : List (Assignment κ σ)} {h : Heap κ σ} :
  putAll? d.heap d.root xs = some h ↔
    (∀ x ∈ xs, (d.write? x).isSome)
      ∧ (xs.filterMap d.write?).Pairwise (fun w w' => w.loc ∉ w'.steps)
      ∧ h = overlay d.heap (d.editsOf xs)
  := by
  have hsound : d.Sound fun _ => none := by
    rintro _ _ ⟨⟩
  rw [← overlay_none d.heap, putAll?_eq_some hsound, overlay_none]
  simp only [forall₂_write?_iff]
  constructor
  · rintro ⟨_, ⟨hall, rfl⟩, _, hpairwise, rfl⟩
    exact ⟨hall, hpairwise, rfl⟩
  · rintro ⟨hall, hpairwise, rfl⟩
    exact ⟨_, ⟨hall, rfl⟩, by simp [Free], hpairwise, rfl⟩

/-! ### The order of assignments -/

theorem edit_comm {w w' : Write κ σ} (h : Apart w w') :
  d.edit (d.edit edits w) w' = d.edit (d.edit edits w') w
  := by
  funext e
  by_cases hloc : e = w.loc
  · subst hloc
    simp [edit, h.loc_ne, h.not_mem_steps]
  · by_cases hloc' : e = w'.loc
    · subst hloc'
      simp [edit, h.loc_ne.symm, h.not_mem_steps']
    · simp only [edit, if_neg hloc, if_neg hloc']
      split_ifs <;> simp_all

theorem foldl_edit_perm {ws ws' : List (Write κ σ)} (hperm : ws.Perm ws')
    (hapart : ws.Pairwise Apart) :
  ws.foldl d.edit edits = ws'.foldl d.edit edits
  := by
  refine hperm.foldl_eq' ?_ edits
  intro w hw w' hw' edits
  by_cases heq : w = w'
  · rw [heq]
  · exact edit_comm (hapart.forall hw hw' heq)

/-- An entry at which nothing is put is made if it is missing and passed. -/
theorem foldl_edit_of_ne_loc {ws : List (Write κ σ)} (hloc : ∀ w ∈ ws, e ≠ w.loc) :
  ws.foldl d.edit edits e =
    if (∃ w ∈ ws, e ∈ w.steps) ∧ d.Absent e ∧ (edits e).isNone then some (madeAt e)
    else edits e
  := by
  induction ws generalizing edits with
  | nil => simp
  | cons w ws ih =>
      obtain ⟨hhead, htail⟩ := List.forall_mem_cons.mp hloc
      rw [List.foldl_cons, ih htail]
      simp only [edit, if_neg hhead]
      by_cases hmissing : d.Absent e ∧ (edits e).isNone
      · by_cases hstep : e ∈ w.steps
        · simp [hmissing, hstep]
        · simp [hmissing, hstep]
      · have hfalse (P : Prop) : ¬ (P ∧ d.Absent e ∧ (edits e).isNone) := fun h => hmissing h.2
        rw [if_neg (hfalse (e ∈ w.steps)), if_neg (hfalse _), if_neg (hfalse _)]

/-- What is put somewhere stays there. -/
theorem foldl_edit_loc {ws : List (Write κ σ)} (hapart : ws.Pairwise Apart) (hw : w ∈ ws) :
  ws.foldl d.edit edits w.loc = some (.scalar w.value)
  := by
  obtain ⟨before, after, rfl⟩ := List.append_of_mem hw
  have hafter : ∀ w' ∈ after, w.loc ≠ w'.loc := by
    intro w' hw'
    have hpair := (List.pairwise_append.mp hapart).2.1
    exact ((List.pairwise_cons.mp hpair).1 w' hw').loc_ne
  rw [List.foldl_append, List.foldl_cons, foldl_edit_of_ne_loc hafter]
  simp [edit]

end Document

end ObjectGraph
