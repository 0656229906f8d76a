import OllamaQueueProxy.Library.ObjectTree
import OllamaQueueProxy.Library.Unicode

/-!
# Overrides from the environment

`_apply_env_overrides` puts the values of variables whose names begin with `OQP_` into the tree
that was read from the configuration file, before anything is validated.  The name of a variable
gives the path, and intermediate dictionaries are made as they are needed.
-/

open Json (Text text)
open ObjectGraph

namespace OllamaQueueProxy

/-! ### Values -/

/-- A key of a dictionary that was read: a string, or something else, by how it is shown. -/
inductive Key where
  | str (t : Text)
  | other (shown : Text)
  deriving DecidableEq

/-- A value that is neither a dictionary nor a list. -/
inductive Scalar where
  | null
  | bool (b : Bool)
  | int (n : ℤ)
  | str (t : Text)
  | other (shown : Text) (truthy : Bool)
  deriving DecidableEq

/-- The exceptions of the operations on values. -/
inductive PyException where
  | attributeError
  | typeError
  | valueError
  deriving DecidableEq

/-! ### Overrides -/

/-- `split("__")`. -/
def splitParts : Text → List Text
  | [] => [[]]
  | 95 :: 95 :: t => [] :: splitParts t
  | c :: t =>
      match splitParts t with
      | [] => [[c]]
      | part :: parts => (c :: part) :: parts

theorem splitParts_ne_nil (t : Text) :
  splitParts t ≠ []
  := by
  fun_cases splitParts t <;> simp_all

/-- A variable that is applied. -/
structure Override where
  parts : List Text
  value : Text
  parts_ne_nil : parts ≠ []

variable (numerals : Numerals)

/-- The override that a variable stands for, given with its value.  There is none if the name has
another prefix, or if a part of it consists of digits. -/
def override? : Text × Text → Option Override
  | (key, value) =>
      if (text "OQP_").isPrefixOf key then
        let parts := splitParts (numerals.lower (key.drop 4))
        if parts.any numerals.allDigits then none
        else some ⟨parts, value, splitParts_ne_nil _⟩
      else none

/-- The value with booleans and integers coerced, unless `int` fails. -/
def coerce? (value : Text) : Option Scalar :=
  if numerals.lower value = text "true" ∨ numerals.lower value = text "false" then
    some (.bool (numerals.lower value = text "true"))
  else if numerals.allDigits value then (numerals.int? value).map fun n : ℕ => .int n
  else some (.str value)

namespace Override

/-- `parts[:-1]`. -/
def dir (o : Override) : List Key := o.parts.dropLast.map .str

/-- `parts[-1]`. -/
def leaf (o : Override) : Key := .str (o.parts.getLast o.parts_ne_nil)

/-- The path of an override. -/
def path (o : Override) : List Key := o.parts.map .str

/-- An override is applied: its path is walked, its value coerced, and the item set. -/
def apply (o : Override) (h : Heap Key Scalar) (data : Value Key Scalar) :
    Except PyException (Heap Key Scalar) :=
  match walk? h data o.dir with
  | none => .error .attributeError
  | some (h, target) =>
      match coerce? numerals o.value with
      | none => .error .valueError
      | some value =>
          match setItem? h target o.leaf (.scalar value) with
          | none => .error .typeError
          | some h => .ok h

/-- The assignment that an override makes. -/
def assignment? (o : Override) : Option (Assignment Key Scalar) :=
  (coerce? numerals o.value).map fun value => ⟨o.dir, o.leaf, value⟩

end Override

/-- `_apply_env_overrides`, for the variables in the order of their iteration. -/
def applyEnvOverrides (data : Value Key Scalar) (h : Heap Key Scalar)
    (environ : List (Text × Text)) : Except PyException (Heap Key Scalar) :=
  environ.foldlM (fun h item =>
    match override? numerals item with
    | none => .ok h
    | some o => o.apply numerals h data) h

/-- The overrides of an environment. -/
def overrides (environ : List (Text × Text)) : List Override :=
  environ.filterMap (override? numerals)

/-! ### Overrides as assignments -/

variable {numerals} {h h' : Heap Key Scalar} {data : Value Key Scalar}
  {environ environ' : List (Text × Text)} {o : Override}

theorem Override.apply_eq_ok :
  o.apply numerals h data = .ok h' ↔
    ∃ x, o.assignment? numerals = some x
      ∧ put? h data x.dir x.leaf (.scalar x.value) = some h'
  := by
  simp only [assignment?, Option.map_eq_some_iff, apply, put?]
  cases hvalue : coerce? numerals o.value with
  | none => cases walk? h data o.dir <;> simp
  | some value =>
      cases hwalk : walk? h data o.dir with
      | none => simp [hwalk]
      | some x =>
          obtain ⟨h₁, target⟩ := x
          cases hset : setItem? h₁ target o.leaf (.scalar value) <;> simp [hwalk, hset]

/-- A variable that is no override is passed over. -/
theorem applyEnvOverrides_cons_of_none {item : Text × Text}
    (hnone : override? numerals item = none) :
  applyEnvOverrides numerals data h (item :: environ) = applyEnvOverrides numerals data h environ
  := by
  simp only [applyEnvOverrides, List.foldlM_cons, hnone]
  rfl

/-- An override is applied before those that follow. -/
theorem applyEnvOverrides_cons_of_some {item : Text × Text}
    (hsome : override? numerals item = some o) :
  applyEnvOverrides numerals data h (item :: environ) = .ok h' ↔
    ∃ h₁, o.apply numerals h data = .ok h₁
      ∧ applyEnvOverrides numerals data h₁ environ = .ok h'
  := by
  simp only [applyEnvOverrides, List.foldlM_cons, hsome]
  cases o.apply numerals h data <;> simp [bind, Except.bind]

/-- Overrides succeed exactly if all values can be coerced and all assignments succeed. -/
theorem applyEnvOverrides_eq_ok :
  applyEnvOverrides numerals data h environ = .ok h' ↔
    (∀ o ∈ overrides numerals environ, (coerce? numerals o.value).isSome)
      ∧ putAll? h data ((overrides numerals environ).filterMap (Override.assignment? numerals)) =
        some h'
  := by
  induction environ generalizing h with
  | nil => simp [applyEnvOverrides, overrides, putAll?, pure, Except.pure]
  | cons item environ ih =>
      cases hoverride : override? numerals item with
      | none =>
          rw [applyEnvOverrides_cons_of_none hoverride, ih, overrides, overrides,
            List.filterMap_cons_none hoverride]
      | some o =>
          rw [applyEnvOverrides_cons_of_some hoverride, overrides,
            List.filterMap_cons_some hoverride, List.forall_mem_cons]
          simp only [Override.apply_eq_ok, ih]
          cases hvalue : coerce? numerals o.value with
          | none => simp [Override.assignment?, hvalue]
          | some s =>
              have hx : o.assignment? numerals = some ⟨o.dir, o.leaf, s⟩ := by
                rw [Override.assignment?, hvalue]
                rfl
              rw [List.filterMap_cons_some hx, putAll?, List.foldlM_cons, Option.bind_eq_bind,
                Option.bind_eq_some_iff]
              simp only [hx, Option.some.injEq, exists_eq_left', Option.isSome_some, true_and]
              constructor
              · rintro ⟨h₁, hput, hvalues, hrest⟩
                exact ⟨hvalues, h₁, hput, hrest⟩
              · rintro ⟨hvalues, h₁, hput, hrest⟩
                exact ⟨h₁, hput, hvalues, hrest⟩

theorem Override.path_eq (o : Override) :
  o.path = o.dir ++ [o.leaf]
  := by
  rw [path, dir, leaf, ← List.map_singleton, ← List.map_append,
    List.dropLast_append_getLast o.parts_ne_nil]

theorem Override.assignment?_eq_some {x : Assignment Key Scalar} :
  o.assignment? numerals = some x ↔
    coerce? numerals o.value = some x.value ∧ x.dir = o.dir ∧ x.leaf = o.leaf
  := by
  rw [assignment?, Option.map_eq_some_iff]
  constructor
  · rintro ⟨s, hs, rfl⟩
    exact ⟨hs, rfl, rfl⟩
  · rintro ⟨hvalue, hdir, hleaf⟩
    exact ⟨x.value, hvalue, by rw [← hdir, ← hleaf]⟩

theorem Override.path_of_assignment? {x : Assignment Key Scalar}
    (hx : o.assignment? numerals = some x) :
  x.path = o.path
  := by
  obtain ⟨_, hdir, hleaf⟩ := assignment?_eq_some.mp hx
  rw [Assignment.path, hdir, hleaf, path_eq]

/-- An assignment of an environment is made at the path of an override. -/
theorem exists_override_of_mem {x : Assignment Key Scalar}
    (hx : x ∈ (overrides numerals environ).filterMap (Override.assignment? numerals)) :
  ∃ o ∈ overrides numerals environ, x.dir = o.dir ∧ x.path = o.path
  := by
  obtain ⟨o, ho, hassignment⟩ := List.mem_filterMap.mp hx
  exact ⟨o, ho, (Override.assignment?_eq_some.mp hassignment).2.1,
    Override.path_of_assignment? hassignment⟩

/-! ### Independence of the order -/

variable {d : Document Key Scalar}

theorem separate_assignments (htree : d.IsTree)
    (hruns : ∀ o ∈ overrides numerals environ, d.RunsThrough o.dir)
    (hpaths : (overrides numerals environ).Pairwise fun o o' =>
      ¬ o.path <+: o'.path ∧ ¬ o'.path <+: o.path) :
  Separate d ((overrides numerals environ).filterMap (Override.assignment? numerals))
  where
  isTree := htree
  runsThrough x hx := by
    obtain ⟨o, ho, hdir, _⟩ := exists_override_of_mem hx
    rw [hdir]
    exact hruns o ho
  not_begins := by
    refine List.pairwise_filterMap.mpr (hpaths.imp fun hpath x hx y hy => ?_)
    rwa [Override.path_of_assignment? hx, Override.path_of_assignment? hy]

variable (numerals d environ) in
/-- The objects are those of the document with the overrides of the environment, and nothing else
changed. -/
structure Overrides (h : Heap Key Scalar) : Prop where
  value : ∀ o ∈ overrides numerals environ, ∃ s, coerce? numerals o.value = some s
    ∧ look? h d.root (keyPath o.path) = some (.scalar s)
  /-- What was there stays, unless an override is at its path or at a beginning of it. -/
  kept : ∀ p, (∀ o ∈ overrides numerals environ, ¬ keyPath o.path <+: p) →
    look? d.heap d.root p ≠ none → look? h d.root p = look? d.heap d.root p
  /-- Nothing is new but the values and the dictionaries on the way to them. -/
  absent : ∀ p, (∀ o ∈ overrides numerals environ,
      ¬ keyPath o.path <+: p ∧ ¬ p <+: keyPath o.path) →
    look? d.heap d.root p = none → look? h d.root p = none

theorem overrides_of_separate
    (hvalues : ∀ o ∈ overrides numerals environ, (coerce? numerals o.value).isSome)
    (hseparate : Separate d
      ((overrides numerals environ).filterMap (Override.assignment? numerals))) :
  Overrides numerals environ d (overlay d.heap
    (d.editsOf ((overrides numerals environ).filterMap (Override.assignment? numerals))))
  where
  value o ho := by
    obtain ⟨s, hs⟩ := Option.isSome_iff_exists.mp (hvalues o ho)
    have hx : o.assignment? numerals = some ⟨o.dir, o.leaf, s⟩ :=
      Override.assignment?_eq_some.mpr ⟨hs, rfl, rfl⟩
    refine ⟨s, hs, ?_⟩
    rw [← Override.path_of_assignment? hx]
    exact hseparate.look?_path (List.mem_filterMap.mpr ⟨o, ho, hx⟩)
  kept p hp := by
    refine hseparate.look?_of_ne_none fun x hx => ?_
    obtain ⟨o, ho, _, hpath⟩ := exists_override_of_mem hx
    rw [hpath]
    exact hp o ho
  absent p hp := by
    refine hseparate.look?_of_none fun x hx => ?_
    obtain ⟨o, ho, _, hpath⟩ := exists_override_of_mem hx
    rw [hpath]
    exact hp o ho

/-- Overrides of a nested mapping of which no path begins with another have one result in any
order of the variables. -/
theorem applyEnvOverrides_confluent (htree : d.IsTree)
    (hruns : ∀ o ∈ overrides numerals environ, d.RunsThrough o.dir)
    (hvalues : ∀ o ∈ overrides numerals environ, (coerce? numerals o.value).isSome)
    (hpaths : (overrides numerals environ).Pairwise fun o o' =>
      ¬ o.path <+: o'.path ∧ ¬ o'.path <+: o.path) :
  ∃ h, Overrides numerals environ d h
    ∧ ∀ environ' : List (Text × Text), environ'.Perm environ →
      applyEnvOverrides numerals d.root d.heap environ' = .ok h
  := by
  have hseparate := separate_assignments htree hruns hpaths
  refine ⟨_, overrides_of_separate hvalues hseparate, fun environ' hperm => ?_⟩
  have hoverrides := hperm.filterMap (override? numerals)
  refine applyEnvOverrides_eq_ok.mpr ⟨fun o ho => hvalues o (hoverrides.mem_iff.mp ho), ?_⟩
  exact hseparate.putAll?_of_perm (hoverrides.filterMap _)

/-- The objects of a file that sets `proxy.port` only. -/
def portHeap : Heap Key Scalar
  | .object 0 =>
      .dict fun key => if key = .str (text "proxy") then some (.ref (.object 1)) else none
  | .object 1 =>
      .dict fun key => if key = .str (text "port") then some (.scalar (.int 11435)) else none
  | _ => .dict fun _ => none

theorem child?_portHeap {a b : Name Key} {s : Step Key}
    (hchild : child? portHeap (.ref a) s = some (.ref b)) :
  a = .object 0 ∧ s = .key (.str (text "proxy")) ∧ b = .object 1
  := by
  match a, s with
  | .object 0, .key key =>
      simp only [child?, portHeap] at hchild
      split_ifs at hchild with hkey
      exact ⟨rfl, congrArg Step.key hkey, (Value.ref.inj (Option.some.inj hchild)).symm⟩
  | .object 1, .key key =>
      simp only [child?, portHeap] at hchild
      split_ifs at hchild
      cases hchild

/-- The document of the file. -/
def portDocument : Document Key Scalar :=
  .ofHeap portHeap (fun _ _ => rfl) fun {v _ _ _} h => by
    cases v with
    | scalar s => cases h
    | ref b => cases (child?_portHeap h).2.2

theorem isTree_portDocument :
  portDocument.IsTree
  := by
  refine Document.isTree_of_child_unique (fun hchild hchild' => ?_) fun hchild => ?_
  · obtain ⟨rfl, rfl, _⟩ := child?_portHeap hchild
    obtain ⟨rfl, rfl, _⟩ := child?_portHeap hchild'
    exact ⟨rfl, rfl⟩
  · cases (child?_portHeap hchild).2.2

/-- The port is changed, and a missing section added. -/
theorem applyEnvOverrides_confluent_port :
  ∃ h, Overrides .ascii
      [(text "OQP_PROXY__PORT", text "9999"), (text "OQP_AUTH__ENABLED", text "True")]
      portDocument h
    ∧ ∀ environ' : List (Text × Text), environ'.Perm
        [(text "OQP_PROXY__PORT", text "9999"), (text "OQP_AUTH__ENABLED", text "True")] →
      applyEnvOverrides .ascii portDocument.root portDocument.heap environ' = .ok h
  := by
  refine applyEnvOverrides_confluent isTree_portDocument ?_ (by decide)
    (by decide)
  simp only [Document.runsThrough_iff]
  decide

end OllamaQueueProxy
