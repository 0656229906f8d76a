import Mathlib.Tactic.Use

/-!
# Programs with operations

A program returns a value, or it calls an operation and goes on with the answer it gets.
What the operations do is left open: any answer may come, or any that a relation between
operations and answers admits.  An assertion about a program says of every operation it
calls, after every history of operations and answers, that it is called rightly.
-/

/-- A program whose operations are of type `ι`; the operation `i` is answered by a value of
type `ρ i`. -/
inductive Program (ι : Type) (ρ : ι → Type) (α : Type) where
  | pure (a : α)
  | call (i : ι) (next : ρ i → Program ι ρ α)

namespace Program

variable {ι : Type} {ρ : ι → Type} {α β : Type}

def bind (p : Program ι ρ α) (f : α → Program ι ρ β) : Program ι ρ β :=
  match p with
  | .pure a => f a
  | .call i next => .call i fun r => (next r).bind f

instance : Monad (Program ι ρ) where
  pure := pure
  bind := bind

/-- The program has returned. -/
def returned : Program ι ρ α → Bool
  | .pure _ => true
  | .call _ _ => false

/-- The program that calls an operation and returns its answer. -/
def perform (i : ι) : Program ι ρ (ρ i) := .call i pure

/-! ### Executions -/

/-- An operation with its answer. -/
abbrev Event (ρ : ι → Type) : Type := (i : ι) × ρ i

/-- `Reaches admits p es q` holds if the events `es` lead from the program `p` to what
remains of it, `q`, and all answers are admitted. -/
inductive Reaches (admits : (i : ι) → ρ i → Prop) :
    Program ι ρ α → List (Event ρ) → Program ι ρ α → Prop where
  | refl (p : Program ι ρ α) : Reaches admits p [] p
  | step {i : ι} {next : ρ i → Program ι ρ α} {r : ρ i} {es : List (Event ρ)}
      {q : Program ι ρ α} (hadmits : admits i r) (h : Reaches admits (next r) es q) :
      Reaches admits (.call i next) (⟨i, r⟩ :: es) q

variable {admits : (i : ι) → ρ i → Prop}

theorem Reaches.append {p q r : Program ι ρ α} {es fs : List (Event ρ)}
    (h : Reaches admits p es q) (h' : Reaches admits q fs r) :
  Reaches admits p (es ++ fs) r
  := by
  induction h with
  | refl => exact h'
  | step hadmits _ ih => exact .step hadmits (ih h')

/-- A program that calls an operation goes on with any answer that is admitted. -/
theorem Reaches.snoc {p : Program ι ρ α} {es : List (Event ρ)} {i : ι}
    {next : ρ i → Program ι ρ α} (h : Reaches admits p es (.call i next)) {r : ρ i}
    (hadmits : admits i r) :
  Reaches admits p (es ++ [⟨i, r⟩]) (next r)
  := h.append (.step hadmits (.refl (next r)))

/-- Every program returns, if there is an answer to every operation. -/
theorem exists_reaches {answer : (i : ι) → ρ i} (hadmits : ∀ i, admits i (answer i))
    (p : Program ι ρ α) :
  ∃ es a, Reaches admits p es (.pure a)
  := by
  induction p with
  | pure a => exact ⟨[], a, .refl _⟩
  | call i next ih =>
      obtain ⟨es, a, hreaches⟩ := ih (answer i)
      exact ⟨_, a, .step (hadmits i) hreaches⟩

/-- The events lead to one program only. -/
theorem Reaches.deterministic {p q q' : Program ι ρ α} {es : List (Event ρ)}
    (h : Reaches admits p es q) (h' : Reaches admits p es q') :
  q = q'
  := by
  induction h with
  | refl =>
      cases h' with
      | refl => rfl
  | step _ _ ih =>
      cases h' with
      | step _ htail => exact ih htail

/-- What a program reaches by some events of a run reaches the end of the run by the others. -/
theorem Reaches.of_append {p q r : Program ι ρ α} {es fs : List (Event ρ)}
    (h : Reaches admits p es q) (h' : Reaches admits p (es ++ fs) r) :
  Reaches admits q fs r
  := by
  induction h with
  | refl => exact h'
  | step _ _ ih =>
      cases h' with
      | step _ htail => exact ih htail

/-- A run passes through what remains after its first events. -/
theorem Reaches.append_inv {p r : Program ι ρ α} {es fs : List (Event ρ)}
    (h : Reaches admits p (es ++ fs) r) :
  ∃ q, Reaches admits p es q ∧ Reaches admits q fs r
  := by
  induction es generalizing p with
  | nil => exact ⟨p, .refl p, h⟩
  | cons e es ih =>
      cases h with
      | step hadmits htail =>
          obtain ⟨q, hq, hrest⟩ := ih htail
          exact ⟨q, .step hadmits hq, hrest⟩

/-- Whether a run is possible depends on the answers that come in it only. -/
theorem Reaches.of_forall {admits' : (i : ι) → ρ i → Prop} {p q : Program ι ρ α}
    {es : List (Event ρ)} (h : Reaches admits p es q) (hadmits : ∀ e ∈ es, admits' e.1 e.2) :
  Reaches admits' p es q
  := by
  induction h with
  | refl p => exact .refl p
  | step _ _ ih =>
      obtain ⟨hfirst, hrest⟩ := List.forall_mem_cons.mp hadmits
      exact .step hfirst (ih hrest)

/-- The second of two programs in a sequence starts when the first one has returned. -/
theorem Reaches.bind {p : Program ι ρ β} {f : β → Program ι ρ α} {es : List (Event ρ)} {b : β}
    (h : Reaches admits p es (.pure b)) :
  Reaches admits (p >>= f) es (f b)
  := by
  generalize hq : (.pure b : Program ι ρ β) = q at h
  induction h with
  | refl p =>
      obtain rfl := hq
      exact .refl (f b)
  | step hadmits _ ih => exact .step hadmits (ih hq)

/-- A sequence of programs that has returned ran the first one to its end, and then the
second. -/
theorem Reaches.bind_inv {p : Program ι ρ β} {f : β → Program ι ρ α} {es : List (Event ρ)} {a : α}
    (h : Reaches admits (p >>= f) es (.pure a)) :
  ∃ b es₁ es₂, es = es₁ ++ es₂ ∧ Reaches admits p es₁ (.pure b)
    ∧ Reaches admits (f b) es₂ (.pure a)
  := by
  change Reaches admits (p.bind f) es (.pure a) at h
  induction p generalizing es with
  | pure b => exact ⟨b, [], es, rfl, .refl _, h⟩
  | call i next ih =>
      cases h with
      | step hadmits htail =>
          obtain ⟨b, es₁, es₂, rfl, hfirst, hrest⟩ := ih _ htail
          exact ⟨b, _ :: es₁, es₂, rfl, .step hadmits hfirst, hrest⟩

/-- The execution of a program with replies of a single type, each of which `read?` turns
into an answer to the operation that is called, if it is one. -/
def run {β : Type} (read? : (i : ι) → β → Option (ρ i)) :
    Program ι ρ α → List β → Option (List (Event ρ) × Program ι ρ α)
  | p, [] => some ([], p)
  | .pure _, _ :: _ => none
  | .call i next, b :: bs => (read? i b).bind fun r =>
      (run read? (next r) bs).map fun (es, q) => (⟨i, r⟩ :: es, q)

/-- What a program is executed to, it reaches. -/
theorem reaches_of_run {read? : (i : ι) → β → Option (ρ i)} {p q : Program ι ρ α} {bs : List β}
    {es : List (Event ρ)} (h : run read? p bs = some (es, q))
    (hread : ∀ {i b r}, read? i b = some r → admits i r) :
  Reaches admits p es q
  := by
  induction bs generalizing p es with
  | nil =>
      obtain ⟨rfl, rfl⟩ : [] = es ∧ p = q := by simpa [run] using h
      exact .refl p
  | cons b bs ih =>
      cases p with
      | pure a => cases h
      | call i next =>
          obtain ⟨r, hr, htail⟩ := Option.bind_eq_some_iff.mp h
          obtain ⟨⟨fs, q'⟩, hrun, hpair⟩ := Option.map_eq_some_iff.mp htail
          obtain ⟨rfl, rfl⟩ := Prod.mk.inj hpair
          exact .step (hread hr) (ih hrun)

/-! ### Interpretations -/

section

variable {σ : Type} (act : (i : ι) → σ → Option (ρ i × σ))

/-- The result of a program whose operations act on a state, with the state after it; `none`
if an operation cannot be carried out. -/
def exec : Program ι ρ α → σ → Option (α × σ)
  | .pure a, s => some (a, s)
  | .call i next, s => (act i s).bind fun (r, s') => exec (next r) s'

@[simp]
theorem exec_pure (a : α) (s : σ) :
  exec act (Pure.pure a : Program ι ρ α) s = some (a, s)
  := rfl

theorem exec_call {i : ι} {next : ρ i → Program ι ρ α} {s s' : σ} {r : ρ i}
    (h : act i s = some (r, s')) :
  exec act (.call i next) s = exec act (next r) s'
  := by
  rw [exec, h]
  rfl

end

/-! ### Assertions -/

/-- After the history `h`, every operation the program calls satisfies `pre`, and its result
satisfies `post`, as long as all answers are admitted. -/
def Sat (admits : (i : ι) → ρ i → Prop) (pre : List (Event ρ) → ι → Prop)
    (post : List (Event ρ) → α → Prop) (h : List (Event ρ)) : Program ι ρ α → Prop
  | .pure a => post h a
  | .call i next =>
      pre h i ∧ ∀ r, admits i r → Sat admits pre post (h ++ [⟨i, r⟩]) (next r)

variable {pre : List (Event ρ) → ι → Prop} {post : List (Event ρ) → α → Prop}
variable {h : List (Event ρ)}

@[simp]
theorem sat_pure {a : α} :
  Sat admits pre post h (Pure.pure a : Program ι ρ α) ↔ post h a
  := Iff.rfl

theorem sat_call {i : ι} {next : ρ i → Program ι ρ α} :
  Sat admits pre post h (.call i next)
    ↔ pre h i ∧ ∀ r, admits i r → Sat admits pre post (h ++ [⟨i, r⟩]) (next r)
  := Iff.rfl

/-- An assertion about a sequence of programs is one about the first of them. -/
@[simp]
theorem sat_bind {p : Program ι ρ β} {f : β → Program ι ρ α} :
  Sat admits pre post h (p >>= f)
    ↔ Sat admits pre (fun h' b => Sat admits pre post h' (f b)) h p
  := by
  change Sat admits pre post h (p.bind f) ↔ _
  induction p generalizing h with
  | pure b => exact Iff.rfl
  | call i next ih =>
      rw [bind, sat_call, sat_call]
      apply and_congr_right'
      apply forall_congr'
      intro r
      apply imp_congr_right
      intro _
      apply ih

@[simp]
theorem sat_perform {i : ι} {post : List (Event ρ) → ρ i → Prop} :
  Sat admits pre post h (perform i) ↔ pre h i ∧ ∀ r, admits i r → post (h ++ [⟨i, r⟩]) r
  := Iff.rfl

theorem sat_perform_bind {i : ι} {f : ρ i → Program ι ρ α} :
  Sat admits pre post h (perform i >>= f)
    ↔ pre h i ∧ ∀ r, admits i r → Sat admits pre post (h ++ [⟨i, r⟩]) (f r)
  := Iff.rfl

/-- Assertions with weaker conditions hold as well. -/
theorem Sat.mono {p : Program ι ρ α} {pre' : List (Event ρ) → ι → Prop}
    {post' : List (Event ρ) → α → Prop} (hp : Sat admits pre post h p)
    (hpre : ∀ {h' i}, pre h' i → pre' h' i) (hpost : ∀ {h' a}, post h' a → post' h' a) :
  Sat admits pre' post' h p
  := by
  induction p generalizing h with
  | pure a => exact hpost hp
  | call i next ih =>
      use hpre hp.1
      intro r hr
      apply ih r (hp.2 r hr)

/-- Two assertions about a program hold together. -/
theorem Sat.and {p : Program ι ρ α} {pre' : List (Event ρ) → ι → Prop}
    {post' : List (Event ρ) → α → Prop} (hp : Sat admits pre post h p)
    (hp' : Sat admits pre' post' h p) :
  Sat admits (fun h' i => pre h' i ∧ pre' h' i) (fun h' a => post h' a ∧ post' h' a) h p
  := by
  induction p generalizing h with
  | pure a => exact ⟨hp, hp'⟩
  | call i next ih =>
      use ⟨hp.1, hp'.1⟩
      intro r hr
      exact ih r (hp.2 r hr) (hp'.2 r hr)

/-- What remains of a program satisfies what the program satisfies, if the answers to the
operations that satisfy the precondition are admitted. -/
theorem Sat.reaches {admits' : (i : ι) → ρ i → Prop} {p q : Program ι ρ α}
    {es : List (Event ρ)} (hp : Sat admits pre post h p) (hreaches : Reaches admits' p es q)
    (hadmits : ∀ {h i r}, pre h i → admits' i r → admits i r) :
  Sat admits pre post (h ++ es) q
  := by
  induction hreaches generalizing h with
  | refl => rwa [List.append_nil]
  | @step i next r es q hr _ ih =>
      have hnext := ih (hp.2 r (hadmits hp.1 hr))
      rwa [List.append_assoc, List.singleton_append] at hnext

/-- Every operation a program calls satisfies the precondition. -/
theorem Sat.called {p : Program ι ρ α} {es : List (Event ρ)} {i : ι}
    {next : ρ i → Program ι ρ α} (hp : Sat admits pre post [] p)
    (hreaches : Reaches admits p es (.call i next)) :
  pre es i
  := (hp.reaches hreaches fun _ hr => hr).1

/-- Every operation of a run satisfies the precondition. -/
theorem Sat.called_of_append {p q : Program ι ρ α} {es fs : List (Event ρ)} {i : ι} {r : ρ i}
    (hp : Sat admits pre post [] p) (hreaches : Reaches admits p (es ++ ⟨i, r⟩ :: fs) q) :
  pre es i
  := by
  obtain ⟨_, hfirst, hrest⟩ := hreaches.append_inv
  cases hrest with
  | step => exact hp.called hfirst

/-- Every result of a program satisfies the postcondition. -/
theorem Sat.returned {admits' : (i : ι) → ρ i → Prop} {p : Program ι ρ α}
    {es : List (Event ρ)} {a : α} (hp : Sat admits pre post [] p)
    (hreaches : Reaches admits' p es (.pure a))
    (hadmits : ∀ {h i r}, pre h i → admits' i r → admits i r) :
  post es a
  := hp.reaches hreaches hadmits

/-! ### The operations of a program -/

/-- Every operation the program calls satisfies `P`, whatever the answers are. -/
def Calls (P : ι → Prop) : Program ι ρ α → Prop
  | .pure _ => True
  | .call i next => P i ∧ ∀ r, Calls P (next r)

variable {P Q : ι → Prop}

theorem calls_pure (a : α) :
  Calls P (Pure.pure a : Program ι ρ α)
  := trivial

theorem calls_perform {i : ι} (hi : P i) :
  Calls P (perform i : Program ι ρ (ρ i))
  := ⟨hi, fun _ => trivial⟩

theorem Calls.bind {p : Program ι ρ β} {f : β → Program ι ρ α} (hp : Calls P p)
    (hf : ∀ b, Calls P (f b)) :
  Calls P (p >>= f)
  := by
  change Calls P (p.bind f)
  induction p with
  | pure b => exact hf b
  | call i next ih =>
      use hp.1
      intro r
      apply ih r (hp.2 r)

theorem Calls.mono {p : Program ι ρ α} (hp : Calls P p) (hPQ : ∀ i, P i → Q i) :
  Calls Q p
  := by
  induction p with
  | pure a => trivial
  | call i next ih =>
      use hPQ i hp.1
      intro r
      apply ih r (hp.2 r)

/-- What remains of a program calls no other operations. -/
theorem Calls.reaches {p q : Program ι ρ α} {es : List (Event ρ)} (hp : Calls P p)
    (h : Reaches admits p es q) :
  Calls P q
  := by
  induction h with
  | refl => exact hp
  | step _ _ ih => exact ih (hp.2 _)

/-- If all operations of a program satisfy the precondition, so do they after any history
that extends `h`. -/
theorem Calls.sat {p : Program ι ρ α} (hp : Calls P p)
    (hpre : ∀ es i, P i → pre (h ++ es) i) :
  Sat admits pre (fun _ _ => True) h p
  := by
  induction p generalizing h with
  | pure a => trivial
  | call i next ih =>
      constructor
      · have hi := hpre [] i hp.1
        rwa [List.append_nil] at hi
      · intro r _
        apply ih r (hp.2 r)
        intro es j hj
        rw [List.append_assoc]
        apply hpre _ j hj

/-- What holds of the history and is kept by the operations of a program holds after it. -/
theorem Sat.and_stable {inv : List (Event ρ) → Prop} {p : Program ι ρ α}
    (hp : Sat admits (fun _ i => P i) post h p) (hinv : inv h)
    (hstable : ∀ h' i r, inv h' → P i → inv (h' ++ [⟨i, r⟩])) :
  Sat admits (fun _ i => P i) (fun h' a => post h' a ∧ inv h') h p
  := by
  induction p generalizing h with
  | pure a => exact ⟨hp, hinv⟩
  | call i next ih =>
      use hp.1
      intro r hr
      exact ih r (hp.2 r hr) (hstable h i r hinv hp.1)

/-- The operations of a program that satisfies an assertion for all answers satisfy its
precondition. -/
theorem Sat.calls {p : Program ι ρ α} (hp : Sat (fun _ _ => True) (fun _ i => P i) post h p) :
  Calls P p
  := by
  induction p generalizing h with
  | pure a => trivial
  | call i next ih =>
      use hp.1
      intro r
      exact ih r (hp.2 r trivial)

/-- What the operations of a program keep holds after it, and suffices for the precondition. -/
theorem Calls.sat_of_stable {inv : List (Event ρ) → Prop} {p : Program ι ρ α} (hp : Calls P p)
    (hinv : inv h) (hpre : ∀ {h' i}, inv h' → P i → pre h' i)
    (hstable : ∀ {h' i r}, inv h' → P i → inv (h' ++ [⟨i, r⟩])) :
  Sat admits pre (fun h' _ => inv h') h p
  := by
  induction p generalizing h with
  | pure a => exact hinv
  | call i next ih =>
      use hpre hinv hp.1
      intro r _
      exact ih r (hp.2 r) (hstable hinv hp.1)

/-- The history only grows. -/
theorem sat_extends (p : Program ι ρ α) :
  Sat admits (fun _ _ => True) (fun h' _ => h <+: h') h p
  := by
  induction p generalizing h with
  | pure a => exact List.prefix_rfl
  | call i next ih =>
      use trivial
      intro r _
      apply (ih r).mono id
      intro h' a hprefix
      exact (List.prefix_append h [⟨i, r⟩]).trans hprefix

/-! ### Programs within programs -/

section

variable {ι' : Type} {ρ' : ι' → Type} (f : ι → ι') (g : (i : ι) → ρ' (f i) → ρ i)

/-- The program that calls `f i` in place of the operation `i`. -/
def embed : Program ι ρ α → Program ι' ρ' α
  | .pure a => .pure a
  | .call i next => .call (f i) fun r => (next (g i r)).embed

variable {f g}

/-- What is asserted of a program is asserted of the events of its own operations when it is
part of another one. -/
theorem Sat.embed {own? : Event ρ' → Option (Event ρ)} {admits' : (i : ι') → ρ' i → Prop}
    {h' : List (Event ρ')} {p : Program ι ρ α} (hp : Sat admits pre post (h'.filterMap own?) p)
    (hown : ∀ i r, own? ⟨f i, r⟩ = some ⟨i, g i r⟩)
    (hadmits : ∀ i r, admits' (f i) r → admits i (g i r)) :
  Sat admits' (fun h' i' => ∃ i, i' = f i ∧ pre (h'.filterMap own?) i)
    (fun h' a => post (h'.filterMap own?) a) h' (p.embed f g)
  := by
  induction p generalizing h' with
  | pure a => exact hp
  | call i next ih =>
      use ⟨i, rfl, hp.1⟩
      intro r hr
      apply ih
      rw [List.filterMap_append, List.filterMap_cons, hown]
      exact hp.2 _ (hadmits i r hr)

/-- A program that has returned as part of another one has returned after its own events. -/
theorem Reaches.of_embed {own? : Event ρ' → Option (Event ρ)} {admits' : (i : ι') → ρ' i → Prop}
    {es : List (Event ρ')} {p : Program ι ρ α} {a : α}
    (h : Reaches admits' (p.embed f g) es (.pure a))
    (hown : ∀ i r, own? ⟨f i, r⟩ = some ⟨i, g i r⟩)
    (hadmits : ∀ i r, admits' (f i) r → admits i (g i r)) :
  Reaches admits p (es.filterMap own?) (.pure a)
  := by
  induction p generalizing es with
  | pure b =>
      cases h
      exact .refl _
  | call i next ih =>
      cases h with
      | step hadmits' htail =>
          rw [List.filterMap_cons, hown]
          exact .step (hadmits i _ hadmits') (ih _ htail)

end

end Program
