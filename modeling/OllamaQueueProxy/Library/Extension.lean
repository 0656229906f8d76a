import OllamaQueueProxy.Library.Program

/-!
# Programs with operations of their own

A program extends another one if it calls the same operations in the same order, apart from
operations of its own.  Answers to these that are ignored leave it as it was; after any other
answer it may leave the other program, and then it ends in a way that `ends` describes.  A run
of the program without such an answer is one of the other program, once the events of its own
are left out (`Extends.reaches`).
-/

namespace Program

variable {ι : Type} {ρ : ι → Type} {α β : Type}
variable {shared : ι → Bool} {ignored : (i : ι) → ρ i → Prop}
variable {ends ends' : (i : ι) → ρ i → Program ι ρ α → Program ι ρ α → Prop}

/-- The program on the left extends the one on the right by operations that are not
`shared`. -/
inductive Extends (shared : ι → Bool) (ignored : (i : ι) → ρ i → Prop)
    (ends : (i : ι) → ρ i → Program ι ρ α → Program ι ρ α → Prop) :
    Program ι ρ α → Program ι ρ α → Prop where
  | pure (a : α) : Extends shared ignored ends (.pure a) (.pure a)
  | call {i : ι} {next next' : ρ i → Program ι ρ α} (hshared : shared i = true)
      (hnext : ∀ r, Extends shared ignored ends (next r) (next' r)) :
      Extends shared ignored ends (.call i next) (.call i next')
  | own {i : ι} {next : ρ i → Program ι ρ α} {q : Program ι ρ α} (hown : shared i = false)
      (hignored : ∀ r, ignored i r → Extends shared ignored ends (next r) q)
      (hends : ∀ r, ¬ ignored i r → ends i r (next r) q) :
      Extends shared ignored ends (.call i next) q

theorem Extends.refl {p : Program ι ρ α} (hp : Calls (fun i => shared i = true) p) :
  Extends shared ignored ends p p
  := by
  induction p with
  | pure a => apply Extends.pure
  | call i next ih =>
      apply Extends.call hp.1
      intro r
      apply ih r (hp.2 r)

/-- After a program that calls shared operations only, it suffices to compare what follows. -/
theorem Extends.bind {p : Program ι ρ β} {f g : β → Program ι ρ α}
    (hp : Calls (fun i => shared i = true) p) (h : ∀ b, Extends shared ignored ends (f b) (g b)) :
  Extends shared ignored ends (p >>= f) (p >>= g)
  := by
  change Extends shared ignored ends (p.bind f) (p.bind g)
  induction p with
  | pure b => exact h b
  | call i next ih =>
      apply Extends.call hp.1
      intro r
      apply ih r (hp.2 r)

/-- Programs are compared whatever is made of their results. -/
theorem Extends.map {ends' : (i : ι) → ρ i → Program ι ρ β → Program ι ρ β → Prop}
    {p q : Program ι ρ α} (h : Extends shared ignored ends p q) (f : α → β)
    (hends : ∀ {i r p q}, ends i r p q → ends' i r (p.bind fun a => .pure (f a))
      (q.bind fun a => .pure (f a))) :
  Extends shared ignored ends' (p.bind fun a => .pure (f a)) (q.bind fun a => .pure (f a))
  := by
  induction h with
  | pure a => apply Extends.pure
  | call hshared _ ih => exact .call hshared ih
  | own hown _ hends' ih =>
      apply Extends.own hown ih
      intro r hr
      exact hends (hends' r hr)

/-- The events of a run that are those of shared operations. -/
def restrict (shared : ι → Bool) (es : List (Event ρ)) : List (Event ρ) :=
  es.filter fun e => shared e.1

theorem restrict_append (es es' : List (Event ρ)) :
  restrict shared (es ++ es') = restrict shared es ++ restrict shared es'
  := List.filter_append es es'

theorem restrict_cons_of_shared {i : ι} (hshared : shared i = true) (r : ρ i)
    (es : List (Event ρ)) :
  restrict shared (⟨i, r⟩ :: es) = ⟨i, r⟩ :: restrict shared es
  := List.filter_cons_of_pos hshared

theorem restrict_cons_of_own {i : ι} (hown : shared i = false) (r : ρ i) (es : List (Event ρ)) :
  restrict shared (⟨i, r⟩ :: es) = restrict shared es
  := List.filter_cons_of_neg (by simp [hown])

/-- The run of a program leaves the one that it extends with an answer that is not ignored. -/
inductive Leaves (shared : ι → Bool)
    (ends : (i : ι) → ρ i → Program ι ρ α → Program ι ρ α → Prop)
    (admits : (i : ι) → ρ i → Prop) (p q : Program ι ρ α) :
    List (Event ρ) → Program ι ρ α → Prop where
  | intro {es es' : List (Event ρ)} {i : ι} {next : ρ i → Program ι ρ α} {r : ρ i}
      {p' q' : Program ι ρ α} (hown : shared i = false) (hadmits : admits i r)
      (hends : ends i r (next r) q') (hp : Reaches admits p es (.call i next))
      (hq : Reaches admits q (restrict shared es) q') (hrest : Reaches admits (next r) es' p') :
      Leaves shared ends admits p q (es ++ ⟨i, r⟩ :: es') p'

/-- The run of a program is one of the program that it extends, without the events of its
own, or it leaves that program. -/
theorem Extends.reaches {admits : (i : ι) → ρ i → Prop} {p q p' : Program ι ρ α}
    {es : List (Event ρ)} (h : Extends shared ignored ends p q)
    (hreaches : Reaches admits p es p') :
  (∃ q', Reaches admits q (restrict shared es) q' ∧ Extends shared ignored ends p' q'
      ∧ ∀ e ∈ es, shared e.1 = true ∨ ignored e.1 e.2)
    ∨ Leaves shared ends admits p q es p'
  := by
  induction hreaches generalizing q with
  | refl p => exact .inl ⟨q, .refl q, h, by simp⟩
  | @step i next r es p' hadmits hrest ih =>
      cases h with
      | @call _ _ next' hshared hnext =>
          obtain ⟨q', hq, hextends, hes⟩ | hleaves := ih (hnext r)
          · left
            use q'
            rw [restrict_cons_of_shared hshared]
            exact ⟨.step hadmits hq, hextends, List.forall_mem_cons.mpr ⟨.inl hshared, hes⟩⟩
          · right
            obtain ⟨hown, hadmits', hends, hp, hq, hrest⟩ := hleaves
            rw [← List.cons_append]
            apply Leaves.intro hown hadmits' hends (.step hadmits hp) _ hrest
            rw [restrict_cons_of_shared hshared]
            exact .step hadmits hq
      | own hown hignored hends =>
          by_cases hr : ignored i r
          · obtain ⟨q', hq, hextends, hes⟩ | hleaves := ih (hignored r hr)
            · left
              use q'
              rw [restrict_cons_of_own hown]
              exact ⟨hq, hextends, List.forall_mem_cons.mpr ⟨.inr hr, hes⟩⟩
            · right
              obtain ⟨hown', hadmits', hends', hp, hq, hrest⟩ := hleaves
              rw [← List.cons_append]
              apply Leaves.intro hown' hadmits' hends' (.step hadmits hp) _ hrest
              rw [restrict_cons_of_own hown]
              exact hq
          · right
            rw [← List.nil_append (⟨i, r⟩ :: es)]
            exact .intro hown hadmits (hends r hr) (.refl _) (.refl q) hrest

end Program
