import OllamaQueueProxy.Library.Program
import Mathlib.Data.List.Forall2

/-!
# Relations between programs

Two programs are related if they call related operations, go on as related programs whenever
the answers correspond, and return related results.  A run of one of them is then matched by
one of the other (`Related.reaches`).
-/

namespace Program

variable {ι : Type} {ρ : ι → Type} {α β γ δ : Type}
variable {rel : (i j : ι) → (ρ i → ρ j → Prop) → Prop}

/-- `rel` tells which operations are related, and how their answers correspond; `post`, which
results are. -/
inductive Related (rel : (i j : ι) → (ρ i → ρ j → Prop) → Prop) (post : α → β → Prop) :
    Program ι ρ α → Program ι ρ β → Prop where
  | pure {a : α} {b : β} (hpost : post a b) : Related rel post (.pure a) (.pure b)
  | call {i j : ι} {answers : ρ i → ρ j → Prop} {next : ρ i → Program ι ρ α}
      {next' : ρ j → Program ι ρ β} (hrel : rel i j answers)
      (hnext : ∀ r s, answers r s → Related rel post (next r) (next' s)) :
      Related rel post (.call i next) (.call j next')

theorem Related.perform {i j : ι} {answers : ρ i → ρ j → Prop} (hrel : rel i j answers) :
  Related rel answers (perform i) (perform j)
  := .call hrel fun _ _ h => .pure h

/-- Sequences of related programs are related. -/
theorem Related.bind {post : α → β → Prop} {post' : γ → δ → Prop} {p : Program ι ρ α}
    {q : Program ι ρ β} {f : α → Program ι ρ γ} {g : β → Program ι ρ δ}
    (h : Related rel post p q) (hnext : ∀ a b, post a b → Related rel post' (f a) (g b)) :
  Related rel post' (p >>= f) (q >>= g)
  := by
  change Related rel post' (p.bind f) (q.bind g)
  induction h with
  | pure hpost => exact hnext _ _ hpost
  | call hrel _ ih => exact .call hrel ih

/-- A relation between programs stays one when something is made of the result of the first. -/
theorem Related.map_left {post : α → β → Prop} {post' : γ → β → Prop} {p : Program ι ρ α}
    {q : Program ι ρ β} (h : Related rel post p q) (f : α → γ)
    (hpost : ∀ a b, post a b → post' (f a) b) :
  Related rel post' (p >>= fun a => Pure.pure (f a)) q
  := by
  change Related rel post' (p.bind fun a => .pure (f a)) q
  induction h with
  | pure h => exact .pure (hpost _ _ h)
  | call hrel _ ih => exact .call hrel ih

theorem Related.refl (hrel : ∀ i, ∃ admits : ρ i → Prop, rel i i fun r s => r = s ∧ admits r)
    (p : Program ι ρ α) :
  Related rel Eq p p
  := by
  induction p with
  | pure a => exact .pure rfl
  | call i next ih =>
      obtain ⟨admits, hi⟩ := hrel i
      apply Related.call hi
      rintro r _ ⟨rfl, -⟩
      exact ih r

/-- A program is related to itself, and its results to themselves if they satisfy what it
satisfies. -/
theorem Related.of_sat {admits : (i : ι) → ρ i → Prop} {pre : List (Event ρ) → ι → Prop}
    {post : α → Prop} {p : Program ι ρ α} {h : List (Event ρ)}
    (hp : Sat admits pre (fun _ a => post a) h p)
    (hrel : ∀ i, rel i i fun r s => r = s ∧ admits i r) :
  Related rel (fun a b => a = b ∧ post a) p p
  := by
  induction p generalizing h with
  | pure a => exact .pure ⟨rfl, hp⟩
  | call i next ih =>
      apply Related.call (hrel i)
      rintro r _ ⟨rfl, hr⟩
      exact ih r (hp.2 r hr)

/-- The operations of the events are related, and their answers correspond. -/
def Corresponds (rel : (i j : ι) → (ρ i → ρ j → Prop) → Prop) (e f : Event ρ) : Prop :=
  ∃ answers, rel e.1 f.1 answers ∧ answers e.2 f.2

/-- A run of a program is matched by one of a related program, if there is an answer that
corresponds to every answer. -/
theorem Related.reaches {admits : (i : ι) → ρ i → Prop} {post : α → β → Prop}
    {p : Program ι ρ α} {q q' : Program ι ρ β} {fs : List (Event ρ)}
    (h : Related rel post p q) (hreaches : Reaches admits q fs q')
    (hanswer : ∀ {i j answers s}, rel i j answers → admits j s → ∃ r, admits i r ∧ answers r s) :
  ∃ es p', Reaches admits p es p' ∧ List.Forall₂ (Corresponds rel) es fs
    ∧ Related rel post p' q'
  := by
  induction hreaches generalizing p with
  | refl q => exact ⟨[], p, .refl p, .nil, h⟩
  | @step j next' s fs q' hs _ ih =>
      cases h with
      | @call i _ answers next _ hrel hnext =>
          obtain ⟨r, hr, hanswers⟩ := hanswer hrel hs
          obtain ⟨es, p', hp, hmatch, hrelated⟩ := ih (hnext r s hanswers)
          exact ⟨⟨i, r⟩ :: es, p', .step hr hp, .cons ⟨answers, hrel, hanswers⟩ hmatch, hrelated⟩

/-- What runs of related programs lead to is related, if the events correspond. -/
theorem Related.of_corresponds {admits admits' : (i : ι) → ρ i → Prop} {post : α → β → Prop}
    {p p' : Program ι ρ α} {q q' : Program ι ρ β} {es fs : List (Event ρ)}
    (h : Related rel post p q) (hp : Reaches admits p es p') (hq : Reaches admits' q fs q')
    (hmatch : List.Forall₂ (Corresponds rel) es fs)
    (hunique : ∀ {i j answers answers' r s}, rel i j answers → rel i j answers' → answers r s →
      answers' r s) :
  Related rel post p' q'
  := by
  induction hmatch generalizing p q with
  | nil =>
      cases hp
      cases hq
      exact h
  | cons hfirst _ ih =>
      cases hp with
      | step _ hp =>
          cases hq with
          | step _ hq =>
              cases h with
              | call hrel hnext =>
                  obtain ⟨answers, hrel', hanswers⟩ := hfirst
                  exact ih (hnext _ _ (hunique hrel' hrel hanswers)) hp hq

end Program
