import Mathlib.Data.List.Infix

/-!
# Labelled transitions and their runs

A transition relation `R : σ → α → σ → Prop` relates a state, an action and a state the
action leads to.  `Run R s as t` says that performing the actions `as` in order leads from
`s` to `t`, and `Reachable R s t` that some list of actions does.

Two rules carry the proofs about runs.  `Run.invariant` extends a predicate that every step
preserves to the end of a run.  `always_iff_allSteps` turns a question about all states of
a run into a question about its steps: when a step out of a good state ends in a good state
exactly when it satisfies `ok`, the states of a run are all good exactly when its steps all
satisfy `ok`.
-/

namespace Transition

variable {σ α β : Type*}

/-- The transition relation of a partial step function. -/
def ofStep (step : σ → α → Option σ) : σ → α → σ → Prop :=
  fun s a t => step s a = some t

/-- `Run R s as t`: performing the actions `as` in order leads from `s` to `t`. -/
inductive Run (R : σ → α → σ → Prop) : σ → List α → σ → Prop where
  | nil (s : σ) : Run R s [] s
  | snoc {s t u : σ} {as : List α} {a : α} : Run R s as t → R t a u → Run R s (as ++ [a]) u

/-- `Reachable R s t`: some run leads from `s` to `t`. -/
def Reachable (R : σ → α → σ → Prop) (s t : σ) : Prop :=
  ∃ as, Run R s as t

/-- What no beginning of a list of actions changes, neither the first action nor those after it
change. -/
theorem foldl_constant_tail {act : σ → α → σ} {f : σ → β} {s : σ} {a : α} {as : List α}
    (h : ∀ bs, bs <+: a :: as → f (bs.foldl act s) = f s) :
  (∀ bs, bs <+: as → f (bs.foldl act (act s a)) = f (act s a)) ∧ f (act s a) = f s
  := by
  have hone : f (act s a) = f s := h [a] (by simp)
  refine ⟨?_, hone⟩
  intro bs hbs
  exact (h (a :: bs) (List.cons_prefix_cons.mpr ⟨rfl, hbs⟩)).trans hone.symm

variable {R : σ → α → σ → Prop}

theorem Run.nil_inv {s t : σ} (h : Run R s [] t) :
  t = s
  := by
  generalize has : ([] : List α) = as at h
  cases h with
  | nil => rfl
  | snoc => simp at has

theorem Run.snoc_inv {s u : σ} {as : List α} {a : α} (h : Run R s (as ++ [a]) u) :
  ∃ t, Run R s as t ∧ R t a u
  := by
  generalize has : as ++ [a] = bs at h
  cases h with
  | nil => simp at has
  | @snoc t _ as' a' hrun hstep =>
      obtain ⟨rfl, ha⟩ := List.append_inj' has rfl
      obtain rfl : a = a' := by simpa using ha
      use t

/-- Runs compose. -/
theorem Run.append {s t u : σ} {as bs : List α} (h : Run R s as t) (h' : Run R t bs u) :
  Run R s (as ++ bs) u
  := by
  induction h' with
  | nil =>
      rw [List.append_nil]
      apply h
  | snoc _ hstep ih =>
      rw [← List.append_assoc]
      apply Run.snoc ih hstep

/-- A run of an appended list of actions passes through a state between the two lists. -/
theorem Run.append_inv {s u : σ} {as bs : List α} (h : Run R s (as ++ bs) u) :
  ∃ t, Run R s as t ∧ Run R t bs u
  := by
  induction bs using List.reverseRecOn generalizing u with
  | nil =>
      rw [List.append_nil] at h
      use u, h
      apply Run.nil
  | append_singleton bs b ih =>
      rw [← List.append_assoc] at h
      obtain ⟨v, hv, hstep⟩ := Run.snoc_inv h
      obtain ⟨t, ht, htv⟩ := ih hv
      use t, ht
      apply Run.snoc htv hstep

/-- The state a run of a step function ends in is determined by its actions. -/
theorem Run.deterministic {step : σ → α → Option σ} {s t u : σ} {as : List α}
    (h : Run (ofStep step) s as t) (h' : Run (ofStep step) s as u) :
  t = u
  := by
  induction h generalizing u with
  | nil =>
      symm
      apply Run.nil_inv h'
  | snoc _ hstep ih =>
      obtain ⟨v, hv, hstep'⟩ := Run.snoc_inv h'
      obtain rfl := ih hv
      apply Option.some.inj (hstep.symm.trans hstep')

/-- A predicate that the first state satisfies and every step preserves holds at the end
of a run. -/
theorem Run.invariant {I : σ → Prop} {s t : σ} {as : List α} (h : Run R s as t) (h₀ : I s)
    (hstep : ∀ {t a u}, I t → R t a u → I u) :
  I t
  := by
  induction h with
  | nil => apply h₀
  | snoc _ hR ih => apply hstep ih hR

theorem Reachable.invariant {I : σ → Prop} {s t : σ} (h : Reachable R s t) (h₀ : I s)
    (hstep : ∀ {t a u}, I t → R t a u → I u) :
  I t
  := by
  obtain ⟨as, hrun⟩ := h
  apply hrun.invariant h₀ hstep

/-- If no step increases the rank, and the steps that count decrease it, then no run has more
steps that count than the rank of its first state. -/
theorem Run.countP_add_rank_le {I : σ → Prop} {rank : σ → ℕ} {counts : α → Bool} {s t : σ}
    {as : List α} (h : Run R s as t) (h₀ : I s) (hI : ∀ {t a u}, I t → R t a u → I u)
    (hrank : ∀ {t a u}, I t → R t a u → (if counts a = true then 1 else 0) + rank u ≤ rank t) :
  as.countP counts + rank t ≤ rank s
  := by
  induction h with
  | nil => simp
  | @snoc t u as a hrun hR ih =>
      have hstep := hrank (hrun.invariant h₀ hI) hR
      rw [List.countP_append, List.countP_singleton]
      omega

theorem Reachable.refl (s : σ) :
  Reachable R s s
  := ⟨[], Run.nil s⟩

theorem Reachable.step {s t u : σ} {a : α} (h : Reachable R s t) (hR : R t a u) :
  Reachable R s u
  := by
  obtain ⟨as, hrun⟩ := h
  use as ++ [a]
  apply Run.snoc hrun hR

theorem Reachable.trans {s t u : σ} (h : Reachable R s t) (h' : Reachable R t u) :
  Reachable R s u
  := by
  obtain ⟨as, hrun⟩ := h
  obtain ⟨bs, hrun'⟩ := h'
  use as ++ bs
  exact hrun.append hrun'

/-! ### The states and the steps of a run -/

/-- `P` holds in every state that a prefix of the actions `as` leads to from `s`. -/
def Always (R : σ → α → σ → Prop) (s : σ) (as : List α) (P : σ → Prop) : Prop :=
  ∀ bs t, bs <+: as → Run R s bs t → P t

/-- `ok` holds of every step that the actions `as` perform from `s`. -/
def AllSteps (R : σ → α → σ → Prop) (s : σ) (as : List α) (ok : σ → α → Prop) : Prop :=
  ∀ bs a t u, bs ++ [a] <+: as → Run R s bs t → R t a u → ok t a

theorem AllSteps.and {s : σ} {as : List α} {ok ok' : σ → α → Prop} (h : AllSteps R s as ok)
    (h' : AllSteps R s as ok') :
  AllSteps R s as (fun t a => ok t a ∧ ok' t a)
  := fun bs a t u hbs hrun hR => ⟨h bs a t u hbs hrun hR, h' bs a t u hbs hrun hR⟩

/-- A predicate that the first state satisfies, and that every step satisfying `ok`
preserves, holds in every state of a run whose steps all satisfy `ok`. -/
theorem AllSteps.always {s : σ} {as : List α} {ok : σ → α → Prop} {P : σ → Prop}
    (h : AllSteps R s as ok) (h₀ : P s)
    (hstep : ∀ {t a u}, P t → ok t a → R t a u → P u) :
  Always R s as P
  := by
  intro bs t hbs hrun
  induction hrun with
  | nil => apply h₀
  | @snoc t u cs a hcs hR ih =>
      have hok := h cs a t u hbs hcs hR
      apply hstep (ih ((List.prefix_append cs [a]).trans hbs)) hok hR

/-- When a step out of a state satisfying `I` and `P` ends in a state satisfying `P`
exactly when it satisfies `ok`, all states of a run satisfy `P` exactly when all its steps
satisfy `ok`. -/
theorem always_iff_allSteps {s : σ} {as : List α} {I P : σ → Prop} {ok : σ → α → Prop}
    (hI : I s) (hP : P s) (hIstep : ∀ {t a u}, I t → P t → R t a u → I u)
    (hstep : ∀ {t a u}, I t → P t → R t a u → (P u ↔ ok t a)) :
  Always R s as P ↔ AllSteps R s as ok
  := by
  constructor
  · intro h bs a t u hbs hrun hR
    have hprefix : bs <+: as := (List.prefix_append bs [a]).trans hbs
    have hIt : I t := by
      clear hR hbs
      induction hrun with
      | nil => apply hI
      | @snoc t u cs c hcs hc ih =>
          have hcs' : cs <+: as := (List.prefix_append cs [c]).trans hprefix
          apply hIstep (ih hcs') (h cs t hcs' hcs) hc
    apply (hstep hIt (h bs t hprefix hrun) hR).mp
    apply h (bs ++ [a]) u hbs (Run.snoc hrun hR)
  · intro h bs t hbs hrun
    have hboth : Always R s as (fun t => I t ∧ P t) := by
      refine AllSteps.always h ⟨hI, hP⟩ ?_
      rintro t a u ⟨hIt, hPt⟩ hok hR
      use hIstep hIt hPt hR
      apply (hstep hIt hPt hR).mpr hok
    apply (hboth bs t hbs hrun).2

/-- When a step out of a state satisfying `I` is right exactly when it satisfies `ok`, and leads
to a state satisfying `I` if it is right, the steps of a run are all right exactly when they all
satisfy `ok`. -/
theorem allSteps_iff_allSteps {s : σ} {as : List α} {I : σ → Prop} {right ok : σ → α → Prop}
    (hI : I s) (hIstep : ∀ {t a u}, I t → right t a → R t a u → I u)
    (hstep : ∀ {t a u}, I t → R t a u → (right t a ↔ ok t a)) :
  AllSteps R s as right ↔ AllSteps R s as ok
  := by
  have hinvariant {ok' : σ → α → Prop} (h : AllSteps R s as ok')
      (hright : ∀ {t a u}, I t → R t a u → ok' t a → right t a) : Always R s as I :=
    h.always hI fun hIt hok hR => hIstep hIt (hright hIt hR hok) hR
  constructor
  · intro h bs a t u hbs hrun hR
    have hIt := hinvariant h (fun _ _ hright => hright) bs t
      ((List.prefix_append bs [a]).trans hbs) hrun
    exact (hstep hIt hR).mp (h bs a t u hbs hrun hR)
  · intro h bs a t u hbs hrun hR
    have hIt := hinvariant h (fun hIt hR hok => (hstep hIt hR).mpr hok) bs t
      ((List.prefix_append bs [a]).trans hbs) hrun
    exact (hstep hIt hR).mpr (h bs a t u hbs hrun hR)

/-! ### Executing a step function -/

/-- The state a step function reaches by the actions in order, if every one of them is
enabled. -/
def exec (step : σ → α → Option σ) : σ → List α → Option σ
  | s, [] => some s
  | s, a :: as => (step s a).bind fun t => exec step t as

theorem run_of_exec {step : σ → α → Option σ} {s t : σ} {as : List α}
    (h : exec step s as = some t) :
  Run (ofStep step) s as t
  := by
  induction as generalizing s with
  | nil =>
      obtain rfl : s = t := by simpa [exec] using h
      apply Run.nil
  | cons a as ih =>
      obtain ⟨u, hu, htail⟩ := Option.bind_eq_some_iff.mp h
      have hone : Run (ofStep step) s [a] u := Run.snoc (Run.nil s) hu
      apply Run.append hone (ih htail)

theorem exists_run_of_exec {step : σ → α → Option σ} {s : σ} {as : List α}
    (h : (exec step s as).isSome = true) :
  ∃ t, Run (ofStep step) s as t
  := by
  obtain ⟨t, ht⟩ := Option.isSome_iff_exists.mp h
  use t
  apply run_of_exec ht

/-- The test `b` succeeds for every step that the actions perform. -/
def checkSteps (step : σ → α → Option σ) (b : σ → α → Bool) : σ → List α → Bool
  | _, [] => true
  | s, a :: as => b s a && (step s a).all fun t => checkSteps step b t as

theorem allSteps_of_checkSteps {step : σ → α → Option σ} {s : σ} {as : List α}
    {ok : σ → α → Prop} {b : σ → α → Bool} (h : checkSteps step b s as = true)
    (hb : ∀ s a, b s a = true → ok s a) :
  AllSteps (ofStep step) s as ok
  := by
  induction as generalizing s with
  | nil =>
      intro bs a t u hprefix
      simp at hprefix
  | cons c cs ih =>
      obtain ⟨hc, hcs⟩ := Bool.and_eq_true_iff.mp h
      intro bs a t u hprefix hrun hR
      cases bs with
      | nil =>
          obtain rfl := hrun.nil_inv
          obtain rfl : a = c := by simpa using hprefix
          apply hb t a hc
      | cons d ds =>
          obtain ⟨rfl, hds⟩ := List.cons_prefix_cons.mp hprefix
          have hcons : Run (ofStep step) s ([d] ++ ds) t := hrun
          obtain ⟨v, hv, htail⟩ := hcons.append_inv
          have hsnoc : Run (ofStep step) s ([] ++ [d]) v := hv
          obtain ⟨w, hw, hstep⟩ := hsnoc.snoc_inv
          obtain rfl := hw.nil_inv
          rw [show step w d = some v from hstep] at hcs
          apply ih hcs ds a t u hds htail hR

/-- A run that can be executed to a state violating `P` is no run of states satisfying
`P`. -/
theorem not_always_of_exec {step : σ → α → Option σ} {s : σ} {as : List α} {P : σ → Prop}
    {b : σ → Bool} (h : (exec step s as).any b = true)
    (hbad : ∀ t, b t = true → ¬ P t) :
  ¬ Always (ofStep step) s as P
  := by
  obtain ⟨t, ht, hbadt⟩ := (Option.any_eq_true _ _).mp h
  intro halways
  apply hbad t hbadt
  apply halways as t List.prefix_rfl (run_of_exec ht)

end Transition
