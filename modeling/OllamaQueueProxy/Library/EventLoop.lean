import OllamaQueueProxy.Library.Program
import OllamaQueueProxy.Library.Tally
import OllamaQueueProxy.Library.Transition

/-!
# Tasks on an event loop

Tasks run programs whose operations act on a state that they share.  One task runs at a time:
it performs operations until it comes to one that suspends it, or its program returns.  Only
then another task runs, or something happens from outside.  A suspended task is woken with an
answer to its operation, or it is cancelled.

Every task keeps the history of its operations.  Two rules carry facts over to all
interleavings: the history of a task is a run of its program (`reachable_reaches`), so that
every assertion about the program holds of the task; and what the operations add to a measure
of the shared state is what the histories of all tasks weigh (`reachable_account`).
-/

open Program (Event Reaches Sat)
open Transition

namespace EventLoop

/-- A task, with the operations that it has performed and what remains of its program. -/
structure Task (κ : Type) {ι : Type} (ρ : ι → Type) (α : Type) where
  /-- What the task was started for. -/
  label : κ
  history : List (Event ρ)
  rest : Program ι ρ α
  cancelled : Bool

/-- An event loop.  The shared state is of type `σ`, a suspended task is woken by a value of
type `β`, and what happens from outside is of type `η`. -/
structure Loop (κ ι : Type) (ρ : ι → Type) (α σ β η : Type) where
  /-- The program that a task runs. -/
  program : κ → Program ι ρ α
  /-- The answer to an operation that the task performs without being suspended. -/
  act : (i : ι) → σ → Option (ρ i × σ)
  /-- The answer with which a task is woken that the operation has suspended. -/
  wake : (i : ι) → β → σ → Option (ρ i × σ)
  /-- A task is cancelled that the operation has suspended. -/
  abandon : ι → σ → σ
  outside : η → σ → Option σ

/-- The tasks that were started, the one that runs, if any, and the shared state. -/
structure State (κ : Type) {ι : Type} (ρ : ι → Type) (α σ : Type) where
  tasks : List (Task κ ρ α)
  running : Option ℕ
  shared : σ

inductive Action (κ β η : Type) where
  /-- A task is created. -/
  | spawn (label : κ)
  /-- A task that was created starts to run. -/
  | start (k : ℕ)
  /-- The task that runs performs its next operation. -/
  | perform
  /-- The task that runs is suspended, or its program has returned. -/
  | suspend
  /-- A suspended task goes on. -/
  | wake (k : ℕ) (b : β)
  | cancel (k : ℕ)
  | outside (e : η)

variable {κ ι : Type} {ρ : ι → Type} {α σ β η : Type}

namespace Task

/-- The task after its next operation was answered. -/
def answered (t : Task κ ρ α) (i : ι) (r : ρ i) (rest : Program ι ρ α) : Task κ ρ α :=
  { t with
    history := t.history ++ [⟨i, r⟩]
    rest := rest }

/-- What the history of a task weighs. -/
def weigh {M : Type*} [AddCommMonoid M] (weight : Event ρ → M) (t : Task κ ρ α) : M :=
  (t.history.map weight).sum

theorem weigh_answered {M : Type*} [AddCommMonoid M] (weight : Event ρ → M) (t : Task κ ρ α)
    (i : ι) (r : ρ i) (rest : Program ι ρ α) :
  (t.answered i r rest).weigh weight = t.weigh weight + weight ⟨i, r⟩
  := by
  rw [weigh, answered, List.map_append, List.sum_append, List.map_singleton, List.sum_singleton]
  rfl

end Task

namespace State

/-- The state in which no task was created. -/
def initial (shared : σ) : State κ ρ α σ where
  tasks := []
  running := none
  shared := shared

/-- Task `k` becomes `t`, task `running` runs, and the shared state becomes `x`. -/
def set (s : State κ ρ α σ) (k : ℕ) (t : Task κ ρ α) (running : Option ℕ) (x : σ) :
    State κ ρ α σ where
  tasks := s.tasks.set k t
  running := running
  shared := x

/-- What the histories of all tasks weigh. -/
def weigh {M : Type*} [AddCommMonoid M] (weight : Event ρ → M) (s : State κ ρ α σ) : M :=
  (s.tasks.map (Task.weigh weight)).sum

end State

namespace Loop

variable (L : Loop κ ι ρ α σ β η)

/-- The task that is created for a label. -/
def fresh (l : κ) : Task κ ρ α where
  label := l
  history := []
  rest := L.program l
  cancelled := false

/-- The program has returned, or its next operation suspends the task. -/
def stops (p : Program ι ρ α) (x : σ) : Bool :=
  match p with
  | .pure _ => true
  | .call i _ => (L.act i x).isNone

/-- The state after an action; `none` if the action is not possible. -/
def step (s : State κ ρ α σ) : Action κ β η → Option (State κ ρ α σ)
  | .spawn l =>
      if s.running.isNone then some { s with tasks := s.tasks ++ [L.fresh l] } else none
  | .start k =>
      if s.running.isNone then match s.tasks[k]? with
        | some t =>
            if t.history.isEmpty && !t.cancelled then some { s with running := some k } else none
        | none => none
      else none
  | .perform => match s.running with
      | some k => match s.tasks[k]? with
        | some t => match t.rest with
          | .call i next => (L.act i s.shared).map fun (r, x) =>
              s.set k (t.answered i r (next r)) (some k) x
          | .pure _ => none
        | none => none
      | none => none
  | .suspend => match s.running with
      | some k => match s.tasks[k]? with
        | some t => if L.stops t.rest s.shared then some { s with running := none } else none
        | none => none
      | none => none
  | .wake k b =>
      if s.running.isNone then match s.tasks[k]? with
        | some t => if t.cancelled then none else match t.rest with
          | .call i next => (L.wake i b s.shared).map fun (r, x) =>
              s.set k (t.answered i r (next r)) (some k) x
          | .pure _ => none
        | none => none
      else none
  | .cancel k =>
      if s.running.isNone then match s.tasks[k]? with
        | some t => if t.cancelled then none else match t.rest with
          | .call i _ => some (s.set k { t with cancelled := true } none (L.abandon i s.shared))
          | .pure _ => none
        | none => none
      else none
  | .outside e =>
      if s.running.isNone then (L.outside e s.shared).map fun x => { s with shared := x }
      else none

/-- The transitions of the loop. -/
abbrev Step : State κ ρ α σ → Action κ β η → State κ ρ α σ → Prop := ofStep L.step

/-- What an action does. -/
inductive Effect : State κ ρ α σ → Action κ β η → State κ ρ α σ → Prop where
  | spawn {s : State κ ρ α σ} (l : κ) (hidle : s.running = none) :
      Effect s (.spawn l) { s with tasks := s.tasks ++ [L.fresh l] }
  | start {s : State κ ρ α σ} {k : ℕ} {t : Task κ ρ α} (hidle : s.running = none)
      (ht : s.tasks[k]? = some t) (hfresh : t.history = []) (hlive : t.cancelled = false) :
      Effect s (.start k) { s with running := some k }
  | perform {s : State κ ρ α σ} {k : ℕ} {t : Task κ ρ α} {i : ι} {next : ρ i → Program ι ρ α}
      {r : ρ i} {x : σ} (hrunning : s.running = some k) (ht : s.tasks[k]? = some t)
      (hrest : t.rest = .call i next) (hact : L.act i s.shared = some (r, x)) :
      Effect s .perform (s.set k (t.answered i r (next r)) (some k) x)
  | suspend {s : State κ ρ α σ} {k : ℕ} {t : Task κ ρ α} (hrunning : s.running = some k)
      (ht : s.tasks[k]? = some t) (hstops : L.stops t.rest s.shared = true) :
      Effect s .suspend { s with running := none }
  | wake {s : State κ ρ α σ} {k : ℕ} {b : β} {t : Task κ ρ α} {i : ι}
      {next : ρ i → Program ι ρ α} {r : ρ i} {x : σ} (hidle : s.running = none)
      (ht : s.tasks[k]? = some t) (hlive : t.cancelled = false) (hrest : t.rest = .call i next)
      (hwake : L.wake i b s.shared = some (r, x)) :
      Effect s (.wake k b) (s.set k (t.answered i r (next r)) (some k) x)
  | cancel {s : State κ ρ α σ} {k : ℕ} {t : Task κ ρ α} {i : ι} {next : ρ i → Program ι ρ α}
      (hidle : s.running = none) (ht : s.tasks[k]? = some t) (hlive : t.cancelled = false)
      (hrest : t.rest = .call i next) :
      Effect s (.cancel k) (s.set k { t with cancelled := true } none (L.abandon i s.shared))
  | outside {s : State κ ρ α σ} {e : η} {x : σ} (hidle : s.running = none)
      (houtside : L.outside e s.shared = some x) :
      Effect s (.outside e) { s with shared := x }

variable {L} {s s' : State κ ρ α σ}

theorem Step.effect {a : Action κ β η} (h : L.Step s a s') :
  L.Effect s a s'
  := by
  cases a with
  | spawn l =>
      simp only [ofStep, step] at h
      split_ifs at h with hidle
      obtain rfl := Option.some.inj h
      exact .spawn l (Option.isNone_iff_eq_none.mp hidle)
  | start k =>
      simp only [ofStep, step] at h
      split_ifs at h with hidle
      split at h
      · rename_i t ht
        split_ifs at h with hfresh
        obtain ⟨hhistory, hlive⟩ := Bool.and_eq_true_iff.mp hfresh
        obtain rfl := Option.some.inj h
        exact .start (Option.isNone_iff_eq_none.mp hidle) ht (List.isEmpty_iff.mp hhistory)
          (by simpa using hlive)
      · cases h
  | perform =>
      simp only [ofStep, step] at h
      split at h
      · rename_i k hrunning
        split at h
        · rename_i t ht
          split at h
          · rename_i i next hrest
            obtain ⟨⟨r, x⟩, hact, rfl⟩ := Option.map_eq_some_iff.mp h
            exact .perform hrunning ht hrest hact
          · cases h
        · cases h
      · cases h
  | suspend =>
      simp only [ofStep, step] at h
      split at h
      · rename_i k hrunning
        split at h
        · rename_i t ht
          split_ifs at h with hstops
          obtain rfl := Option.some.inj h
          exact .suspend hrunning ht hstops
        · cases h
      · cases h
  | wake k b =>
      simp only [ofStep, step] at h
      split_ifs at h with hidle
      split at h
      · rename_i t ht
        split_ifs at h with hlive
        split at h
        · rename_i i next hrest
          obtain ⟨⟨r, x⟩, hwake, rfl⟩ := Option.map_eq_some_iff.mp h
          exact .wake (Option.isNone_iff_eq_none.mp hidle) ht (by simpa using hlive) hrest hwake
        · cases h
      · cases h
  | cancel k =>
      simp only [ofStep, step] at h
      split_ifs at h with hidle
      split at h
      · rename_i t ht
        split_ifs at h with hlive
        split at h
        · rename_i i next hrest
          obtain rfl := Option.some.inj h
          exact .cancel (Option.isNone_iff_eq_none.mp hidle) ht (by simpa using hlive) hrest
        · cases h
      · cases h
  | outside e =>
      simp only [ofStep, step] at h
      split_ifs at h with hidle
      obtain ⟨x, houtside, rfl⟩ := Option.map_eq_some_iff.mp h
      exact .outside (Option.isNone_iff_eq_none.mp hidle) houtside

/-! ### The tasks of a run -/

/-- An operation of a task was answered. -/
inductive Answered (L : Loop κ ι ρ α σ β η) (i : ι) (x : σ) (r : ρ i) (x' : σ) : Prop where
  | act (h : L.act i x = some (r, x'))
  | wake (b : β) (h : L.wake i b x = some (r, x'))

/-- What an action does to the tasks and to the shared state, whichever task runs. -/
inductive Change (L : Loop κ ι ρ α σ β η) : State κ ρ α σ → State κ ρ α σ → Prop where
  | spawn {s s' : State κ ρ α σ} (l : κ) (htasks : s'.tasks = s.tasks ++ [L.fresh l])
      (hshared : s'.shared = s.shared) : Change L s s'
  /-- Another task runs, or none. -/
  | turn {s s' : State κ ρ α σ} (htasks : s'.tasks = s.tasks) (hshared : s'.shared = s.shared) :
      Change L s s'
  | answer {s s' : State κ ρ α σ} {k : ℕ} {t : Task κ ρ α} {i : ι} {next : ρ i → Program ι ρ α}
      {r : ρ i} (ht : s.tasks[k]? = some t) (hrest : t.rest = .call i next)
      (htasks : s'.tasks = s.tasks.set k (t.answered i r (next r)))
      (hanswer : Answered L i s.shared r s'.shared) : Change L s s'
  | cancel {s s' : State κ ρ α σ} {k : ℕ} {t : Task κ ρ α} {i : ι} {next : ρ i → Program ι ρ α}
      (ht : s.tasks[k]? = some t) (hrest : t.rest = .call i next)
      (htasks : s'.tasks = s.tasks.set k { t with cancelled := true })
      (hshared : s'.shared = L.abandon i s.shared) : Change L s s'
  | outside {s s' : State κ ρ α σ} (e : η) (htasks : s'.tasks = s.tasks)
      (houtside : L.outside e s.shared = some s'.shared) : Change L s s'

theorem Step.change {a : Action κ β η} (h : L.Step s a s') :
  L.Change s s'
  := by
  cases h.effect with
  | spawn l => exact .spawn l rfl rfl
  | start | suspend => exact .turn rfl rfl
  | perform _ ht hrest hact => exact .answer ht hrest rfl (.act hact)
  | wake _ ht _ hrest hwake => exact .answer ht hrest rfl (.wake _ hwake)
  | cancel _ ht _ hrest => exact .cancel ht hrest rfl rfl
  | outside _ houtside => exact .outside _ rfl houtside

/-- A predicate of tasks that fresh tasks satisfy, and that answers and cancellation preserve,
holds of all tasks after a change. -/
theorem Change.forall_tasks {P : Task κ ρ α → Prop} (h : L.Change s s')
    (hs : ∀ t ∈ s.tasks, P t) (hfresh : ∀ l, P (L.fresh l))
    (hanswer : ∀ {t : Task κ ρ α} {i next r}, P t → t.rest = .call i next →
      Answered L i s.shared r s'.shared → P (t.answered i r (next r)))
    (hcancel : ∀ {t : Task κ ρ α}, P t → P { t with cancelled := true }) :
  ∀ t ∈ s'.tasks, P t
  := by
  cases h with
  | spawn l htasks =>
      rw [htasks]
      intro t ht
      obtain ht | ht := List.mem_append.mp ht
      · exact hs t ht
      · obtain rfl := List.mem_singleton.mp ht
        exact hfresh l
  | turn htasks | outside _ htasks => rwa [htasks]
  | answer ht hrest htasks hanswered =>
      rw [htasks]
      intro u hu
      obtain hu | rfl := List.mem_or_eq_of_mem_set hu
      · exact hs u hu
      · exact hanswer (hs _ (List.mem_of_getElem? ht)) hrest hanswered
  | cancel ht _ htasks =>
      rw [htasks]
      intro u hu
      obtain hu | rfl := List.mem_or_eq_of_mem_set hu
      · exact hs u hu
      · exact hcancel (hs _ (List.mem_of_getElem? ht))

variable {x₀ : σ} {admits : (i : ι) → ρ i → Prop}

/-- The history of every task is a run of the program that it was started with. -/
theorem reachable_reaches (h : Reachable L.Step (.initial x₀) s)
    (hadmits : ∀ {i x r x'}, Answered L i x r x' → admits i r) :
  ∀ t ∈ s.tasks, Reaches admits (L.program t.label) t.history t.rest
  := by
  refine h.invariant (I := fun s => ∀ t ∈ s.tasks,
    Reaches admits (L.program t.label) t.history t.rest) ?_ ?_
  · exact List.forall_mem_nil _
  · intro s a s' hs hstep
    apply hstep.change.forall_tasks hs
    · exact fun l => .refl _
    · intro t i next r ht hrest hanswered
      rw [hrest] at ht
      exact ht.snoc (hadmits hanswered)
    · exact fun ht => ht

/-- What is asserted of the programs of the tasks holds of the tasks. -/
theorem reachable_sat {pre : κ → List (Event ρ) → ι → Prop}
    {post : κ → List (Event ρ) → α → Prop} (h : Reachable L.Step (.initial x₀) s)
    (hadmits : ∀ {i x r x'}, Answered L i x r x' → admits i r)
    (hprogram : ∀ l, Sat admits (pre l) (post l) [] (L.program l)) :
  ∀ t ∈ s.tasks, Sat admits (pre t.label) (post t.label) t.history t.rest
  := fun t ht => (hprogram t.label).reaches (reachable_reaches h hadmits t ht) fun _ hr => hr

/-- Every operation that a task performed satisfied at that time what is asserted of the
operations of its program. -/
theorem reachable_called {pre : κ → List (Event ρ) → ι → Prop}
    {post : κ → List (Event ρ) → α → Prop} (h : Reachable L.Step (.initial x₀) s)
    (hadmits : ∀ {i x r x'}, Answered L i x r x' → admits i r)
    (hprogram : ∀ l, Sat admits (pre l) (post l) [] (L.program l)) {t : Task κ ρ α}
    (ht : t ∈ s.tasks) {e : Event ρ} (he : e ∈ t.history) :
  ∃ es fs, t.history = es ++ e :: fs ∧ pre t.label es e.1
  := by
  obtain ⟨es, fs, hhistory⟩ := List.append_of_mem he
  have hreaches := reachable_reaches h hadmits t ht
  rw [hhistory] at hreaches
  exact ⟨es, fs, hhistory, (hprogram t.label).called_of_append hreaches⟩

/-- What an operation that was answered makes true of its answer and the shared state, and
nothing makes false, holds of all that the tasks performed. -/
theorem reachable_events {Q : Event ρ → σ → Prop} (h : Reachable L.Step (.initial x₀) s)
    (hanswer : ∀ {i x r x'}, Answered L i x r x' → Q ⟨i, r⟩ x' ∧ ∀ e, Q e x → Q e x')
    (habandon : ∀ {i x e}, Q e x → Q e (L.abandon i x))
    (houtside : ∀ {e' x x' e}, L.outside e' x = some x' → Q e x → Q e x') :
  ∀ t ∈ s.tasks, ∀ e ∈ t.history, Q e s.shared
  := by
  refine h.invariant (I := fun s => ∀ t ∈ s.tasks, ∀ e ∈ t.history, Q e s.shared)
    (List.forall_mem_nil _) ?_
  intro s a s' hs hstep
  have hkeeps : ∀ e, Q e s.shared → Q e s'.shared := by
    cases hstep.change with
    | spawn _ _ hshared | turn _ hshared =>
        rw [hshared]
        exact fun _ => id
    | answer _ _ _ hanswered => exact (hanswer hanswered).2
    | cancel _ _ _ hshared =>
        rw [hshared]
        exact fun _ => habandon
    | outside _ _ h => exact fun _ => houtside h
  have hs' : ∀ t ∈ s.tasks, ∀ e ∈ t.history, Q e s'.shared :=
    fun t ht e he => hkeeps e (hs t ht e he)
  apply hstep.change.forall_tasks hs'
  · exact fun l => List.forall_mem_nil _
  · intro t i next r ht _ hanswered
    exact List.forall_mem_append.mpr ⟨ht, List.forall_mem_singleton.mpr (hanswer hanswered).1⟩
  · exact fun ht => ht

/-- The task `u` is the task `t`, later. -/
structure Later (t u : Task κ ρ α) : Prop where
  label : u.label = t.label
  history : t.history <+: u.history
  cancelled : t.cancelled = true → u.cancelled = true

theorem Later.refl (t : Task κ ρ α) :
  Later t t
  := ⟨rfl, List.prefix_rfl, id⟩

/-- A task remains when another one takes its place in the list, or it does itself later. -/
theorem exists_mem_set {ts : List (Task κ ρ α)} {k : ℕ} {t t' u : Task κ ρ α}
    (ht : ts[k]? = some t) (hlater : Later t t') (hu : u ∈ ts) :
  ∃ u' ∈ ts.set k t', Later u u'
  := by
  obtain ⟨j, hj⟩ := List.mem_iff_getElem?.mp hu
  by_cases hjk : j = k
  · subst hjk
    obtain rfl : t = u := Option.some.inj (ht.symm.trans hj)
    have hlt : j < ts.length := (List.getElem?_eq_some_iff.mp hj).1
    exact ⟨t', List.mem_of_getElem? (List.getElem?_set_self hlt), hlater⟩
  · have hkept : (ts.set k t')[j]? = some u := by
      rw [List.getElem?_set_ne (Ne.symm hjk)]
      exact hj
    exact ⟨u, List.mem_of_getElem? hkept, .refl u⟩

/-- Tasks remain, and their histories grow. -/
theorem Change.grows (h : L.Change s s') {t : Task κ ρ α} (ht : t ∈ s.tasks) :
  ∃ t' ∈ s'.tasks, Later t t'
  := by
  cases h with
  | spawn l htasks => exact ⟨t, htasks ▸ List.mem_append_left _ ht, .refl t⟩
  | turn htasks | outside _ htasks => exact ⟨t, htasks ▸ ht, .refl t⟩
  | answer hu _ htasks =>
      rw [htasks]
      exact exists_mem_set hu ⟨rfl, List.prefix_append _ _, id⟩ ht
  | cancel hu _ htasks =>
      rw [htasks]
      exact exists_mem_set hu ⟨rfl, List.prefix_rfl, fun _ => rfl⟩ ht

/-- If the shared state comes to satisfy `P` only by operations that satisfy `Q`, then some
task has performed such an operation when it does. -/
theorem reachable_performed {P : σ → Prop} {Q : Event ρ → Prop}
    (h : Reachable L.Step (.initial x₀) s) (h₀ : ¬ P x₀)
    (hanswer : ∀ {i x r x'}, Answered L i x r x' → P x' → P x ∨ Q ⟨i, r⟩)
    (habandon : ∀ {i x}, P (L.abandon i x) → P x)
    (houtside : ∀ {e x x'}, L.outside e x = some x' → P x' → P x) (hP : P s.shared) :
  ∃ t ∈ s.tasks, ∃ e ∈ t.history, Q e
  := by
  revert hP
  refine h.invariant (I := fun s => P s.shared → ∃ t ∈ s.tasks, ∃ e ∈ t.history, Q e)
    (fun h => (h₀ h).elim) ?_
  intro s a s' hs hstep hP
  have hbefore (hP : P s.shared) : ∃ t ∈ s'.tasks, ∃ e ∈ t.history, Q e := by
    obtain ⟨t, ht, e, he, hQ⟩ := hs hP
    obtain ⟨t', ht', hlater⟩ := hstep.change.grows ht
    exact ⟨t', ht', e, hlater.history.subset he, hQ⟩
  cases hstep.change with
  | spawn _ _ hshared | turn _ hshared => exact hbefore (hshared ▸ hP)
  | outside _ _ h => exact hbefore (houtside h hP)
  | cancel _ _ _ hshared => exact hbefore (habandon (hshared ▸ hP))
  | @answer k t i next r ht _ htasks hanswered =>
      obtain hold | hQ := hanswer hanswered hP
      · exact hbefore hold
      · have hlt : k < s.tasks.length := (List.getElem?_eq_some_iff.mp ht).1
        refine ⟨t.answered i r (next r), ?_, ⟨i, r⟩, List.mem_concat_self, hQ⟩
        rw [htasks]
        exact List.mem_of_getElem? (List.getElem?_set_self hlt)

/-- While the shared state satisfies `J`, no task comes to satisfy `P`: those that satisfy it at
the end of a run did at its start. -/
theorem run_keeps {J : σ → Prop} {P : Task κ ρ α → Prop} (h : Reachable L.Step s s')
    (hJ : J s.shared) (hfresh : ∀ l, ¬ P (L.fresh l))
    (hanswer : ∀ {i x r x'}, J x → Answered L i x r x' → J x'
      ∧ ∀ t next, P (t.answered i r next) → P t)
    (hcancel : ∀ {t : Task κ ρ α}, P { t with cancelled := true } → P t)
    (habandon : ∀ {i x}, J x → J (L.abandon i x))
    (houtside : ∀ {e x x'}, J x → L.outside e x = some x' → J x') {k : ℕ} {t' : Task κ ρ α}
    (ht' : s'.tasks[k]? = some t') (hP : P t') :
  ∃ t, s.tasks[k]? = some t ∧ P t
  := by
  have hkeeps : J s'.shared ∧ ∀ (k : ℕ) (t' : Task κ ρ α), s'.tasks[k]? = some t' → P t' →
      ∃ t, s.tasks[k]? = some t ∧ P t := by
    refine h.invariant (I := fun u => J u.shared ∧ ∀ (k : ℕ) (t' : Task κ ρ α),
      u.tasks[k]? = some t' → P t' → ∃ t, s.tasks[k]? = some t ∧ P t) ?_ ?_
    · exact ⟨hJ, fun k t ht hP => ⟨t, ht, hP⟩⟩
    rintro u a u' ⟨hJ, hu⟩ hstep
    -- a task that takes the place of another one satisfies `P` only if that did
    have hset {k : ℕ} {t t' : Task κ ρ α} (ht : u.tasks[k]? = some t) (hPt : P t' → P t)
        (htasks : u'.tasks = u.tasks.set k t') :
        ∀ (j : ℕ) (v : Task κ ρ α), u'.tasks[j]? = some v → P v →
          ∃ t, s.tasks[j]? = some t ∧ P t := by
      intro j v hv hP
      rw [htasks] at hv
      by_cases hk : k = j
      · subst hk
        have hlt : k < u.tasks.length := (List.getElem?_eq_some_iff.mp ht).1
        obtain rfl := Option.some.inj ((List.getElem?_set_self hlt).symm.trans hv)
        exact hu k t ht (hPt hP)
      · rw [List.getElem?_set_ne hk] at hv
        exact hu j v hv hP
    cases hstep.change with
    | spawn l htasks hshared =>
        refine ⟨hshared ▸ hJ, fun j v hv hP => ?_⟩
        rw [htasks] at hv
        by_cases hlt : j < u.tasks.length
        · rw [List.getElem?_append_left hlt] at hv
          exact hu j v hv hP
        · rw [List.getElem?_append_right (Nat.le_of_not_lt hlt)] at hv
          obtain rfl := List.mem_singleton.mp (List.mem_of_getElem? hv)
          exact (hfresh l hP).elim
    | turn htasks hshared => exact ⟨hshared ▸ hJ, htasks ▸ hu⟩
    | outside e htasks h => exact ⟨houtside hJ h, htasks ▸ hu⟩
    | answer ht _ htasks hanswered =>
        obtain ⟨hJ', hPt⟩ := hanswer hJ hanswered
        exact ⟨hJ', hset ht (hPt _ _) htasks⟩
    | cancel ht _ htasks hshared =>
        exact ⟨hshared ▸ habandon hJ, hset ht hcancel htasks⟩
  exact hkeeps.2 k t' ht' hP

/-! ### Tasks that do not run -/

/-- A task that does not run has performed nothing yet, its program has returned, or its next
operation has suspended it. -/
inductive AtRest (L : Loop κ ι ρ α σ β η) (t : Task κ ρ α) : Prop where
  | fresh (h : t.history = [])
  | returned {a : α} (h : t.rest = .pure a)
  | suspended {i : ι} {next : ρ i → Program ι ρ α} {x : σ} (h : t.rest = .call i next)
      (hact : L.act i x = none)

theorem atRest_of_stops {t : Task κ ρ α} {x : σ} (h : L.stops t.rest x = true) :
  L.AtRest t
  := by
  unfold stops at h
  split at h
  · rename_i a hrest
    exact .returned hrest
  · rename_i i next hrest
    exact .suspended hrest (Option.isNone_iff_eq_none.mp h)

theorem reachable_atRest (h : Reachable L.Step (.initial x₀) s) {k : ℕ} {t : Task κ ρ α}
    (ht : s.tasks[k]? = some t) (hk : s.running ≠ some k) :
  L.AtRest t
  := by
  revert k t
  refine h.invariant (I := fun s => ∀ {k : ℕ} {t : Task κ ρ α}, s.tasks[k]? = some t →
    s.running ≠ some k → L.AtRest t) (fun ht => by cases ht) ?_
  intro s a s' hs hstep j u hu hj
  -- the other tasks are what they were, when a task is replaced
  have hother {k : ℕ} {t : Task κ ρ α} (hk : k ≠ j) (hu : (s.tasks.set k t)[j]? = some u) :
      s.tasks[j]? = some u := by
    rwa [List.getElem?_set_ne hk] at hu
  cases hstep.effect with
  | spawn l hidle =>
      by_cases hlt : j < s.tasks.length
      · rw [List.getElem?_append_left hlt] at hu
        exact hs hu hj
      · rw [List.getElem?_append_right (Nat.le_of_not_lt hlt)] at hu
        obtain rfl := List.mem_singleton.mp (List.mem_of_getElem? hu)
        exact .fresh rfl
  | start hidle => exact hs hu (by simp [hidle])
  | @perform k t i next r x hrunning =>
      have hk : k ≠ j := fun hk => hj (congrArg some hk)
      exact hs (hother hk hu) fun hsome => hk (Option.some.inj (hrunning.symm.trans hsome))
  | @suspend k t hrunning ht hstops =>
      by_cases hk : k = j
      · subst hk
        obtain rfl := Option.some.inj (ht.symm.trans hu)
        exact atRest_of_stops hstops
      · exact hs hu fun hsome => hk (Option.some.inj (hrunning.symm.trans hsome))
  | wake hidle => exact hs (hother (fun hk => hj (congrArg some hk)) hu) (by simp [hidle])
  | @cancel k t i next hidle ht hlive hrest =>
      by_cases hk : k = j
      · subst hk
        have hlt : k < s.tasks.length := (List.getElem?_eq_some_iff.mp ht).1
        obtain rfl := Option.some.inj ((List.getElem?_set_self hlt).symm.trans hu)
        cases hs ht (by simp [hidle]) with
        | fresh h => exact .fresh h
        | returned h => exact .returned h
        | suspended h hact => exact .suspended h hact
      · exact hs (hother hk hu) (by simp [hidle])
  | outside hidle => exact hs hu hj

/-- What holds of a program before it starts, whenever it can be suspended and when it returns,
holds of every task that does not run. -/
theorem reachable_settled {I : List (Event ρ) → Program ι ρ α → Prop}
    (h : Reachable L.Step (.initial x₀) s)
    (hprogram : ∀ l, Sat (fun _ _ => True)
      (fun h i => ∀ x next, L.act i x = none → I h (.call i next)) (fun h a => I h (.pure a)) []
      (L.program l))
    (hfresh : ∀ l, I [] (L.program l)) {k : ℕ} {t : Task κ ρ α} (ht : s.tasks[k]? = some t)
    (hk : s.running ≠ some k) :
  I t.history t.rest
  := by
  have hmem := List.mem_of_getElem? ht
  have hsat := reachable_sat h (fun _ => trivial) hprogram t hmem
  cases reachable_atRest h ht hk with
  | fresh hhistory =>
      have hreaches : Reaches (fun _ _ => True) (L.program t.label) t.history t.rest :=
        reachable_reaches h (fun _ => trivial) t hmem
      rw [hhistory] at hreaches ⊢
      rw [hreaches.deterministic (.refl _)]
      exact hfresh t.label
  | returned hrest =>
      rw [hrest] at hsat ⊢
      exact hsat
  | suspended hrest hact =>
      rw [hrest] at hsat ⊢
      exact hsat.1 _ _ hact

/-! ### Accounting -/

section

variable {M : Type*} [AddCommMonoid M] (weight : Event ρ → M) (measure : σ → M)

theorem Change.account {m₀ : M} (h : L.Change s s')
    (hanswer : ∀ {i x r x'}, Answered L i x r x' → measure x' = measure x + weight ⟨i, r⟩)
    (habandon : ∀ {i x}, measure (L.abandon i x) = measure x)
    (houtside : ∀ {e x x'}, L.outside e x = some x' → measure x' = measure x)
    (hs : measure s.shared = m₀ + s.weigh weight) :
  measure s'.shared = m₀ + s'.weigh weight
  := by
  cases h with
  | spawn l htasks hshared =>
      rw [hshared, hs, State.weigh, State.weigh, htasks, List.map_append, List.sum_append]
      simp [fresh, Task.weigh]
  | turn htasks hshared => rw [hshared, hs, State.weigh, State.weigh, htasks]
  | answer ht _ htasks hanswered =>
      rw [hanswer hanswered, hs, add_assoc, State.weigh, State.weigh, htasks,
        Tally.sum_map_set_add ht (Task.weigh_answered weight _ _ _ _)]
  | @cancel _ t _ _ ht _ htasks hshared =>
      have hsame : Task.weigh weight { t with cancelled := true } = t.weigh weight + 0 :=
        (add_zero _).symm
      rw [hshared, habandon, hs, State.weigh, State.weigh, htasks,
        Tally.sum_map_set_add ht hsame, add_zero]
  | outside e htasks h => rw [houtside h, hs, State.weigh, State.weigh, htasks]

/-- If every answer adds its weight to a measure of the shared state, and nothing else changes
the measure, then it has grown by what the histories of all tasks weigh. -/
theorem reachable_account (h : Reachable L.Step (.initial x₀) s)
    (hanswer : ∀ {i x r x'}, Answered L i x r x' → measure x' = measure x + weight ⟨i, r⟩)
    (habandon : ∀ {i x}, measure (L.abandon i x) = measure x)
    (houtside : ∀ {e x x'}, L.outside e x = some x' → measure x' = measure x) :
  measure s.shared = measure x₀ + s.weigh weight
  := by
  refine h.invariant (I := fun s => measure s.shared = measure x₀ + s.weigh weight) ?_ ?_
  · exact (add_zero _).symm
  · intro s a s' hs hstep
    exact hstep.change.account weight measure hanswer habandon houtside hs

end

end Loop

end EventLoop
