import OllamaQueueProxy.Application.Refinement
import OllamaQueueProxy.Handler.Answers
import OllamaQueueProxy.Queue.Halt
import OllamaQueueProxy.Queue.Watermark

/-!
# Responses

A client is answered what became of its own request.  Whatever the tasks of the application do,
and in whatever order, the future that a handler awaits is the one of the item that it enqueued
itself, no two tasks have a future in common, and the future tells what became of that item: a
response that is passed on is the one with which the dispatch of the item ended
(`reachable_answer`).
-/

open Program (Event Sat Calls Reaches)
open Transition
open Json (Text text)

namespace OllamaQueueProxy

/-! ### The futures of items -/

namespace PriorityQueueManager

variable {δ ρ ε : Type} {n : ℕ} {queue : QueueConfig} {s s' : PriorityQueueManager δ ρ ε n}

/-- The futures of the admitted items are distinct and were created; what waits and what is
executed was admitted; and a future is pending that is not created yet. -/
structure Numbered (s : PriorityQueueManager δ ρ ε n) : Prop where
  fresh : ∀ item ∈ s.admitted, item.future < s.created
  distinct : (s.admitted.map QueueItem.future).Nodup
  queued : ∀ t, ∀ item ∈ s.queues t, item.tier = t ∧ item ∈ s.admitted
  executing : ∀ w item, s.workers w = .executing item → item ∈ s.admitted
  pending : ∀ k, s.created ≤ k → s.futures k = .pending

/-- An admitted item is known by its future. -/
theorem Numbered.eq_of_future (h : Numbered s) {item item' : QueueItem δ}
    (hitem : item ∈ s.admitted) (hitem' : item' ∈ s.admitted)
    (heq : item.future = item'.future) :
  item = item'
  := List.inj_on_of_nodup_map h.distinct hitem hitem' heq

theorem mem_of_getNowait {t : Tier} {item : QueueItem δ} {rest : List (QueueItem δ)}
    (hnext : s.getNowait = some (t, item, rest)) :
  item ∈ s.queues t
  := by
  rw [(getNowait_eq hnext).1]
  exact List.mem_cons_self

/-- A future that is resolved was created. -/
theorem Resolution.lt_created {a : Action δ ρ ε n} {k : ℕ} {f : Future ρ ε} (hs : Tracked s)
    (hstep : Step queue s a s') (h : Resolution s a k f) :
  k < s.created
  := by
  cases h with
  | expired hnext =>
      exact hs.fresh _ ((hs.queue _).2 _ (mem_of_getNowait hnext)).2
  | returned hexecuting | raised hexecuting => exact hs.fresh _ (hs.worker hexecuting)
  | flushed _ hitem => exact hs.fresh _ ((hs.queue _).2 _ hitem).2
  | cancelled =>
      simp only [Step, ofStep, step] at hstep
      split_ifs at hstep with hk
      exact hk

theorem reachable_pending (h : Reachable (Step queue) (initial δ ρ ε n) s) :
  ∀ k, s.created ≤ k → s.futures k = .pending
  := by
  have hs : Reachable (Step queue) (initial δ ρ ε n) s
      ∧ ∀ k, s.created ≤ k → s.futures k = .pending := by
    refine h.invariant (I := fun s => Reachable (Step queue) (initial δ ρ ε n) s
      ∧ ∀ k, s.created ≤ k → s.futures k = .pending) ⟨.refl _, fun _ _ => rfl⟩ ?_
    rintro s a s' ⟨hreach, hpending⟩ hstep
    use hreach.step hstep
    intro k hk
    have hlt := (step_created_le hstep).trans hk
    obtain hkept | ⟨-, hresolved⟩ := step_resolution hstep k
    · exact hkept.trans (hpending k hlt)
    · have hcreated := hresolved.lt_created (Reachable.tracked hreach) hstep
      omega
  exact hs.2

theorem reachable_numbered (h : Reachable (Step queue) (initial δ ρ ε n) s) :
  Numbered s
  := by
  have htracked := Reachable.tracked h
  constructor
  · exact htracked.fresh
  · exact htracked.distinct
  · exact fun t => (htracked.queue t).2
  · exact fun w item => htracked.worker
  · exact reachable_pending h

theorem Numbered.halt (h : Numbered s) (permits : ℕ) :
  Numbered (s.halt permits)
  := by
  constructor
  · exact h.fresh
  · exact h.distinct
  · exact h.queued
  · intro w item hexecuting
    cases hexecuting
  · exact h.pending

theorem Numbered.createFuture (h : Numbered s) :
  Numbered s.createFuture
  := by
  constructor
  · exact fun item hitem => (h.fresh item hitem).trans (Nat.lt_succ_self _)
  · exact h.distinct
  · exact h.queued
  · exact h.executing
  · exact fun k hk => h.pending k ((Nat.le_succ _).trans hk)

theorem admitted_checkWatermark {t : Tier} (h : checkWatermark queue s t = some s') :
  s'.admitted = s.admitted
  := by
  unfold checkWatermark at h
  split at h
  · cases h
  · split_ifs at h <;> obtain rfl := Option.some.inj h
    · rw [admitted, moves_fireEvent]
      rfl
    · rfl
    · rfl

theorem admitted_put (s : PriorityQueueManager δ ρ ε n) (item : QueueItem δ) :
  (s.put item).admitted = s.admitted ++ [item]
  := by
  have hmoves : (s.put item).moves = s.moves ++ [.arrive item] := by
    rw [put, moves_record, setHasItems_moves]
    rfl
  rw [admitted, hmoves, Station.arrivals, Station.record_append]
  rfl

/-- An item is admitted unless it is refused, and then only it is.  Its position is told unless the
check of the high watermark fails. -/
theorem enqueue_admitted (s : PriorityQueueManager δ ρ ε n) (item : QueueItem δ) :
  ((s.enqueue queue item).1.admitted = s.admitted ∧ ∀ p, (s.enqueue queue item).2 ≠ .ok p)
    ∨ (s.enqueue queue item).1.admitted
        = s.admitted ++ [{ item with position := s.nextPosition item.tier }]
      ∧ ((s.enqueue queue item).2 = .ok (s.nextPosition item.tier)
        ∨ (s.enqueue queue item).2 = .error .zeroDivision)
  := by
  by_cases hadmits : Admits queue s item
  · right
    constructor
    · rw [enqueue_fst_of_admits hadmits, ← admitted_put]
      cases hcheck : checkWatermark queue
          (s.put { item with position := s.nextPosition item.tier }) item.tier with
      | none => rfl
      | some s' => exact admitted_checkWatermark hcheck
    · rw [(enqueue_of_admits hadmits).2]
      split_ifs
      · exact .inr rfl
      · exact .inl rfl
  · left
    obtain ⟨e, -, hsame | ⟨event, -, hreject⟩⟩ := enqueue_refuses hadmits
    · rw [hsame]
      exact ⟨rfl, by simp⟩
    · rw [hreject]
      refine ⟨?_, by simp⟩
      rw [admitted, reject, moves_fireEvent]
      rfl

theorem step_admitted {a : Action δ ρ ε n} (ha : ∀ request, a ≠ .enqueue request)
    (h : Step queue s a s') :
  s'.admitted = s.admitted
  := Step.invariant (I := fun m => m.admitted = s.admitted)
    (fun hs heffect => (heffect.admitted ha).trans hs) rfl h

end PriorityQueueManager

open PriorityQueueManager (Numbered)

variable {digest : Text → Text} {unicode : Unicode} {cfg : Config} {queue : QueueConfig} {n : ℕ}

/-- The lifespan numbers its futures as the queue does. -/
theorem Lifespan.reachable_numbered {l : Lifespan DispatchCall Response Unit n}
    (h : Reachable (Lifespan.Step queue) (Lifespan.initial DispatchCall Response Unit n) l) :
  Numbered l.manager
  := by
  obtain ⟨m, hreach, hfollows⟩ := Lifespan.reachable_halted h
  have hnumbered := PriorityQueueManager.reachable_numbered hreach
  obtain heq | ⟨permits, heq⟩ := hfollows <;> rw [heq]
  · exact hnumbered
  · exact hnumbered.halt permits

section

variable {clock : ℚ} {s : Running cfg n}

/-- In every state of the application its futures are numbered. -/
theorem reachable_numbered (h : Running.Reached digest unicode cfg queue clock s) :
  Numbered s.shared.queueManager
  := by
  obtain ⟨l, hreach, hmanager, -, -⟩ := reachable_simulated h
  have hnumbered := Lifespan.reachable_numbered hreach
  cases hpending : s.submitting? with
  | none =>
      rw [hpending] at hmanager
      exact hmanager ▸ hnumbered
  | some k =>
      rw [hpending] at hmanager
      exact hmanager.2 ▸ hnumbered.createFuture

/-- The future that a task has just created is the last one, and no admitted item has it. -/
theorem reachable_submitting (h : Running.Reached digest unicode cfg queue clock s) {k : ℕ}
    (hk : s.submitting? = some k) :
  s.shared.queueManager.futures k = .pending
    ∧ ∀ item ∈ s.shared.queueManager.admitted, item.future < k
  := by
  obtain ⟨l, hreach, hmanager, -, -⟩ := reachable_simulated h
  have hnumbered := Lifespan.reachable_numbered hreach
  rw [hk] at hmanager
  obtain ⟨rfl, hmanager⟩ := hmanager
  rw [hmanager]
  exact ⟨hnumbered.pending _ le_rfl, hnumbered.fresh⟩

end

/-! ### What became of an item -/

/-- The future of an item tells what became of it. -/
inductive Explained (ended : List (QueueItem DispatchCall × Except Unit Response))
    (item : QueueItem DispatchCall) : Future Response Unit → Prop where
  | pending : Explained ended item .pending
  | cancelled : Explained ended item .cancelled
  | returned {response : Response} (h : (item, .ok response) ∈ ended) :
      Explained ended item (.result response)
  | raised {e : Unit} (h : (item, .error e) ∈ ended) :
      Explained ended item (.exception (.dispatch e))
  | expired : Explained ended item (.exception (.requestExpired item.tier item.requestId))
  | flushed : Explained ended item (.exception (.queueFlushed item.tier))

/-- The futures of all admitted items tell what became of them. -/
def Application.Explains (x : Application n) : Prop :=
  ∀ item ∈ x.queueManager.admitted, Explained x.ended item (x.queueManager.futures item.future)

section

variable {ended ended' : List (QueueItem DispatchCall × Except Unit Response)}
  {item : QueueItem DispatchCall} {f : Future Response Unit}

theorem Explained.mono (h : Explained ended item f) (hended : ended ⊆ ended') :
  Explained ended' item f
  := by
  cases h with
  | pending => exact .pending
  | cancelled => exact .cancelled
  | returned h => exact .returned (hended h)
  | raised h => exact .raised (hended h)
  | expired => exact .expired
  | flushed => exact .flushed

/-- A future that is resolved tells what became of its item. -/
theorem explained_of_resolution {m : PriorityQueueManager DispatchCall Response Unit n}
    {a : Action DispatchCall Response Unit n} (hm : Numbered m) (hitem : item ∈ m.admitted)
    (hfinish : ∀ w now outcome, a = .finish w now outcome → m.workers w = .executing item →
      (item, outcome) ∈ ended)
    (h : PriorityQueueManager.Resolution m a item.future f) :
  Explained ended item f
  := by
  generalize hk : item.future = k at h
  cases h with
  | expired hnext =>
      obtain ⟨-, hadmitted⟩ := hm.queued _ _ (PriorityQueueManager.mem_of_getNowait hnext)
      obtain rfl := hm.eq_of_future hitem hadmitted hk
      exact .expired
  | returned hexecuting =>
      obtain rfl := hm.eq_of_future hitem (hm.executing _ _ hexecuting) hk
      exact .returned (hfinish _ _ _ rfl hexecuting)
  | raised hexecuting =>
      obtain rfl := hm.eq_of_future hitem (hm.executing _ _ hexecuting) hk
      exact .raised (hfinish _ _ _ rfl hexecuting)
  | flushed _ hqueued =>
      obtain ⟨rfl, hadmitted⟩ := hm.queued _ _ hqueued
      obtain rfl := hm.eq_of_future hitem hadmitted hk
      exact .flushed
  | cancelled => exact .cancelled

/-- An action on the queue by which nothing is enqueued. -/
theorem Application.Explains.step {x x' : Application n}
    {a : Action DispatchCall Response Unit n} (hx : x.Explains) (hm : Numbered x.queueManager)
    (ha : ∀ request, a ≠ .enqueue request)
    (hstep : PriorityQueueManager.Step queue x.queueManager a x'.queueManager)
    (hended : x.ended ⊆ x'.ended)
    (hfinish : ∀ w now outcome item, a = .finish w now outcome →
      x.queueManager.workers w = .executing item → (item, outcome) ∈ x'.ended) :
  x'.Explains
  := by
  intro item hitem
  rw [PriorityQueueManager.step_admitted ha hstep] at hitem
  obtain hkept | ⟨-, hresolved⟩ := PriorityQueueManager.step_resolution hstep item.future
  · rw [hkept]
    exact (hx item hitem).mono hended
  · exact explained_of_resolution hm hitem (fun w now outcome => hfinish w now outcome item)
      hresolved

/-- The operations of the tasks, with the item that is enqueued, if one is. -/
theorem Application.Explains.queueAfter {x x' : Application n} {op : RouteOp} (hx : x.Explains)
    (hm : Numbered x.queueManager)
    (hpending : ∀ item, op = .handler (.enqueue item) →
      x.queueManager.futures item.future = .pending)
    (hmanager : x'.queueManager = queueAfter queue x.queueManager op)
    (hended : x'.ended = x.ended) :
  x'.Explains
  := by
  have hsame (hmanager : x'.queueManager = x.queueManager) : x'.Explains := by
    rw [Application.Explains, hmanager, hended]
    exact hx
  have hstep {a : Action DispatchCall Response Unit n} (ha : ∀ request, a ≠ .enqueue request)
      (hfinish : ∀ w now outcome, a ≠ .finish w now outcome)
      (hstep : PriorityQueueManager.Step queue x.queueManager a x'.queueManager) :
      x'.Explains :=
    hx.step hm ha hstep (hended ▸ List.Subset.refl _)
      fun w now outcome _ heq => absurd heq (hfinish w now outcome)
  cases op with
  | handler op =>
      cases op with
      | createFuture =>
          rw [Application.Explains, hmanager, hended]
          exact hx
      | enqueue item =>
          intro i hi
          rw [hmanager] at hi ⊢
          change Explained _ _ ((x.queueManager.enqueue queue item).1.futures _)
          rw [(PriorityQueueManager.enqueue_sameFutures x.queueManager item).futures, hended]
          obtain ⟨hadmitted, -⟩ | ⟨hadmitted, -⟩ :=
            @PriorityQueueManager.enqueue_admitted _ _ _ _ queue x.queueManager item
          · exact hx i (hadmitted ▸ hi)
          · obtain hold | hnew := List.mem_append.mp (hadmitted ▸ hi)
            · exact hx i hold
            · obtain rfl := List.mem_singleton.mp hnew
              rw [hpending item rfl]
              exact .pending
      | _ => exact hsame hmanager
  | pause tier => exact hstep (a := .pause tier) (by simp) (by simp) (by rw [hmanager]; rfl)
  | resume tier => exact hstep (a := .resume tier) (by simp) (by simp) (by rw [hmanager]; rfl)
  | flush tier => exact hstep (a := .flush tier) (by simp) (by simp) (by rw [hmanager]; rfl)
  | drain => exact hsame hmanager

end

/-- A caller that is cancelled leaves the other futures explained. -/
theorem Application.Explains.abandon {x : Application n} (hx : x.Explains) (op : RouteOp) :
  (Application.abandon op x).Explains
  := by
  cases op with
  | handler op =>
      cases op with
      | await item =>
          intro i hi
          change Explained x.ended i (Function.update x.queueManager.futures item.future
            (x.queueManager.futures item.future).cancel i.future)
          by_cases hfuture : i.future = item.future
          · rw [hfuture, Function.update_self, ← hfuture]
            have hexplained := hx i hi
            cases hf : x.queueManager.futures i.future with
            | pending => exact .cancelled
            | result | exception | cancelled =>
                rw [hf] at hexplained
                exact hexplained
          · rw [Function.update_of_ne hfuture]
            exact hx i hi
      | _ => exact hx
  | pause | resume | drain | flush => exact hx

theorem Application.Explains.outside {x x' : Application n} {e : Occurrence n} (hx : x.Explains)
    (hm : Numbered x.queueManager) (houtside : Application.outside queue e x = some x') :
  x'.Explains
  := by
  cases outside_queueChange houtside with
  | same _ hmanager hended =>
      rw [Application.Explains, hmanager, hended]
      exact hx
  | work hstep hended =>
      refine hx.step hm (by simp) hstep (hended ▸ List.Subset.refl _) ?_
      intro w now outcome item heq
      cases heq
  | finish hexecuting hstep hended =>
      refine hx.step hm (by simp) hstep (hended ▸ List.subset_append_left _ _) ?_
      intro w now outcome item heq hworker
      cases heq
      cases hexecuting.symm.trans hworker
      rw [hended]
      exact List.mem_concat_self
  | stopWorkers hmanager hended =>
      rw [Application.Explains, hmanager, hended]
      exact hx

theorem reachable_explains {clock : ℚ} {s : Running cfg n}
    (h : Running.Reached digest unicode cfg queue clock s) :
  s.shared.Explains
  := by
  have hs : Running.Reached digest unicode cfg queue clock s ∧ s.shared.Explains := by
    refine h.invariant (I := fun s => Running.Reached digest unicode cfg queue clock s
      ∧ s.shared.Explains) ⟨.refl _, List.forall_mem_nil _⟩ ?_
    rintro s a s' ⟨hreached, hx⟩ hstep
    use hreached.step hstep
    have hm := reachable_numbered hreached
    cases (EventLoop.Loop.Step.effect hstep) with
    | spawn | start | suspend => exact hx
    | perform hrunning ht hrest hact =>
        obtain ⟨hmanager, -, hended⟩ := act_queueManager hact
        refine hx.queueAfter hm ?_ hmanager hended
        rintro item rfl
        have hcall := reachable_inOrder hreached _ (List.mem_of_getElem? ht)
        rw [hrest] at hcall
        have hsubmitting : s.submitting? = some item.future := by
          rw [Running.submitting?, hrunning, Option.bind_some, ht]
          exact hcall.1.1
        exact (reachable_submitting hreached hsubmitting).1
    | wake _ ht _ hrest hwake =>
        obtain rfl := wake_shared hwake
        exact hx
    | cancel => exact hx.abandon _
    | outside _ houtside => exact hx.outside hm houtside
  exact hs.2

/-! ### What the tasks see of it -/

/-- What was admitted remains so, and a future that is done keeps its result. -/
structure Persists (m m' : PriorityQueueManager DispatchCall Response Unit n) : Prop where
  admitted : m.admitted ⊆ m'.admitted
  done : ∀ k, (m.futures k).done = true → m'.futures k = m.futures k

section

variable {m m' : PriorityQueueManager DispatchCall Response Unit n}

theorem Persists.refl (m : PriorityQueueManager DispatchCall Response Unit n) :
  Persists m m
  := ⟨List.Subset.refl _, fun _ _ => rfl⟩

theorem persists_of_step {a : Action DispatchCall Response Unit n}
    (ha : ∀ request, a ≠ .enqueue request) (h : PriorityQueueManager.Step queue m a m') :
  Persists m m'
  := ⟨(PriorityQueueManager.step_admitted ha h).symm ▸ List.Subset.refl _,
      fun _ hk => PriorityQueueManager.Step.keeps_done h hk⟩

theorem persists_queueAfter (op : RouteOp) :
  Persists m (queueAfter queue m op)
  := by
  cases op with
  | handler op =>
      cases op with
      | enqueue item =>
          have hfutures := (@PriorityQueueManager.enqueue_sameFutures _ _ _ _ queue m item).futures
          refine ⟨?_, fun k _ => congrFun hfutures k⟩
          obtain ⟨hadmitted, -⟩ | ⟨hadmitted, -⟩ :=
            @PriorityQueueManager.enqueue_admitted _ _ _ _ queue m item
          · exact hadmitted.symm ▸ List.Subset.refl _
          · exact hadmitted.symm ▸ List.subset_append_left _ _
      | createFuture => exact ⟨List.Subset.refl _, fun _ _ => rfl⟩
      | _ => exact .refl m
  | pause tier => exact persists_of_step (by simp) (PriorityQueueManager.step_pause queue m tier)
  | resume tier => exact persists_of_step (by simp) (PriorityQueueManager.step_resume queue m tier)
  | flush tier => exact persists_of_step (by simp) (PriorityQueueManager.step_flush queue m tier)
  | drain => exact .refl m

theorem persists_abandon (op : RouteOp) (x : Application n) :
  Persists x.queueManager (Application.abandon op x).queueManager
  := by
  cases op with
  | handler op =>
      cases op with
      | await item =>
          refine ⟨List.Subset.refl _, fun k hk => ?_⟩
          change Function.update x.queueManager.futures item.future
            (x.queueManager.futures item.future).cancel k = _
          by_cases hfuture : k = item.future
          · subst hfuture
            rw [Function.update_self, Future.cancel_of_done hk]
          · rw [Function.update_of_ne hfuture]
      | _ => exact .refl _
  | pause | resume | drain | flush => exact .refl _

theorem persists_outside {e : Occurrence n} {x x' : Application n}
    (houtside : Application.outside queue e x = some x') :
  Persists x.queueManager x'.queueManager
  := by
  cases outside_queueChange houtside with
  | same _ hmanager => exact hmanager ▸ .refl _
  | work hstep | finish _ hstep => exact persists_of_step (by simp) hstep
  | stopWorkers hmanager =>
      rw [hmanager]
      exact ⟨List.Subset.refl _, fun _ _ => rfl⟩

end

/-- The future that is answered so. -/
def Future.ofAnswer : Except (FutureException Unit) Response → Future Response Unit
  | .ok response => .result response
  | .error e => .exception e

/-- What the event says of the queue: the item was admitted, or its future is answered so. -/
def Recorded : Event RouteOp.Answer → Application n → Prop
  | ⟨.handler (.enqueue item), .ok position⟩, x =>
      { item with position := position } ∈ x.queueManager.admitted
  | ⟨.handler (.await item), answer⟩, x =>
      x.queueManager.futures item.future = .ofAnswer answer
  | _, _ => True

theorem Recorded.persists {e : Event RouteOp.Answer} {x x' : Application n}
    (h : Persists x.queueManager x'.queueManager) (he : Recorded e x) :
  Recorded e x'
  := by
  obtain ⟨op, r⟩ := e
  cases op with
  | handler op =>
      cases op with
      | enqueue item =>
          cases r with
          | error => trivial
          | ok position => exact h.admitted he
      | await item =>
          refine (h.done _ ?_).trans he
          rw [show x.queueManager.futures item.future = .ofAnswer r from he]
          cases r <;> rfl
      | _ => trivial
  | pause | resume | drain | flush => trivial

/-- What an operation answers it records. -/
theorem recorded_of_answered {op : RouteOp} {r : op.Answer} {x x' : Application n}
    (h : EventLoop.Loop.Answered (eventLoop digest unicode cfg queue n) op x r x') :
  Recorded ⟨op, r⟩ x'
  := by
  cases op with
  | handler op =>
      cases op with
      | enqueue item =>
          cases h with
          | act hact =>
              obtain ⟨rfl, rfl⟩ := Prod.mk.inj (Option.some.inj hact)
              cases hresult : (x.queueManager.enqueue queue item).2 with
              | error => trivial
              | ok position =>
                  change _ ∈ (x.queueManager.enqueue queue item).1.admitted
                  obtain ⟨-, hrefused⟩ | ⟨hadmitted, hposition | hfailed⟩ :=
                    @PriorityQueueManager.enqueue_admitted _ _ _ _ queue x.queueManager item
                  · exact (hrefused position hresult).elim
                  · obtain rfl := Except.ok.inj (hresult.symm.trans hposition)
                    rw [hadmitted]
                    exact List.mem_concat_self
                  · cases hresult.symm.trans hfailed
          | wake reply hwake => cases hwake
      | await item =>
          cases h with
          | act hact => cases hact
          | wake reply hwake =>
              obtain ⟨answer, hanswer, heq⟩ := Option.map_eq_some_iff.mp hwake
              obtain ⟨rfl, rfl⟩ := Prod.mk.inj heq
              change x.queueManager.futures item.future = .ofAnswer answer
              cases hf : x.queueManager.futures item.future with
              | pending | cancelled =>
                  rw [hf] at hanswer
                  cases hanswer
              | result | exception =>
                  rw [hf] at hanswer
                  obtain rfl := Option.some.inj hanswer
                  rfl
      | _ => trivial
  | pause | resume | drain | flush => trivial

section

variable {clock : ℚ} {s : Running cfg n}

/-- What the tasks were answered still holds of the queue. -/
theorem reachable_recorded (h : Running.Reached digest unicode cfg queue clock s) :
  ∀ t ∈ s.tasks, ∀ e ∈ t.history, Recorded e s.shared
  := by
  refine EventLoop.Loop.reachable_events (Q := Recorded) h ?_ ?_ ?_
  · intro op x r x' hanswered
    use recorded_of_answered hanswered
    intro e
    apply Recorded.persists
    rw [(answered_queueManager hanswered).1]
    exact persists_queueAfter op
  · intro op x e
    exact Recorded.persists (persists_abandon op x)
  · intro e' x x' e houtside
    exact Recorded.persists (persists_outside houtside)

/-- The future that an event has created. -/
def createdBy : Event RouteOp.Answer → Multiset ℕ
  | ⟨.handler .createFuture, k⟩ => {k}
  | _ => 0

/-- A task that creates a future creates the next one. -/
theorem range_created_of_answered {op : RouteOp} {r : op.Answer} {x x' : Application n}
    (h : EventLoop.Loop.Answered (eventLoop digest unicode cfg queue n) op x r x') :
  Multiset.range x'.queueManager.created
    = Multiset.range x.queueManager.created + createdBy ⟨op, r⟩
  := by
  rw [(answered_queueManager h).1]
  cases op with
  | handler op =>
      cases op with
      | createFuture =>
          cases h with
          | act hact =>
              obtain ⟨rfl, -⟩ := Prod.mk.inj (Option.some.inj hact)
              change Multiset.range (x.queueManager.created + 1) = _
              rw [Multiset.range_succ, ← Multiset.singleton_add, add_comm]
              rfl
          | wake reply hwake => cases hwake
      | enqueue item =>
          rw [queueAfter,
            (PriorityQueueManager.enqueue_sameFutures x.queueManager item).created]
          exact (add_zero _).symm
      | _ => exact (add_zero _).symm
  | flush tier =>
      rw [queueAfter, PriorityQueueManager.step_created_eq (by simp)
        (PriorityQueueManager.step_flush queue x.queueManager tier)]
      exact (add_zero _).symm
  | pause | resume | drain => exact (add_zero _).symm

/-- No two tasks have created the same future. -/
theorem reachable_owner (h : Running.Reached digest unicode cfg queue clock s) {t u}
    (ht : t ∈ s.tasks) (hu : u ∈ s.tasks) {k : ℕ}
    (htk : ⟨.handler .createFuture, k⟩ ∈ t.history)
    (huk : ⟨.handler .createFuture, k⟩ ∈ u.history) :
  u = t
  := by
  have haccount : Multiset.range s.shared.queueManager.created
      = Multiset.range 0 + s.weigh createdBy := by
    refine EventLoop.Loop.reachable_account createdBy
      (fun x => Multiset.range x.queueManager.created) h ?_ ?_ ?_
    · exact fun hanswered => range_created_of_answered hanswered
    · intro op x
      cases op with
      | handler op => cases op <;> rfl
      | pause | resume | drain | flush => rfl
    · intro e x x' houtside
      cases outside_queueChange houtside with
      | same _ hmanager => rw [hmanager]
      | stopWorkers hmanager =>
          rw [hmanager]
          rfl
      | work hstep | finish _ hstep =>
          rw [PriorityQueueManager.step_created_eq (by simp) hstep]
  rw [Multiset.range_zero, zero_add] at haccount
  have hnodup := haccount ▸ Multiset.nodup_range s.shared.queueManager.created
  have hmem {t : EventLoop.Task (Purpose cfg) RouteOp.Answer Outcome}
      (htk : ⟨.handler .createFuture, k⟩ ∈ t.history) : k ∈ t.weigh createdBy := by
    have hself : k ∈ createdBy ⟨.handler .createFuture, k⟩ := Multiset.mem_singleton_self k
    exact Tally.mem_sum_of_mem htk hself
  exact Tally.eq_of_nodup_sum hnodup hu ht (hmem huk) (hmem htk)

/-- The item was enqueued by the task, at the position, and no other task has its future. -/
structure Owns (s : Running cfg n) (t : EventLoop.Task (Purpose cfg) RouteOp.Answer Outcome)
    (item : QueueItem DispatchCall) (position : ℕ) : Prop where
  enqueued : ⟨.handler (.enqueue item), .ok position⟩ ∈ t.history
  unique : ∀ u ∈ s.tasks, ⟨.handler .createFuture, item.future⟩ ∈ u.history → u = t

/-- A task is answered what became of the item that it has enqueued itself. -/
theorem reachable_answer (h : Running.Reached digest unicode cfg queue clock s) {t}
    (ht : t ∈ s.tasks) {item : QueueItem DispatchCall} {position : ℕ}
    (henqueue : ⟨.handler (.enqueue item), .ok position⟩ ∈ t.history)
    {answer : Except (FutureException Unit) Response}
    (hawait : ⟨.handler (.await item), answer⟩ ∈ t.history) :
  Owns s t item position
    ∧ Explained s.shared.ended { item with position := position } (.ofAnswer answer)
  := by
  have hcreate := reachable_enqueued h ht henqueue
  refine ⟨⟨henqueue, fun u hu huk => reachable_owner h ht hu hcreate huk⟩, ?_⟩
  have hrecorded := reachable_recorded h t ht
  have hadmitted : { item with position := position } ∈ s.shared.queueManager.admitted :=
    hrecorded _ henqueue
  have hanswer : s.shared.queueManager.futures item.future = .ofAnswer answer :=
    hrecorded _ hawait
  exact hanswer ▸ reachable_explains h _ hadmitted

/-! ### What the clients see of it -/

/-- Where the answer to a request comes from, with the dispatches of the workers. -/
inductive OwnAnswer (digest : Text → Text) (cfg : Config) (r : Request) (s : Running cfg n)
    (t : EventLoop.Task (Purpose cfg) RouteOp.Answer Outcome) : Outcome → Prop where
  | raised : OwnAnswer digest cfg r s t .raised
  /-- An error in the name of the request. -/
  | error (statusCode : ℕ) (message : String) (headers : Dict String String) :
      OwnAnswer digest cfg r s t (.response (.error statusCode message r.requestId headers))
  | startingUp : OwnAnswer digest cfg r s t (.response ⟨503, .json (.object [(text "error",
      .string (text "proxy is starting up, retry shortly"))]), []⟩)
  /-- The value that the cache gave for the key of the request. -/
  | cached {call : DispatchCall} {entry : CacheEntry} {key : Text} {bytes : Bytes}
      (hcall : call.request = r)
      (hentry : toCache? cfg.embeddingCache call.path call.body = some entry)
      (hkey : EmbeddingCache.buildKey? digest cfg.embeddingCache entry.path entry.fields
        entry.model = some key)
      (hget : ⟨.handler (.cacheGet key call.clientId), .ok (some bytes)⟩ ∈ t.history) :
      OwnAnswer digest cfg r s t (cacheHit bytes)
  /-- The response to a call past the queue. -/
  | dispatched {call : DispatchCall} {response : Response} (hcall : call.request = r)
      (hdispatch : ⟨.handler (.dispatch call), some response⟩ ∈ t.history) :
      OwnAnswer digest cfg r s t (.response response)
  /-- The response with which the dispatch of the item of the task ended. -/
  | queued {item : QueueItem DispatchCall} {position : ℕ} {response : Response}
      (howns : Owns s t item position) (hrequest : item.dispatchFn.request = r)
      (hended : ({ item with position := position }, .ok response) ∈ s.shared.ended)
      (waitMs : ℤ) : OwnAnswer digest cfg r s t (.response (response.setWait waitMs position))
  | wrapped {outcome : Outcome} (hsourced : OwnAnswer digest cfg r s t outcome) :
      OwnAnswer digest cfg r s t (wrapOutcome outcome)

theorem ownAnswer_of_sourced {r : Request}
    (h : Running.Reached digest unicode cfg queue clock s) {t} (ht : t ∈ s.tasks)
    {outcome : Outcome} (hsourced : Sourced digest cfg.embeddingCache r (handlerEvents t.history)
      outcome) :
  OwnAnswer digest cfg r s t outcome
  := by
  induction hsourced with
  | raised => exact .raised
  | error statusCode message headers => exact .error statusCode message headers
  | startingUp => exact .startingUp
  | cached hcall hentry hkey hget => exact .cached hcall hentry hkey (mem_handlerEvents.mp hget)
  | dispatched hcall hdispatch => exact .dispatched hcall (mem_handlerEvents.mp hdispatch)
  | @queued item position response hrequest hitem hawait waitMs =>
      obtain ⟨howns, hexplained⟩ :=
        reachable_answer h ht (mem_handlerEvents.mp hitem) (mem_handlerEvents.mp hawait)
      cases hexplained with
      | returned hended => exact .queued howns hrequest hended waitMs
  | @failed item position e hid hitem hawait =>
      obtain ⟨-, hexplained⟩ :=
        reachable_answer h ht (mem_handlerEvents.mp hitem) (mem_handlerEvents.mp hawait)
      cases hexplained with
      | expired =>
          change OwnAnswer _ _ _ _ _ (.response (.error 503 _ item.requestId []))
          rw [hid]
          exact .error _ _ _
      | raised | flushed => exact .error _ _ _
  | wrapped _ ih => exact .wrapped ih

end

end OllamaQueueProxy
