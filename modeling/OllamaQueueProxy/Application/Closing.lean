import OllamaQueueProxy.Application.Refinement

/-!
# Closing

Once the shutdown has begun, no request that reaches a catch-all route gets access any more that
had not found `shutting_down` unset before: it enqueues no item, reads nothing from the cache and
calls no host, and such a request that arrives later is answered with the status 503
(`run_closed`).  The routes for fixed paths do not look at `shutting_down`.
-/

open Program (Event Sat Calls)
open Transition
open Json (Text text)

namespace OllamaQueueProxy

/-! ### The handlers -/

/-- The request has found `shutting_down` unset. -/
def HasPassed (h : List (Event Op.Answer)) : Prop := ⟨.shuttingDown, false⟩ ∈ h

/-- The operation gives access only after the request has found `shutting_down` unset. -/
def AfterPass (h : List (Event Op.Answer)) (op : Op) : Prop :=
  op.access?.isSome = true → HasPassed h

theorem noAccess {h : List (Event Op.Answer)} {op : Op} (hop : op.access? = none) :
  AfterPass h op
  := by
  intro haccess
  rw [hop] at haccess
  cases haccess

/-- The request has found `shutting_down` unset, or it is answered with the status 503. -/
def TurnsAway (h : List (Event Op.Answer)) (outcome : Outcome) : Prop :=
  HasPassed h ∨ ∃ response, outcome = .response response ∧ response.statusCode = 503

theorem HasPassed.sat {h : List (Event Op.Answer)} (hpassed : HasPassed h)
    {α : Type} (p : Handler α) :
  Sat anyAnswer AfterPass (fun h' _ => HasPassed h') h p
  := by
  have hcalls : Calls (fun _ => True) p := by
    induction p with
    | pure a => trivial
    | call op next ih => exact ⟨trivial, ih⟩
  apply hcalls.sat_of_stable hpassed
  · exact fun hpassed _ _ => hpassed
  · exact fun hpassed _ => List.mem_append_left _ hpassed

/-- The handler of every port looks at `shutting_down` before it does anything that gives
access. -/
theorem handle_afterPass (digest : Text → Text) (cfg : Config) (port : Port) (r : Request) :
  Sat anyAnswer AfterPass TurnsAway [] (handle digest cfg port r)
  := by
  cases port with
  | main =>
      refine ⟨noAccess rfl, fun shutting _ => ?_⟩
      cases shutting with
      | true => exact .inr ⟨_, rfl, rfl⟩
      | false =>
          have hpassed : HasPassed [⟨.shuttingDown, false⟩] := List.mem_singleton_self _
          exact (hpassed.sat _).mono id .inl
  | injection injectAs k =>
      refine ⟨noAccess rfl, fun shared _ => ?_⟩
      cases shared with
      | false => exact .inr ⟨_, rfl, rfl⟩
      | true =>
          refine ⟨noAccess rfl, fun shutting _ => ?_⟩
          cases shutting with
          | true => exact .inr ⟨_, rfl, rfl⟩
          | false =>
              have hpassed : HasPassed ([⟨.sharedState, true⟩] ++ [⟨.shuttingDown, false⟩]) :=
                List.mem_concat_self
              exact (hpassed.sat _).mono id .inl

/-! ### The application -/

variable {digest : Text → Text} {unicode : Unicode} {cfg : Config} {queue : QueueConfig} {n : ℕ}

theorem outside_closing {e : Occurrence n} {x x' : Application n} (hx : x.phase ≠ .serving)
    (houtside : Application.outside queue e x = some x') :
  x'.phase ≠ .serving
  := by
  cases e with
  | work w =>
      obtain ⟨m, -, rfl⟩ := Option.map_eq_some_iff.mp houtside
      exact hx
  | finish w outcome =>
      simp only [Application.outside] at houtside
      split at houtside
      · obtain rfl := Option.some.inj houtside
        exact hx
      · cases houtside
  | tick | shutdown | drain =>
      simp only [Application.outside] at houtside
      split_ifs at houtside
      obtain rfl := Option.some.inj houtside
      simp [hx]
  | stopWorkers | stopped | unshare =>
      simp only [Application.outside] at houtside
      split at houtside
      · obtain rfl := Option.some.inj houtside
        simp [hx]
      · cases houtside

/-- Once the shutdown has begun, no request finds `shutting_down` unset. -/
theorem hasPassed_of_answered {op : RouteOp} {r : op.Answer} {x x' : Application n}
    (h : EventLoop.Loop.Answered (eventLoop digest unicode cfg queue n) op x r x')
    (hx : x.phase ≠ .serving) {es : List (Event RouteOp.Answer)}
    (hpassed : HasPassed (handlerEvents (es ++ [⟨op, r⟩]))) :
  HasPassed (handlerEvents es)
  := by
  have hmem := mem_handlerEvents.mp hpassed
  obtain hmem | hlast := List.mem_append.mp hmem
  · exact mem_handlerEvents.mpr hmem
  · have heq := List.mem_singleton.mp hlast
    cases heq
    cases h with
    | act hact =>
        obtain ⟨hphase, -⟩ := Prod.mk.inj (Option.some.inj hact)
        exact (hx (by simpa using hphase)).elim
    | wake reply hwake => cases hwake

/-- A request that has not passed by now will not pass once the shutdown has begun. -/
theorem run_closing {s s' : Running cfg n} (hclosing : s.shared.phase ≠ .serving)
    (hrun : Reachable (eventLoop digest unicode cfg queue n).Step s s') {k : ℕ} {t'}
    (ht' : s'.tasks[k]? = some t') (hpassed : HasPassed (handlerEvents t'.history)) :
  ∃ t, s.tasks[k]? = some t ∧ HasPassed (handlerEvents t.history)
  := by
  refine EventLoop.Loop.run_keeps (J := fun x => x.phase ≠ .serving)
    (P := fun t => HasPassed (handlerEvents t.history)) hrun hclosing ?_ ?_ id ?_ ?_ ht' hpassed
  · intro l hpassed
    cases hpassed
  · intro op x r x' hx hanswered
    use (answered_queueManager hanswered).2.1 ▸ hx
    exact fun t next => hasPassed_of_answered hanswered hx
  · intro op x hx
    cases op with
    | handler op => cases op <;> exact hx
    | pause | resume | drain | flush => exact hx
  · exact outside_closing

/-- Once the shutdown has begun, a request for a catch-all route that has not passed by then gets no
access, and it is answered with the status 503. -/
theorem run_closed {clock : ℚ} {s s' : Running cfg n}
    (h : Running.Reached digest unicode cfg queue clock s) (hclosing : s.shared.phase ≠ .serving)
    (hrun : Reachable (eventLoop digest unicode cfg queue n).Step s s') {k : ℕ} {t'}
    (ht' : s'.tasks[k]? = some t') {port : { port : Port // port ∈ cfg.ports }} {r : Request}
    {hcatches : port.1.catches r = true} (hlabel : t'.label = .request port r hcatches)
    (hlate : ∀ t, s.tasks[k]? = some t → ¬ HasPassed (handlerEvents t.history)) :
  (∀ e ∈ handlerEvents t'.history, e.1.access? = none)
    ∧ ∀ outcome, t'.rest = .pure outcome →
      ∃ response, outcome = .response response ∧ response.statusCode = 503
  := by
  have hnot : ¬ HasPassed (handlerEvents t'.history) := by
    intro hpassed
    obtain ⟨t, ht, hpassed⟩ := run_closing hclosing hrun ht' hpassed
    exact hlate t ht hpassed
  have hreached : Running.Reached digest unicode cfg queue clock s' := h.trans hrun
  have hreaches : Program.Reaches anyRouteAnswer _ _ _ :=
    EventLoop.Loop.reachable_reaches hreached (fun _ => trivial) t' (List.mem_of_getElem? ht')
  rw [hlabel] at hreaches
  have hsat := ofHandler_sat (h := []) (handle_afterPass digest cfg port.1 r)
  constructor
  · rintro ⟨op, answer⟩ he
    obtain ⟨es, fs, hhistory⟩ := List.append_of_mem (mem_handlerEvents.mp he)
    rw [hhistory] at hreaches
    obtain ⟨o, heq, hafter⟩ := hsat.called_of_append hreaches
    obtain rfl := RouteOp.handler.inj heq
    by_contra haccess
    apply hnot
    rw [hhistory, handlerEvents, List.filterMap_append]
    exact List.mem_append_left _ (hafter (Option.isSome_iff_ne_none.mpr haccess))
  · intro outcome hrest
    rw [hrest] at hreaches
    obtain hpassed | hturned := hsat.returned hreaches fun _ _ => trivial
    · exact (hnot hpassed).elim
    · exact hturned

/-- The shutdown begins after a request was accepted, before its handler runs. -/
def closingRun : List (EventLoop.Action (Purpose sampleConfig) Reply (Occurrence 1)) :=
  [.spawn samplePurpose, .outside .shutdown]

def closedRun : List (EventLoop.Action (Purpose sampleConfig) Reply (Occurrence 1)) :=
  [.start 0, .perform, .suspend]

/-- The shutdown has begun, and no task has performed anything. -/
def isClosing (s : Running sampleConfig 1) : Bool :=
  s.shared.phase != .serving && s.tasks.all fun t => t.history.isEmpty

/-- The first request has been answered. -/
def isTurnedAway (s : Running sampleConfig 1) : Bool :=
  s.tasks[0]?.any fun t => match t.label, t.rest with
    | .request _ _ _, .pure _ => true
    | _, _ => false

/-- The request is answered with the status 503. -/
theorem closedRun_closed :
  ∃ s, Running.Reached id .ascii sampleConfig .default 0 (n := 1) s ∧ ∃ t ∈ s.tasks,
    (∀ e ∈ handlerEvents t.history, e.1.access? = none)
      ∧ ∃ response, t.rest = .pure (.response response) ∧ response.statusCode = 503
  := by
  have hexec : ((exec (eventLoop id .ascii sampleConfig .default 1).step
      (Running.initial sampleConfig 1 0) closingRun).bind fun s =>
        if isClosing s then
          exec (eventLoop id .ascii sampleConfig .default 1).step s closedRun
        else none).any isTurnedAway = true := by
    decide +kernel
  obtain ⟨s', hs', hturned⟩ := (Option.any_eq_true _ _).mp hexec
  obtain ⟨s, hs, hclosed⟩ := Option.bind_eq_some_iff.mp hs'
  split_ifs at hclosed with hstart
  obtain ⟨hphase, hfresh⟩ := Bool.and_eq_true_iff.mp hstart
  have hreached : Running.Reached id .ascii sampleConfig .default 0 s := ⟨_, run_of_exec hs⟩
  have hrun : Reachable (eventLoop id .ascii sampleConfig .default 1).Step s s' :=
    ⟨_, run_of_exec hclosed⟩
  obtain ⟨t, ht, hend⟩ := (Option.any_eq_true _ _).mp hturned
  split at hend
  · rename_i port r _ outcome hlabel hrest
    have hlate : ∀ u, s.tasks[0]? = some u → ¬ HasPassed (handlerEvents u.history) := by
      intro u hu
      have hempty := List.all_eq_true.mp hfresh u (List.mem_of_getElem? hu)
      rw [List.isEmpty_iff.mp hempty]
      exact List.not_mem_nil
    have hresult := run_closed hreached (bne_iff_ne.mp hphase) hrun ht hlabel hlate
    obtain ⟨response, rfl, hstatus⟩ := hresult.2 outcome hrest
    exact ⟨s', hreached.trans hrun, t, List.mem_of_getElem? ht, hresult.1, response, hrest, hstatus⟩
  · cases hend

end OllamaQueueProxy
