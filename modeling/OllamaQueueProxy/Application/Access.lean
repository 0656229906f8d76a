import OllamaQueueProxy.Application.Responses

/-!
# Access to the queue

Whatever the tasks of the application do, and in whatever order, an item was admitted only for
a request that was authorised to use the upstream hosts in the name of the client and at the
tier of the item (`reachable_authorised`), and a tier is paused, or an item was flushed, only
because a request was granted the scope for that and then did so (`reachable_managed`).
-/

open Program (Event Sat Calls calls_pure calls_perform)
open Transition
open Json (Text)

namespace OllamaQueueProxy

/-! ### Calls for the request -/

/-- The operation makes no call for another request. -/
def Op.Own (r : Request) : Op → Prop
  | .enqueue item => item.dispatchFn.request = r
  | .dispatch call => call.request = r
  | _ => True

/-- An operation that gives no access makes no call. -/
theorem Op.Silent.own {op : Op} (h : op.Silent) (r : Request) :
  op.Own r
  := by
  cases op with
  | enqueue | dispatch => cases h
  | _ => trivial

variable {digest : Text → Text} {unicode : Unicode} {cfg : Config} {queue : QueueConfig} {n : ℕ}

theorem enqueueRequest_own (r : Request) (clientId : Option String) (tier : Tier)
    (pathOverride : Option Url.Octets) (keyCfg : Option ApiKeyConfig) :
  Calls (Op.Own r) (enqueueRequest digest cfg r clientId tier pathOverride keyCfg)
  := by
  unfold enqueueRequest
  split
  · apply calls_pure
  · split
    · apply calls_pure
    · dsimp only
      split
      · apply Calls.bind (calls_perform (show Op.Own r (.dispatch ⟨r, _, clientId, pathOverride⟩)
          from rfl))
        intro result
        cases result <;> apply calls_pure
      · apply lookupOrSubmit_calls
        · exact fun op h => h.own r
        · exact fun key => trivial
        · rintro item - hcall -
          exact congrArg DispatchCall.request hcall

/-- The handler of every port makes calls for the request it handles only. -/
theorem handle_own (port : Port) (r : Request) :
  Calls (Op.Own r) (handle digest cfg port r)
  := by
  cases port with
  | main =>
      use trivial
      intro shutting
      cases shutting with
      | true => trivial
      | false =>
          have hauth := authenticate_calls (AuthManager.new cfg.auth) r
          apply Calls.bind (hauth.mono fun op hop => ?_)
          · intro result
            cases result with
            | raised | refused => trivial
            | passed keyCfg =>
                simp only [proxyAuthenticated]
                split
                · apply Calls.bind (enqueueRequest_own r _ _ _ keyCfg)
                  intro outcome
                  apply calls_pure
                · apply enqueueRequest_own
          · cases op with
            | enqueue | dispatch => cases hop
            | _ => trivial
  | injection injectAs k =>
      use trivial
      intro shared
      cases shared with
      | false => trivial
      | true =>
          use trivial
          intro shutting
          cases shutting with
          | true => trivial
          | false => apply enqueueRequest_own

/-! ### What the tasks may do -/

/-- The task may perform the operation after its history: it makes a call for its own request,
and if that gives access, the access is authorised; or it manages the queue, and may do so; or
it authenticates a request that is shown something. -/
def Purpose.Permits : Purpose cfg → List (Event RouteOp.Answer) → RouteOp → Prop
  | .request port r _, h, op => ∃ o, op = .handler o ∧ o.Own r
      ∧ AccessAuthorised cfg port r (handlerEvents h) o
  | .manage route r _, h, op => RoutePermitted cfg.auth r route h op
  | .inspect _ _ _, _, op => ∃ o, op = .handler o ∧ o.ofAuth = true

theorem Purpose.permitted (purpose : Purpose cfg) :
  Sat anyRouteAnswer purpose.Permits (fun _ _ => True) [] (purpose.program digest unicode cfg)
  := by
  cases purpose with
  | request port r _ =>
      have hown : Sat anyAnswer (fun _ => Op.Own r) (fun _ _ => True) []
          (handle digest cfg port r) :=
        (handle_own port r).sat fun _ _ => id
      have hauthorised := handle_sat digest cfg port.2 r
      apply (ofHandler_sat (h := []) (hown.and hauthorised)).mono
      · rintro h op ⟨o, rfl, hpre⟩
        exact ⟨o, rfl, hpre⟩
      · exact fun _ => trivial
  | manage route r _ => exact route.handle_sat.mono id fun _ => trivial
  | inspect r shown _ =>
      have hauth : Sat anyAnswer (fun _ op => op.ofAuth = true) (fun _ _ => True) []
          (inspection cfg.auth r shown) :=
        (inspection_calls cfg.auth r shown).sat fun _ _ => id
      exact ofHandler_sat (h := []) hauth

section

variable {clock : ℚ} {s : Running cfg n}

/-- What a task has performed it was permitted to. -/
theorem reachable_permitted (h : Running.Reached digest unicode cfg queue clock s) {t}
    (ht : t ∈ s.tasks) {e : Event RouteOp.Answer} (he : e ∈ t.history) :
  ∃ es, es ++ [e] <+: t.history ∧ t.label.Permits es e.1
  := by
  obtain ⟨es, fs, hhistory, hpermits⟩ :=
    EventLoop.Loop.reachable_called h (fun _ => trivial) Purpose.permitted ht he
  refine ⟨es, ⟨fs, ?_⟩, hpermits⟩
  rw [hhistory, List.append_assoc]
  rfl

/-! ### Who uses the queue -/

/-- The event is that the item is enqueued and admitted.  The check of the high watermark may fail
after that, and then the task is not told the position. -/
def IsAdmission (item : QueueItem DispatchCall) : Event RouteOp.Answer → Prop
  | ⟨.handler (.enqueue i), .ok position⟩ => item = { i with position := position }
  | ⟨.handler (.enqueue i), .error .zeroDivision⟩ => item = { i with position := item.position }
  | _ => False

theorem exists_of_isAdmission {item : QueueItem DispatchCall} {e : Event RouteOp.Answer}
    (h : IsAdmission item e) :
  ∃ i, e.1 = .handler (.enqueue i) ∧ item = { i with position := item.position }
  := by
  unfold IsAdmission at h
  split at h
  · exact ⟨_, rfl, h ▸ rfl⟩
  · exact ⟨_, rfl, h⟩
  · cases h

theorem isAdmission_of_enqueue {s : PriorityQueueManager DispatchCall Response Unit n}
    {i item : QueueItem DispatchCall} (hitem : item ∈ (s.enqueue queue i).1.admitted) :
  item ∈ s.admitted ∨ IsAdmission item ⟨.handler (.enqueue i), (s.enqueue queue i).2⟩
  := by
  obtain ⟨hadmitted, -⟩ | ⟨hadmitted, hanswer⟩ :=
    @PriorityQueueManager.enqueue_admitted _ _ _ _ queue s i
  · exact .inl (hadmitted ▸ hitem)
  · obtain hold | hnew := List.mem_append.mp (hadmitted ▸ hitem)
    · exact .inl hold
    · obtain rfl := List.mem_singleton.mp hnew
      right
      obtain hok | hfailed := hanswer
      · rw [hok]
        rfl
      · rw [hfailed]
        rfl

/-- An item that is admitted is so because a task enqueues it. -/
theorem admitted_of_answered {item : QueueItem DispatchCall} {op : RouteOp} {r : op.Answer}
    {x x' : Application n}
    (h : EventLoop.Loop.Answered (eventLoop digest unicode cfg queue n) op x r x')
    (hitem : item ∈ x'.queueManager.admitted) :
  item ∈ x.queueManager.admitted ∨ IsAdmission item ⟨op, r⟩
  := by
  rw [(answered_queueManager h).1] at hitem
  have hstep {a : Action DispatchCall Response Unit n}
      {m : PriorityQueueManager DispatchCall Response Unit n}
      (ha : ∀ request, a ≠ .enqueue request)
      (hstep : PriorityQueueManager.Step queue x.queueManager a m) (hitem : item ∈ m.admitted) :
      item ∈ x.queueManager.admitted :=
    PriorityQueueManager.step_admitted ha hstep ▸ hitem
  cases op with
  | handler op =>
      cases op with
      | enqueue i =>
          cases h with
          | act hact =>
              obtain ⟨rfl, -⟩ := Prod.mk.inj (Option.some.inj hact)
              exact isAdmission_of_enqueue hitem
          | wake reply hwake => cases hwake
      | _ => exact .inl hitem
  | pause tier => exact .inl (hstep (a := .pause tier) (by simp) rfl hitem)
  | resume tier => exact .inl (hstep (a := .resume tier) (by simp) rfl hitem)
  | flush tier => exact .inl (hstep (a := .flush tier) (by simp) rfl hitem)
  | drain => exact .inl hitem

theorem exists_admission (h : Running.Reached digest unicode cfg queue clock s)
    {item : QueueItem DispatchCall} (hitem : item ∈ s.shared.queueManager.admitted) :
  ∃ t ∈ s.tasks, ∃ e ∈ t.history, IsAdmission item e
  := by
  refine EventLoop.Loop.reachable_performed (P := fun x => item ∈ x.queueManager.admitted) h
    List.not_mem_nil (fun hanswered => admitted_of_answered hanswered) ?_ ?_ hitem
  · intro op x hitem
    cases op with
    | handler op => cases op <;> exact hitem
    | pause | resume | drain | flush => exact hitem
  · intro e x x' houtside hitem
    cases outside_queueChange houtside with
    | same _ hmanager | stopWorkers hmanager =>
        rw [hmanager] at hitem
        exact hitem
    | work hstep | finish _ hstep =>
        rwa [PriorityQueueManager.step_admitted (by simp) hstep] at hitem

/-- A task that handles the request of the item, on some port, has enqueued the item, and what it
had done before authorised it to access the upstream hosts in the name of the client and at the
tier of the item. -/
def EnqueuedByRight (s : Running cfg n) (item : QueueItem DispatchCall) : Prop :=
  ∃ t ∈ s.tasks, ∃ port hcatches, t.label = .request port item.dispatchFn.request hcatches
    ∧ ∃ es e, es ++ [e] <+: t.history ∧ IsAdmission item e
      ∧ Authorised cfg item.dispatchFn.request (handlerEvents es) item.dispatchFn.clientId
        (some item.tier) port

/-- Every item that was ever admitted was enqueued by a task that handles its request and was
authorised to by then. -/
theorem reachable_authorised (h : Running.Reached digest unicode cfg queue clock s)
    {item : QueueItem DispatchCall} (hitem : item ∈ s.shared.queueManager.admitted) :
  EnqueuedByRight s item
  := by
  obtain ⟨t, ht, e, he, hadmission⟩ := exists_admission h hitem
  obtain ⟨es, hprefix, hpermits⟩ := reachable_permitted h ht he
  obtain ⟨i, hop, hsame⟩ := exists_of_isAdmission hadmission
  rw [hop] at hpermits
  cases hlabel : t.label with
  | request port r hcatches =>
      rw [hlabel] at hpermits
      obtain ⟨o, ho, hown, haccess⟩ := hpermits
      obtain rfl := RouteOp.handler.inj ho
      rw [hsame] at hadmission ⊢
      obtain rfl : i.dispatchFn.request = r := hown
      exact ⟨t, ht, port, hcatches, hlabel, es, e, hprefix, hadmission, haccess _ _ rfl⟩
  | manage route r _ =>
      rw [hlabel] at hpermits
      obtain ⟨o, ho, hauth⟩ | ⟨hroute, -⟩ := hpermits
      · obtain rfl := RouteOp.handler.inj ho
        cases hauth
      · cases route.isRoute_of_operation? hroute
  | inspect r shown _ =>
      rw [hlabel] at hpermits
      obtain ⟨o, ho, hauth⟩ := hpermits
      obtain rfl := RouteOp.handler.inj ho
      cases hauth

end

/-- The item of the run was enqueued for a request that was authorised to. -/
theorem sampleRun_authorised :
  ∃ s, Running.Reached id .ascii sampleConfig .default 0 (n := 1) s
    ∧ ∃ item ∈ s.shared.queueManager.admitted, EnqueuedByRight s item
  := by
  obtain ⟨s, hreached, hend⟩ := exists_sampleEnd
  simp only [isSampleEnd, Bool.and_eq_true, beq_iff_eq] at hend
  obtain ⟨item, hitem⟩ := List.length_eq_one_iff.mp hend.1.2
  have hadmitted : item ∈ s.shared.queueManager.admitted := by
    rw [hitem]
    exact List.mem_singleton_self item
  exact ⟨s, hreached, item, hadmitted, reachable_authorised hreached hadmitted⟩

/-! ### Who manages the queue -/

section

variable {clock : ℚ} {s : Running cfg n}

/-- A task has performed such an operation, which is the one of its route, and what it had done
before granted its request the scope to manage the queue. -/
def Commanded (s : Running cfg n) (P : RouteOp → Prop) : Prop :=
  ∃ t ∈ s.tasks, ∃ route r hanswers, t.label = .manage route r hanswers
    ∧ ∃ es e, es ++ [e] <+: t.history ∧ route.operation? = some e.1 ∧ P e.1
      ∧ ScopeGranted cfg.auth r .management (handlerEvents es)

/-- The operations of the routes are performed by tasks whose request was granted the scope. -/
theorem managed_of_performed (h : Running.Reached digest unicode cfg queue clock s)
    {P : RouteOp → Prop} (hP : ∀ op, P op → op.isRoute = true) {t} (ht : t ∈ s.tasks)
    {e : Event RouteOp.Answer} (he : e ∈ t.history) (heP : P e.1) :
  Commanded s P
  := by
  obtain ⟨es, hprefix, hpermits⟩ := reachable_permitted h ht he
  have hroute := hP _ heP
  cases hlabel : t.label with
  | request port r _ =>
      rw [hlabel] at hpermits
      obtain ⟨o, ho, -⟩ := hpermits
      rw [ho] at hroute
      cases hroute
  | manage route r hanswers =>
      rw [hlabel] at hpermits
      obtain ⟨o, ho, -⟩ | ⟨hoperation, hgranted⟩ := hpermits
      · rw [ho] at hroute
        cases hroute
      · exact ⟨t, ht, route, r, hanswers, hlabel, es, e, hprefix, hoperation, heP, hgranted⟩
  | inspect r shown _ =>
      rw [hlabel] at hpermits
      obtain ⟨o, ho, -⟩ := hpermits
      rw [ho] at hroute
      cases hroute

/-- The operation pauses the tier. -/
def RouteOp.Pauses (t : Tier) : RouteOp → Prop
  | .pause tier => t ∈ PriorityQueueManager.tiersOf tier
  | _ => False

/-- The operation flushes the tier. -/
def RouteOp.Flushes (t : Tier) : RouteOp → Prop
  | .flush tier => t ∈ PriorityQueueManager.tiersOf tier
  | _ => False

/-- A tier comes to be paused by an operation that pauses it. -/
theorem pauses_of_answered {tier : Tier} {op : RouteOp} {r : op.Answer} {x x' : Application n}
    (h : EventLoop.Loop.Answered (eventLoop digest unicode cfg queue n) op x r x')
    (hpaused : x'.queueManager.paused tier = true) :
  x.queueManager.paused tier = true ∨ op.Pauses tier
  := by
  rw [(answered_queueManager h).1] at hpaused
  cases op with
  | handler op =>
      left
      cases op with
      | enqueue item =>
          rwa [queueAfter,
            (PriorityQueueManager.enqueue_sameFutures x.queueManager item).paused] at hpaused
      | _ => exact hpaused
  | pause t =>
      simp only [queueAfter, PriorityQueueManager.pause] at hpaused
      split_ifs at hpaused with htier
      · exact .inr htier
      · exact .inl hpaused
  | resume t =>
      simp only [queueAfter, PriorityQueueManager.resume] at hpaused
      split_ifs at hpaused
      exact .inl hpaused
  | flush t =>
      left
      rwa [queueAfter, PriorityQueueManager.step_paused_eq (by simp) (by simp)
        (PriorityQueueManager.step_flush queue x.queueManager t)] at hpaused
  | drain => exact .inl hpaused

/-- A tier is paused only because it was for a request that had been granted the scope. -/
theorem reachable_paused (h : Running.Reached digest unicode cfg queue clock s) {tier : Tier}
    (hpaused : s.shared.queueManager.paused tier = true) :
  Commanded s (RouteOp.Pauses tier)
  := by
  have hperformed : ∃ t ∈ s.tasks, ∃ e ∈ t.history, e.1.Pauses tier := by
    refine EventLoop.Loop.reachable_performed (P := fun x => x.queueManager.paused tier = true) h
      Bool.false_ne_true (fun hanswered => pauses_of_answered hanswered) ?_ ?_ hpaused
    · intro op x hpaused
      cases op with
      | handler op => cases op <;> exact hpaused
      | pause | resume | drain | flush => exact hpaused
    · intro e x x' houtside hpaused
      cases outside_queueChange houtside with
      | same _ hmanager | stopWorkers hmanager =>
          rw [hmanager] at hpaused
          exact hpaused
      | work hstep | finish _ hstep =>
          rwa [PriorityQueueManager.step_paused_eq (by simp) (by simp) hstep] at hpaused
  obtain ⟨t, ht, e, he, hpauses⟩ := hperformed
  refine managed_of_performed h ?_ ht he hpauses
  intro op hop
  cases op with
  | pause => rfl
  | handler | resume | drain | flush => cases hop

/-- The future `k` tells that its item was flushed from the tier. -/
def FlushedFrom (tier : Tier) (k : ℕ) (x : Application n) : Prop :=
  x.queueManager.futures k = .exception (.queueFlushed tier)

/-- A future is told so by the action that does it. -/
theorem flushes_of_step {tier : Tier} {k : ℕ} {x x' : Application n}
    {a : Action DispatchCall Response Unit n}
    (hstep : PriorityQueueManager.Step queue x.queueManager a x'.queueManager)
    (hflushed : FlushedFrom tier k x') :
  FlushedFrom tier k x ∨ ∃ t, a = .flush t ∧ tier ∈ PriorityQueueManager.tiersOf t
  := by
  obtain hkept | ⟨-, hresolved⟩ := PriorityQueueManager.step_resolution hstep k
  · exact .inl (hkept.symm.trans hflushed)
  · rw [hflushed] at hresolved
    exact .inr hresolved.flushes

theorem flushes_of_answered {tier : Tier} {k : ℕ} {op : RouteOp} {r : op.Answer}
    {x x' : Application n}
    (h : EventLoop.Loop.Answered (eventLoop digest unicode cfg queue n) op x r x')
    (hflushed : FlushedFrom tier k x') :
  FlushedFrom tier k x ∨ op.Flushes tier
  := by
  have hmanager := (answered_queueManager h).1
  have hsame (hfutures : (queueAfter queue x.queueManager op).futures = x.queueManager.futures) :
      FlushedFrom tier k x := by
    rw [FlushedFrom, hmanager, hfutures] at hflushed
    exact hflushed
  cases op with
  | handler op =>
      left
      cases op with
      | enqueue item =>
          exact hsame (PriorityQueueManager.enqueue_sameFutures x.queueManager item).futures
      | _ => exact hsame rfl
  | flush t =>
      have hstep : PriorityQueueManager.Step queue x.queueManager (.flush t) x'.queueManager := by
        rw [hmanager]
        rfl
      obtain hbefore | ⟨t', heq, ht⟩ := flushes_of_step hstep hflushed
      · exact .inl hbefore
      · cases heq
        exact .inr ht
  | pause | resume | drain => exact .inl (hsame rfl)

/-- A caller is told that its item was flushed only because the tier was for a request that had been
granted the scope. -/
theorem reachable_flushed (h : Running.Reached digest unicode cfg queue clock s) {tier : Tier}
    {k : ℕ} (hflushed : s.shared.queueManager.futures k = .exception (.queueFlushed tier)) :
  Commanded s (RouteOp.Flushes tier)
  := by
  have hinitial : ¬ FlushedFrom tier k (Application.initial cfg.auth n clock) := by
    intro hflushed
    cases hflushed
  have hperformed : ∃ t ∈ s.tasks, ∃ e ∈ t.history, e.1.Flushes tier := by
    refine EventLoop.Loop.reachable_performed (P := FlushedFrom tier k) h hinitial
      (fun hanswered => flushes_of_answered hanswered) ?_ ?_ hflushed
    · intro op x hflushed
      cases op with
      | handler op =>
          cases op with
          | await item =>
              change Function.update x.queueManager.futures item.future
                (x.queueManager.futures item.future).cancel k = _ at hflushed
              by_cases hk : k = item.future
              · subst hk
                rw [Function.update_self] at hflushed
                cases hf : x.queueManager.futures item.future with
                | pending | result | cancelled =>
                    rw [hf] at hflushed
                    cases hflushed
                | exception e =>
                    rw [hf] at hflushed
                    exact hf.trans hflushed
              · rwa [Function.update_of_ne hk] at hflushed
          | _ => exact hflushed
      | pause | resume | drain | flush => exact hflushed
    · intro e x x' houtside hflushed
      cases outside_queueChange houtside with
      | same _ hmanager | stopWorkers hmanager =>
          rw [FlushedFrom, hmanager] at hflushed
          exact hflushed
      | work hstep | finish _ hstep =>
          obtain hbefore | ⟨t, heq, -⟩ := flushes_of_step hstep hflushed
          · exact hbefore
          · cases heq
  obtain ⟨t, ht, e, he, hflushes⟩ := hperformed
  refine managed_of_performed h ?_ ht he hflushes
  intro op hop
  cases op with
  | flush => rfl
  | handler | pause | resume | drain => cases hop

/-- A tier is paused, and a caller is told that its item was flushed, only because a task paused or
flushed the tier after its request had been granted the scope for that. -/
theorem reachable_managed (h : Running.Reached digest unicode cfg queue clock s) (tier : Tier) :
  (s.shared.queueManager.paused tier = true → Commanded s (RouteOp.Pauses tier))
    ∧ ∀ k, s.shared.queueManager.futures k = .exception (.queueFlushed tier) →
      Commanded s (RouteOp.Flushes tier)
  := ⟨fun hpaused => reachable_paused h hpaused, fun _ hflushed => reachable_flushed h hflushed⟩

end

/-- A configuration with a key that may manage the queue. -/
def managedConfig : Config :=
  .withoutListeners ⟨false, 50⟩ (.ofKey ⟨"secret", "ops", .normal, .management, 0⟩)
    ⟨false, 32768, "oqp:embed:"⟩ ⟨"5m", false⟩

/-- The request for a route of the queue. -/
def managedRequest (route : QueueRoute) : Request :=
  { sampleRequest with target := route.fixedRoute.path }

/-- A chat request is enqueued, all queues are flushed, and a tier is paused. -/
def managedRun : List (EventLoop.Action (Purpose managedConfig) Reply (Occurrence 1)) :=
  [.spawn (.request ⟨.main, List.mem_cons_self⟩ sampleRequest (by decide)),
    .start 0, .perform, .perform, .perform, .perform, .suspend,
    .wake 0 .done, .perform, .perform, .suspend,
    .spawn (.manage (.flush none) (managedRequest (.flush none)) (by decide)),
    .start 1, .perform, .perform, .perform, .perform, .suspend,
    .spawn (.manage (.pause (some "low")) (managedRequest (.pause none)) (by decide)),
    .start 2, .perform, .perform, .perform, .perform, .suspend]

/-- The item of the run was flushed, and the tier is paused. -/
def isManagedEnd (s : Running managedConfig 1) : Bool :=
  s.shared.queueManager.paused .low && match s.shared.queueManager.futures 0 with
    | .exception (.queueFlushed tier) => tier == .normal
    | _ => false

theorem exists_managedEnd :
  ∃ s, Running.Reached id .ascii managedConfig .default 0 s ∧ isManagedEnd s = true
  := by
  have hexec : (exec (eventLoop id .ascii managedConfig .default 1).step
      (Running.initial managedConfig 1 0) managedRun).any isManagedEnd = true := by
    decide +kernel
  obtain ⟨s, hs, hend⟩ := (Option.any_eq_true _ _).mp hexec
  exact ⟨s, ⟨managedRun, run_of_exec hs⟩, hend⟩

/-- In the run both were done for requests that had been granted the scope. -/
theorem managedRun_managed :
  ∃ s, Running.Reached id .ascii managedConfig .default 0 (n := 1) s
    ∧ Commanded s (RouteOp.Pauses .low) ∧ Commanded s (RouteOp.Flushes .normal)
  := by
  obtain ⟨s, hreached, hend⟩ := exists_managedEnd
  obtain ⟨hpaused, hflushed⟩ := Bool.and_eq_true_iff.mp hend
  split at hflushed
  · rename_i tier hfuture
    obtain rfl := beq_iff_eq.mp hflushed
    use s, hreached, (reachable_managed hreached .low).1 hpaused
    exact (reachable_managed hreached .normal).2 0 hfuture
  · cases hflushed

end OllamaQueueProxy
