import OllamaQueueProxy.Library.Tally
import OllamaQueueProxy.Proxy.Failover
import OllamaQueueProxy.Proxy.Relay

/-!
# Attempts

Any number of calls of `dispatch_request`, for queued requests and for those that pass by the
queue, that share a routing table.  Every request that is
sent to a host is counted for the host when it ends: as handled if there is a response, as a
failure if it ends in one of the exceptions that the loop handles, a connection error or a
timeout.  The HTTP client has other exceptions for failures of the transport, and a call may
be cancelled; neither is counted, and the loop does not go on.

So all requests are accounted for, and all failures make the loop go on, exactly as long as
no request ends in another way (`accounted_iff`).
-/

open Transition

namespace OllamaQueueProxy

/-- The exceptions of the HTTP client for failures of the transport, the subclasses of
`httpx.TransportError`. -/
inductive TransportError where
  | connectTimeout
  | readTimeout
  | writeTimeout
  | poolTimeout
  | connectError
  | readError
  | writeError
  | closeError
  | localProtocolError
  | remoteProtocolError
  | proxyError
  | unsupportedProtocol

/-- The exceptions that the loop handles, `ConnectError` and the subclasses of
`TimeoutException`. -/
def TransportError.isHandled : TransportError → Bool
  | .connectTimeout | .readTimeout | .writeTimeout | .poolTimeout | .connectError => true
  | .readError | .writeError | .closeError | .localProtocolError | .remoteProtocolError
  | .proxyError | .unsupportedProtocol => false

/-- How a request to a host ends. -/
inductive AttemptEnd where
  | answer (statusCode : ℕ) (notFound : Bool)
  /-- There is a response, but it cannot be passed on. -/
  | undecodable (statusCode : ℕ) (notFound : Bool)
  | error (e : TransportError)
  /-- The call is cancelled, or left with an exception that does not come from the
  transport. -/
  | interrupted

/-- What the end of the request is for the loop. -/
def AttemptEnd.toAction : AttemptEnd → FailoverAction
  | .answer statusCode notFound => .answer statusCode notFound
  | .undecodable statusCode notFound => .undecodable statusCode notFound
  | .error e => if e.isHandled then .fail else .crash
  | .interrupted => .crash

/-- The body of the response is an object that says in its field `error` that something was
not found. -/
def UpstreamResponse.saysNotFound (reader : Json.Reader) (u : UpstreamResponse) : Bool :=
  match reader.loads u.content with
  | some (.object fields) => match Dict.get? fields (Json.text "error") with
    | some (.string s) => decide (Json.text "not found"
        <:+: s.map fun c => if 65 ≤ c ∧ c ≤ 90 then c + 32 else c)
    | _ => false
  | _ => false

/-- The end of a request with a response, which may be one that cannot be passed on. -/
def AttemptEnd.ofResponse (reader : Json.Reader) (hostName : String) (u : UpstreamResponse) :
    AttemptEnd :=
  if (u.relay reader hostName).isSome then .answer u.statusCode (u.saysNotFound reader)
  else .undecodable u.statusCode (u.saysNotFound reader)

/-- The variables of a call of `dispatch_request`. -/
structure DispatchLoop where
  model : RequestedModel
  attempted : List String
  status : DispatchStatus
  failed : List (String × String)

namespace DispatchLoop

def new (model : RequestedModel) : DispatchLoop := ⟨model, [], .starting, []⟩

/-- The call with the routing table. -/
def on (l : DispatchLoop) (table : RoutingTable) : Failover :=
  ⟨table, l.attempted, l.status, l.failed⟩

/-- The variables of the call after it has gone on. -/
def update (l : DispatchLoop) (f : Failover) : DispatchLoop :=
  ⟨l.model, f.attempted, f.status, f.failed⟩

end DispatchLoop

/-- The calls, and the routing table they share. -/
structure Dispatches where
  table : RoutingTable
  loops : List DispatchLoop

inductive DispatchesAction where
  /-- A poll of the host ends. -/
  | poll (name : String) (answer : Option (List String))
  /-- `dispatch_request` is called with a request for the model. -/
  | call (model : RequestedModel)
  /-- The request that the call has sent ends. -/
  | finish (n : ℕ) (ending : AttemptEnd)

namespace Dispatches

def initial (hosts : List HostConfig) (strategy : Strategy) : Dispatches where
  table := .new hosts strategy
  loops := []

/-- The state after an action; `none` if the action is not possible. -/
def step (s : Dispatches) : DispatchesAction → Option Dispatches
  | .poll name answer => some { s with table := s.table.pollHost name answer }
  | .call model =>
      let l := DispatchLoop.new model
      (Failover.step model (l.on s.table) .start).map fun f =>
        ⟨f.table, s.loops ++ [l.update f]⟩
  | .finish n ending => s.loops[n]?.bind fun l =>
      (Failover.step l.model (l.on s.table) ending.toAction).map fun f =>
        ⟨f.table, s.loops.set n (l.update f)⟩

/-- The transitions of the calls. -/
abbrev Step : Dispatches → DispatchesAction → Dispatches → Prop := ofStep step

end Dispatches

/-! ### Counting -/

/-- A number of the host of a name, which is 0 if there is none. -/
def RoutingTable.stat (f : HostRoutingState → ℕ) (r : RoutingTable) (name : String) : ℕ :=
  ((r.states.find? fun st => st.name == name).map f).getD 0

/-- The requests to the host that are counted as handled or as failures. -/
def RoutingTable.counted (r : RoutingTable) (name : String) : ℕ :=
  r.stat HostRoutingState.requestsHandled name + r.stat HostRoutingState.failures name

/-- The number of requests, at most one, to the host that have not ended. -/
def DispatchStatus.awaits (name : String) : DispatchStatus → ℕ
  | .awaiting host _ => if host = name then 1 else 0
  | _ => 0

namespace Dispatches

/-- The requests that were sent to the host. -/
def attempts (s : Dispatches) (name : String) : ℕ :=
  (s.loops.map fun l => l.attempted.count name).sum

/-- The requests to the host that have not ended. -/
def awaiting (s : Dispatches) (name : String) : ℕ :=
  (s.loops.map fun l => l.status.awaits name).sum

/-- Every request to a host that has ended is counted, as handled or as a failure. -/
def Accounted (s : Dispatches) : Prop :=
  ∀ name, s.attempts name = s.table.stat HostRoutingState.requestsHandled name
    + s.table.stat HostRoutingState.failures name + s.awaiting name

end Dispatches

/-! ### The routing table -/

namespace RoutingTable

variable {r : RoutingTable} {host name : String} {f : HostRoutingState → HostRoutingState}

/-- What is counted of the hosts depends on their states only. -/
theorem stat_congr {r' : RoutingTable} (h : r'.states = r.states) (g : HostRoutingState → ℕ)
    (name : String) :
  r'.stat g name = r.stat g name
  := by
  unfold stat
  rw [h]

theorem find?_modify (hname : ∀ st, (f st).name = st.name) :
  (r.modify host f).states.find? (fun st => st.name == name)
    = (r.states.find? fun st => st.name == name).map fun st =>
        if st.name = host then f st else st
  := by
  unfold modify
  rw [List.find?_map]
  congr 2
  funext st
  rw [Function.comp_apply]
  split
  · rw [hname]
  · rfl

/-- The numbers of the other hosts do not change. -/
theorem stat_modify_of_ne (hname : ∀ st, (f st).name = st.name) (g : HostRoutingState → ℕ)
    (hne : host ≠ name) :
  (r.modify host f).stat g name = r.stat g name
  := by
  unfold stat
  rw [find?_modify hname, Option.map_map]
  cases hfind : r.states.find? fun st => st.name == name with
  | none => rfl
  | some st =>
      have hst : st.name = name := by simpa using List.find?_some hfind
      rw [Option.map_some, Option.map_some, Function.comp_apply, if_neg]
      rw [hst]
      exact hne.symm

/-- A number of a host grows as the change of its state says. -/
theorem stat_modify_self (hname : ∀ st, (f st).name = st.name) {g : HostRoutingState → ℕ}
    {k : ℕ} (hg : ∀ st, g (f st) = g st + k) (hknown : name ∈ r.names) :
  (r.modify name f).stat g name = r.stat g name + k
  := by
  unfold stat
  rw [find?_modify hname, Option.map_map]
  cases hfind : r.states.find? fun st => st.name == name with
  | none =>
      obtain ⟨st, hst, rfl⟩ := List.mem_map.mp hknown
      have habsent := List.find?_eq_none.mp hfind st hst
      simp at habsent
  | some st =>
      have hst : st.name = name := by simpa using List.find?_some hfind
      rw [Option.map_some, Option.map_some, Function.comp_apply, if_pos hst, hg]
      rfl

/-- A number that the change of a state does not affect stays the same. -/
theorem stat_modify (hname : ∀ st, (f st).name = st.name) {g : HostRoutingState → ℕ}
    (hg : ∀ st, g (f st) = g st) :
  (r.modify host f).stat g name = r.stat g name
  := by
  unfold stat
  rw [find?_modify hname, Option.map_map]
  congr 2
  funext st
  rw [Function.comp_apply]
  split
  · apply hg
  · rfl

theorem counted_modify (hname : ∀ st, (f st).name = st.name) {k m : ℕ}
    (hhandled : ∀ st, (f st).requestsHandled = st.requestsHandled + k)
    (hfailures : ∀ st, (f st).failures = st.failures + m) (hknown : host ∈ r.names) :
  (r.modify host f).counted name = r.counted name + if host = name then k + m else 0
  := by
  unfold counted
  split_ifs with hsame
  · obtain rfl := hsame
    rw [stat_modify_self hname hhandled hknown, stat_modify_self hname hfailures hknown,
      add_add_add_comm]
  · rw [stat_modify_of_ne hname _ hsame, stat_modify_of_ne hname _ hsame]
    rfl

theorem counted_modify_same (hname : ∀ st, (f st).name = st.name)
    (hhandled : ∀ st, (f st).requestsHandled = st.requestsHandled)
    (hfailures : ∀ st, (f st).failures = st.failures) :
  (r.modify host f).counted name = r.counted name
  := by
  unfold counted
  rw [stat_modify hname hhandled, stat_modify hname hfailures]

theorem counted_markUnhealthy (hknown : host ∈ r.names) :
  (r.markUnhealthy host).counted name = r.counted name + if host = name then 1 else 0
  := by
  apply counted_modify (k := 0) (m := 1) _ _ _ hknown
  all_goals
    intro st
    rfl

theorem counted_countHandled (hknown : host ∈ r.names) :
  (r.countHandled host).counted name = r.counted name + if host = name then 1 else 0
  := by
  apply counted_modify (k := 1) (m := 0) _ _ _ hknown
  all_goals
    intro st
    rfl

theorem counted_invalidate (model : String) :
  (r.invalidate host model).counted name = r.counted name
  := counted_modify_same (fun _ => rfl) (fun _ => rfl) (fun _ => rfl)

theorem names_pollHost (answer : Option (List String)) :
  (r.pollHost host answer).names = r.names
  := by
  apply names_modify
  intro st
  cases answer <;> rfl

theorem counted_pollHost (answer : Option (List String)) :
  (r.pollHost host answer).counted name = r.counted name
  := by
  apply counted_modify_same
  all_goals
    intro st
    cases answer <;> rfl

end RoutingTable

/-! ### A call -/

namespace Failover

variable {model : RequestedModel} {f f' : Failover}

/-- The host that is awaited is one of the table. -/
def Known (f : Failover) : Prop :=
  ∀ name url, f.status = .awaiting name url → name ∈ f.table.names

/-- The table has the same hosts, and the host that is awaited, if any, was just sent the
request. -/
structure Advanced (f f' : Failover) : Prop where
  states : f'.table.states = f.table.states
  attempts : ∀ name, f'.attempted.count name = f.attempted.count name + f'.status.awaits name
  known : f'.Known

theorem Advanced.names (h : Advanced f f') :
  f'.table.names = f.table.names
  := congrArg (List.map HostRoutingState.name) h.states

theorem Advanced.counted (h : Advanced f f') (name : String) :
  f'.table.counted name = f.table.counted name
  := by
  unfold RoutingTable.counted
  rw [RoutingTable.stat_congr h.states, RoutingTable.stat_congr h.states]

theorem next_advanced (model : RequestedModel) (f : Failover) :
  Advanced f (f.next model)
  := by
  unfold next
  split
  · exact ⟨rfl, fun _ => rfl, fun _ _ h => nomatch h⟩
  · rename_i table hpick
    exact ⟨(RoutingTable.states_of_pick hpick).1, fun _ => rfl, fun _ _ h => nomatch h⟩
  · rename_i host table hpick
    obtain ⟨hstates, hmem⟩ := RoutingTable.states_of_pick hpick
    split
    · exact ⟨hstates, fun _ => rfl, fun _ _ h => nomatch h⟩
    · constructor
      · exact hstates
      · intro name
        simp only [List.count_append, DispatchStatus.awaits, List.count_singleton, beq_iff_eq]
      · intro name url hstatus
        obtain ⟨rfl, -⟩ := DispatchStatus.awaiting.inj hstatus
        rw [RoutingTable.names, hstates]
        exact hmem host rfl

/-- What is counted in a step is what ends in it. -/
def Balanced (f f' : Failover) : Prop :=
  ∀ name, f'.attempted.count name + f.table.counted name + f.status.awaits name
    = f.attempted.count name + f'.table.counted name + f'.status.awaits name

theorem start_step (h : Step model f .start f') :
  f.status = .starting ∧ Advanced f f'
  := by
  simp only [Step, ofStep, step] at h
  split at h
  · rename_i hstatus
    obtain rfl := Option.some.inj h
    exact ⟨hstatus, next_advanced model f⟩
  · cases h

end Failover

/-- The end of the request is counted, and the loop goes on if there was no response. -/
def AttemptEnd.Counts : AttemptEnd → Prop
  | .answer _ _ | .undecodable _ _ => True
  | .error e => e.isHandled = true
  | .interrupted => False

/-- A request that is answered is counted, whether or not the response can be passed on. -/
theorem AttemptEnd.counts_ofResponse (reader : Json.Reader) (hostName : String)
    (u : UpstreamResponse) :
  (AttemptEnd.ofResponse reader hostName u).Counts
  := by
  unfold ofResponse
  split <;> trivial

namespace Failover

variable {model : RequestedModel} {f f' : Failover} {host : String}

theorem names_recordAnswer {table : RoutingTable} {statusCode : ℕ} {notFound : Bool} :
  (recordAnswer model table host statusCode notFound).names = table.names
  := by
  have hcount : (table.countHandled host).names = table.names :=
    RoutingTable.names_modify fun _ => rfl
  unfold recordAnswer
  split
  · split
    · rw [← hcount]
      apply RoutingTable.names_modify
      intro st
      rfl
    · exact hcount
  · exact hcount

theorem counted_recordAnswer {table : RoutingTable} {statusCode : ℕ} {notFound : Bool}
    (hknown : host ∈ table.names) (name : String) :
  (recordAnswer model table host statusCode notFound).counted name
    = table.counted name + if host = name then 1 else 0
  := by
  unfold recordAnswer
  split
  · split
    · rw [RoutingTable.counted_invalidate, RoutingTable.counted_countHandled hknown]
    · exact RoutingTable.counted_countHandled hknown
  · exact RoutingTable.counted_countHandled hknown

theorem awaiting_of_step {a : FailoverAction} (ha : a = .fail ∨ a = .crash)
    (h : Step model f a f') :
  ∃ host url, f.status = .awaiting host url
  := by
  obtain rfl | rfl := ha
  all_goals
    simp only [Step, ofStep, step] at h
    split at h
    · exact ⟨_, _, ‹_›⟩
    · cases h

/-- The failure is recorded, and the loop picks the next host. -/
theorem fail_step {url : String} (hstatus : f.status = .awaiting host url)
    (h : Step model f .fail f') :
  f' = (f.recordFailure host url).next model
  := by
  simp only [Step, ofStep, step, hstatus] at h
  exact (Option.some.inj h).symm

theorem crash_step {url : String} (hstatus : f.status = .awaiting host url)
    (h : Step model f .crash f') :
  f' = { f with status := .raised }
  := by
  simp only [Step, ofStep, step, hstatus] at h
  exact (Option.some.inj h).symm

theorem recordFailure_balanced {url : String} (hknown : f.Known)
    (hstatus : f.status = .awaiting host url) :
  Balanced f ((f.recordFailure host url).next model)
  := by
  have hnext := next_advanced model (f.recordFailure host url)
  have hattempted : (f.recordFailure host url).attempted = f.attempted := rfl
  have hcounted (name : String) : (f.recordFailure host url).table.counted name
      = f.table.counted name + if host = name then 1 else 0 :=
    RoutingTable.counted_markUnhealthy (hknown host url hstatus)
  intro name
  rw [hnext.attempts, hnext.counted, hcounted, hattempted, hstatus, DispatchStatus.awaits]
  omega

theorem names_recordFailure (f : Failover) (host url : String) :
  (f.recordFailure host url).table.names = f.table.names
  := by
  apply RoutingTable.names_modify
  intro st
  rfl

theorem not_balanced_raised {url : String} (hstatus : f.status = .awaiting host url) :
  ¬ Balanced f { f with status := .raised }
  := by
  intro h
  have hhost := h host
  rw [hstatus] at hhost
  simp [DispatchStatus.awaits] at hhost

/-- A request ends: the state after it has the same hosts and awaits one of them, if any, and
the request is counted exactly if its end is one that counts. -/
theorem finish_step {ending : AttemptEnd} (hknown : f.Known)
    (h : Step model f ending.toAction f') :
  f'.table.names = f.table.names ∧ f'.Known ∧ (Balanced f f' ↔ ending.Counts)
  := by
  have hcrash (h : Step model f .crash f') :
      f'.table.names = f.table.names ∧ f'.Known ∧ ¬ Balanced f f' := by
    obtain ⟨host, url, hstatus⟩ := awaiting_of_step (.inr rfl) h
    obtain rfl := crash_step hstatus h
    refine ⟨rfl, ?_, not_balanced_raised hstatus⟩
    rintro _ _ ⟨⟩
  cases ending with
  | answer statusCode notFound | undecodable statusCode notFound =>
      simp only [AttemptEnd.toAction, Step, ofStep, step] at h
      split at h
      · rename_i host url hstatus
        obtain rfl := Option.some.inj h
        refine ⟨names_recordAnswer, by rintro _ _ ⟨⟩, iff_of_true ?_ trivial⟩
        intro name
        rw [counted_recordAnswer (hknown host url hstatus), hstatus]
        apply add_assoc
      · cases h
  | error e =>
      cases he : e.isHandled with
      | true =>
          rw [AttemptEnd.toAction, if_pos he] at h
          obtain ⟨host, url, hstatus⟩ := awaiting_of_step (.inl rfl) h
          obtain rfl := fail_step hstatus h
          have hnext := next_advanced model (f.recordFailure host url)
          use hnext.names.trans (names_recordFailure f host url), hnext.known
          exact iff_of_true (recordFailure_balanced hknown hstatus) he
      | false =>
          rw [AttemptEnd.toAction, if_neg (by simp [he])] at h
          obtain ⟨hnames, hknown', hbalanced⟩ := hcrash h
          use hnames, hknown'
          apply iff_of_false hbalanced
          simp [AttemptEnd.Counts, he]
  | interrupted =>
      obtain ⟨hnames, hknown', hbalanced⟩ := hcrash h
      exact ⟨hnames, hknown', iff_of_false hbalanced id⟩

end Failover

/-! ### All calls -/

/-- The action is not the end of a request that is not counted. -/
def DispatchesAction.Counts : DispatchesAction → Prop
  | .finish _ ending => ending.Counts
  | .poll _ _ | .call _ => True

namespace Dispatches

variable {s s' : Dispatches}

/-- All hosts that are awaited are in the table. -/
def Known (s : Dispatches) : Prop := ∀ l ∈ s.loops, (l.on s.table).Known

/-- The state after a call has gone on. -/
theorem finish_iff {n : ℕ} {ending : AttemptEnd} :
  Step s (.finish n ending) s' ↔ ∃ l f, s.loops[n]? = some l
    ∧ Failover.Step l.model (l.on s.table) ending.toAction f
    ∧ s' = ⟨f.table, s.loops.set n (l.update f)⟩
  := by
  simp only [Step, ofStep, step, Option.bind_eq_some_iff, Option.map_eq_some_iff]
  constructor
  · rintro ⟨l, hl, f, hf, rfl⟩
    exact ⟨l, f, hl, hf, rfl⟩
  · rintro ⟨l, f, hl, hf, rfl⟩
    exact ⟨l, hl, f, hf, rfl⟩

theorem call_iff {model : RequestedModel} :
  Step s (.call model) s' ↔ ∃ f,
    Failover.Step model ((DispatchLoop.new model).on s.table) .start f
      ∧ s' = ⟨f.table, s.loops ++ [(DispatchLoop.new model).update f]⟩
  := by
  simp only [Step, ofStep, step, Option.map_eq_some_iff]
  constructor
  · rintro ⟨f, hf, rfl⟩
    exact ⟨f, hf, rfl⟩
  · rintro ⟨f, hf, rfl⟩
    exact ⟨f, hf, rfl⟩

theorem known_of_names {l : DispatchLoop} {table table' : RoutingTable}
    (hnames : table'.names = table.names) (h : (l.on table).Known) :
  (l.on table').Known
  := by
  intro name url hstatus
  change name ∈ table'.names
  rw [hnames]
  exact h name url hstatus

theorem Known.step {a : DispatchesAction} (h : Known s) (hstep : Step s a s') :
  Known s'
  := by
  cases a with
  | poll name answer =>
      obtain rfl := Option.some.inj hstep
      intro l hl
      exact known_of_names (RoutingTable.names_pollHost answer) (h l hl)
  | call model =>
      obtain ⟨f, hf, rfl⟩ := call_iff.mp hstep
      obtain ⟨-, hadvanced⟩ := Failover.start_step hf
      intro l hl
      obtain hold | hnew := List.mem_append.mp hl
      · exact known_of_names hadvanced.names (h l hold)
      · obtain rfl := List.mem_singleton.mp hnew
        exact hadvanced.known
  | finish n ending =>
      obtain ⟨l, f, hl, hf, rfl⟩ := finish_iff.mp hstep
      obtain ⟨hnames, hknown, -⟩ := Failover.finish_step (h l (List.mem_of_getElem? hl)) hf
      intro l' hl'
      obtain hold | rfl := List.mem_or_eq_of_mem_set hl'
      · exact known_of_names hnames (h l' hold)
      · exact hknown

/-- After a step out of a state in which all ended requests are counted, they are all counted
exactly if the step is one that counts. -/
theorem Accounted.step_iff {a : DispatchesAction} (hknown : Known s) (h : Accounted s)
    (hstep : Step s a s') :
  Accounted s' ↔ a.Counts
  := by
  cases a with
  | poll name answer =>
      obtain rfl := Option.some.inj hstep
      apply iff_of_true _ trivial
      intro host
      exact (h host).trans (congrArg (· + s.awaiting host)
        (RoutingTable.counted_pollHost answer).symm)
  | call model =>
      obtain ⟨f, hf, rfl⟩ := call_iff.mp hstep
      obtain ⟨-, hadvanced⟩ := Failover.start_step hf
      apply iff_of_true _ trivial
      intro host
      have hattempts : attempts ⟨f.table, s.loops ++ [(DispatchLoop.new model).update f]⟩ host
          = s.attempts host + f.attempted.count host := by
        simp [attempts, DispatchLoop.update]
      have hawaiting : awaiting ⟨f.table, s.loops ++ [(DispatchLoop.new model).update f]⟩ host
          = s.awaiting host + f.status.awaits host := by
        simp [awaiting, DispatchLoop.update]
      have hsent : f.attempted.count host = 0 + f.status.awaits host := hadvanced.attempts host
      have hcounted : f.table.counted host = s.table.counted host := hadvanced.counted host
      have hbefore : s.attempts host = s.table.counted host + s.awaiting host := h host
      change _ = f.table.counted host + _
      omega
  | finish n ending =>
      obtain ⟨l, f, hl, hf, rfl⟩ := finish_iff.mp hstep
      obtain ⟨-, -, hbalanced⟩ := Failover.finish_step (hknown l (List.mem_of_getElem? hl)) hf
      rw [DispatchesAction.Counts, ← hbalanced]
      apply forall_congr'
      intro host
      have hattempts : attempts ⟨f.table, s.loops.set n (l.update f)⟩ host
          + l.attempted.count host = s.attempts host + f.attempted.count host :=
        Tally.sum_map_set (fun l => l.attempted.count host) hl (l.update f)
      have hawaiting : awaiting ⟨f.table, s.loops.set n (l.update f)⟩ host
          + l.status.awaits host = s.awaiting host + f.status.awaits host :=
        Tally.sum_map_set (fun l => l.status.awaits host) hl (l.update f)
      have hbefore : s.attempts host = s.table.counted host + s.awaiting host := h host
      change _ = f.table.counted host + _
        ↔ _ + s.table.counted host + l.status.awaits host = l.attempted.count host + _ + _
      omega

/-! ### Failover -/

/-- The call `n` has failed over from the host: the failure is counted, the host is not
reachable any more, and the loop is about to pick, and then picks, the next host. -/
structure FailedOver (s : Dispatches) (n : ℕ) (l : DispatchLoop) (host url : String)
    (s' : Dispatches) : Prop where
  failures : s'.table.stat HostRoutingState.failures host
    = s.table.stat HostRoutingState.failures host + 1
  unreachable : ∀ st ∈ s'.table.states, st.name = host → st.reachable = false
  next : s'.loops[n]? = some (l.update (((l.on s.table).recordFailure host url).next l.model))

/-- If the action is the end of a request in a failure of the transport, the call fails over
from the host. -/
def FailsOver (s : Dispatches) : DispatchesAction → Prop
  | .finish n (.error e) => ∀ l host url s', s.loops[n]? = some l →
      l.status = .awaiting host url → Step s (.finish n (.error e)) s' →
      s.FailedOver n l host url s'
  | _ => True

theorem unreachable_of_markUnhealthy {table : RoutingTable} {host : String}
    {st : HostRoutingState} (h : st ∈ (table.markUnhealthy host).states)
    (hname : st.name = host) :
  st.reachable = false
  := by
  obtain ⟨st', -, rfl⟩ := List.mem_map.mp h
  split_ifs at hname ⊢ with hsame
  · rfl
  · exact absurd hname hsame

/-- A call fails over when its request ends in a failure that the loop handles. -/
theorem failsOver_of_counts {a : DispatchesAction} (hknown : Known s) (ha : a.Counts) :
  FailsOver s a
  := by
  cases a with
  | poll | call => trivial
  | finish n ending =>
      cases ending with
      | answer | undecodable | interrupted => trivial
      | error e =>
          intro l host url s' hl hstatus hstep
          obtain ⟨l', f, hl', hf, rfl⟩ := finish_iff.mp hstep
          obtain rfl := Option.some.inj (hl'.symm.trans hl)
          have he : e.isHandled = true := ha
          rw [AttemptEnd.toAction, if_pos he] at hf
          obtain rfl := Failover.fail_step hstatus hf
          have hnext := Failover.next_advanced l'.model ((l'.on s.table).recordFailure host url)
          have hhost : host ∈ s.table.names :=
            hknown l' (List.mem_of_getElem? hl) host url hstatus
          constructor
          · have hmark : (s.table.markUnhealthy host).stat HostRoutingState.failures host
                = s.table.stat HostRoutingState.failures host + 1 := by
              apply RoutingTable.stat_modify_self _ _ hhost
              all_goals
                intro st
                rfl
            rw [← hmark]
            exact RoutingTable.stat_congr hnext.states _ _
          · intro st hst hname
            change st ∈ RoutingTable.states (Failover.table _) at hst
            rw [hnext.states] at hst
            exact unreachable_of_markUnhealthy hst hname
          · have hlt : n < s.loops.length := (List.getElem?_eq_some_iff.mp hl).1
            exact List.getElem?_set_self hlt

theorem accounted_initial (hosts : List HostConfig) (strategy : Strategy) :
  Accounted (initial hosts strategy)
  := by
  intro name
  have hzero {g : HostRoutingState → ℕ} (hg : ∀ h, g (.new h) = 0) :
      (RoutingTable.new hosts strategy).stat g name = 0 := by
    unfold RoutingTable.stat
    cases hfind : (RoutingTable.new hosts strategy).states.find? fun st => st.name == name with
    | none => rfl
    | some st =>
        obtain ⟨h, -, rfl⟩ := RoutingTable.mem_states_new (List.mem_of_find?_eq_some hfind)
        exact hg h
  change 0 = RoutingTable.stat _ (RoutingTable.new hosts strategy) name
    + RoutingTable.stat _ (RoutingTable.new hosts strategy) name + 0
  rw [hzero fun _ => rfl, hzero fun _ => rfl]

/-- In all states of a run, all requests that have ended are counted, and all calls whose
requests ended in a failure of the transport have failed over, exactly if no request has
ended in a failure that the loop does not handle, or without a response otherwise. -/
theorem accounted_iff (hosts : List HostConfig) (strategy : Strategy)
    (as : List DispatchesAction) :
  Always Step (initial hosts strategy) as Accounted
    ∧ AllSteps Step (initial hosts strategy) as FailsOver
      ↔ AllSteps Step (initial hosts strategy) as (fun _ a => a.Counts)
  := by
  have hknown : Known (initial hosts strategy) := List.forall_mem_nil _
  have hcounts : Always Step (initial hosts strategy) as Accounted
      ↔ AllSteps Step (initial hosts strategy) as (fun _ a => a.Counts) := by
    apply always_iff_allSteps hknown (accounted_initial hosts strategy)
    · intro t a u h _ hstep
      exact h.step hstep
    · intro t a u h h' hstep
      exact h'.step_iff h hstep
  rw [hcounts]
  apply and_iff_left_of_imp
  intro h bs a s s' hbs hrun hstep
  exact failsOver_of_counts (hrun.invariant hknown Known.step) (h bs a s s' hbs hrun hstep)

/-- The host closes the connection without a response. -/
def closedConnection : List DispatchesAction :=
  [.call .none, .finish 0 (.error .remoteProtocolError)]

/-- The request is counted neither as handled nor as a failure. -/
theorem not_accounted :
  ¬ (Always Step (initial Failover.twoHosts .roundRobin) closedConnection Accounted
    ∧ AllSteps Step (initial Failover.twoHosts .roundRobin) closedConnection FailsOver)
  := by
  rintro ⟨h, -⟩
  revert h
  apply not_always_of_exec (b := fun s => s.attempts "a" == 1 && s.table.counted "a" == 0
    && s.awaiting "a" == 0)
  · decide +kernel
  · intro s hbad h
    have hhost : s.attempts "a" = s.table.counted "a" + s.awaiting "a" := h "a"
    simp only [Bool.and_eq_true, beq_iff_eq] at hbad
    omega

end Dispatches

end OllamaQueueProxy
