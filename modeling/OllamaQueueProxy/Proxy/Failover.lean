import OllamaQueueProxy.Routing.Hosts

/-!
# Failover

The loop of `dispatch_request` sends a request to one host after the other until one of
them answers.  It stops and answers 503 with `X-Failover-Exhausted` when `pick` returns a
host that was attempted already, although the hosts that were not attempted may be among
those `pick` did not return.  While a host is being asked, polls and other requests change
the table.

A run never stops with an untried host exactly when, each time the loop picks while some
host is untried, the counter of the round-robin lies in the interval of a host that was not
attempted (`always_exhaustive_iff`).  That is so whenever some host is reachable and no
reachable host was attempted (`picksUntried_of_reachable`).
-/

open Transition

namespace OllamaQueueProxy

/-- Where the loop of `dispatch_request` is. -/
inductive DispatchStatus where
  /-- It has not picked a host yet. -/
  | starting
  /-- It waits for the answer of the host with the URL. -/
  | awaiting (name url : String)
  /-- It answered 503 with `X-Failover-Exhausted`. -/
  | exhausted
  /-- It passed on the answer of the host. -/
  | answered (name : String) (statusCode : ℕ)
  /-- An exception left it. -/
  | raised
  deriving DecidableEq

/-- The loop of `dispatch_request` for one request. -/
structure Failover where
  table : RoutingTable
  attempted : List String
  status : DispatchStatus
  /-- The names and URLs of the hosts that were sent the request and failed it. -/
  failed : List (String × String)

inductive FailoverAction where
  /-- Another task acts on the table. -/
  | other (a : TableAction)
  | start
  /-- The host fails with an exception that the loop handles. -/
  | fail
  /-- The host answers; `notFound` tells whether it says that it has no such model. -/
  | answer (statusCode : ℕ) (notFound : Bool)
  /-- The host answers, and an exception is raised when the answer is passed on. -/
  | undecodable (statusCode : ℕ) (notFound : Bool)
  /-- The host fails with another exception. -/
  | crash

namespace Failover

def initial (hosts : List HostConfig) (strategy : Strategy) : Failover where
  table := .new hosts strategy
  attempted := []
  status := .starting
  failed := []

/-- The head of the loop: a host is picked, and sent the request unless it was attempted
already. -/
def next (model : RequestedModel) (s : Failover) : Failover :=
  match s.table.pick model with
  | none => { s with status := .raised }
  | some (none, table) => { s with
      table := table
      status := .exhausted }
  | some (some host, table) =>
      if s.attempted.contains host.name then { s with
        table := table
        status := .exhausted }
      else { s with
        table := table
        attempted := s.attempted ++ [host.name]
        status := .awaiting host.name host.url }

/-- The host fails the request and is marked unhealthy. -/
def recordFailure (s : Failover) (name url : String) : Failover :=
  { s with
    table := s.table.markUnhealthy name
    failed := s.failed ++ [(name, url)] }

/-- The table after a host answered. -/
def recordAnswer (model : RequestedModel) (table : RoutingTable) (name : String)
    (statusCode : ℕ) (notFound : Bool) : RoutingTable :=
  match model with
  | .named m =>
      if statusCode = 404 ∧ notFound = true then (table.countHandled name).invalidate name m
      else table.countHandled name
  | _ => table.countHandled name

/-- The state after an action; `none` if the action is not possible. -/
def step (model : RequestedModel) (s : Failover) : FailoverAction → Option Failover
  | .other a => some { s with table := s.table.act a }
  | .start => match s.status with
    | .starting => some (s.next model)
    | _ => none
  | .fail => match s.status with
    | .awaiting name url => some ((s.recordFailure name url).next model)
    | _ => none
  | .answer statusCode notFound => match s.status with
    | .awaiting name _ => some { s with
        table := recordAnswer model s.table name statusCode notFound
        status := .answered name statusCode }
    | _ => none
  | .undecodable statusCode notFound => match s.status with
    | .awaiting name _ => some { s with
        table := recordAnswer model s.table name statusCode notFound
        status := .raised }
    | _ => none
  | .crash => match s.status with
    | .awaiting _ _ => some { s with status := .raised }
    | _ => none

/-- The transitions of the loop for a request of the model. -/
abbrev Step (model : RequestedModel) : Failover → FailoverAction → Failover → Prop :=
  ofStep (step model)

/-- If the loop answered that all hosts failed, they all failed. -/
def Exhaustive (hosts : List HostConfig) (s : Failover) : Prop :=
  s.status = .exhausted → ∀ h ∈ hosts, (h.name, h.url) ∈ s.failed

/-- While some host has not failed the request, the counter of the round-robin lies in the
interval of a host that was not attempted. -/
def PicksUntried (hosts : List HostConfig) (model : RequestedModel) (s : Failover) : Prop :=
  (∃ h ∈ hosts, (h.name, h.url) ∉ s.failed) → ∀ reason cs,
    s.table.choices model = some (reason, cs) →
    ∃ host, RoundRobin.InInterval HostRoutingState.weight cs
      (s.table.rrCounter % RoundRobin.total HostRoutingState.weight cs) host
      ∧ host.name ∉ s.attempted

/-- The loop picks an untried host, whenever it picks one. -/
def StepPicksUntried (hosts : List HostConfig) (model : RequestedModel) (s : Failover) :
    FailoverAction → Prop
  | .start => PicksUntried hosts model s
  | .fail => ∀ name url, s.status = .awaiting name url →
      PicksUntried hosts model (s.recordFailure name url)
  | _ => True

variable {hosts : List HostConfig} {model : RequestedModel} {s s' : Failover}

/-- The loop stops exactly when the counter lies in the interval of no host that was not
attempted. -/
theorem next_exhausted_iff :
  (s.next model).status = .exhausted ↔ ∃ reason cs, s.table.choices model = some (reason, cs)
    ∧ ¬ ∃ host, RoundRobin.InInterval HostRoutingState.weight cs
      (s.table.rrCounter % RoundRobin.total HostRoutingState.weight cs) host
      ∧ host.name ∉ s.attempted
  := by
  simp only [← RoundRobin.slot_eq_some_iff]
  cases hchoices : s.table.choices model with
  | none =>
      have hpick : s.table.pick model = none := by
        rw [RoutingTable.pick, hchoices]
        rfl
      simp [next, hpick]
  | some choice =>
      obtain ⟨reason, cs⟩ := choice
      cases hslot : RoundRobin.slot HostRoutingState.weight cs s.table.rrCounter with
      | none =>
          have hpick : s.table.pick model = some (none, s.table) := by
            simp [RoutingTable.pick, hchoices, hslot]
          constructor
          · intro _
            use reason, cs, rfl
            simp [hslot]
          · intro _
            simp [next, hpick]
      | some host =>
          obtain ⟨table, hpick⟩ : ∃ table, s.table.pick model = some (some host, table) := by
            simp [RoutingTable.pick, hchoices, hslot]
          by_cases hattempted : host.name ∈ s.attempted
          · constructor
            · intro _
              use reason, cs, rfl
              simp [hslot, hattempted]
            · intro _
              simp [next, hpick, hattempted]
          · constructor
            · intro h
              simp [next, hpick, hattempted] at h
            · rintro ⟨reason', cs', hsame, hno⟩
              obtain ⟨rfl, rfl⟩ : reason = reason' ∧ cs = cs' := by simpa using hsame
              cases hno ⟨host, hslot, hattempted⟩

@[simp]
theorem next_failed (s : Failover) :
  (s.next model).failed = s.failed
  := by
  unfold next
  split
  · rfl
  · rfl
  · split <;> rfl

/-- After the loop picked a host, it is exhaustive exactly when it picked an untried one
while there was one. -/
theorem next_exhaustive_iff :
  Exhaustive hosts (s.next model) ↔ PicksUntried hosts model s
  := by
  rw [Exhaustive, next_exhausted_iff, next_failed]
  constructor
  · rintro h ⟨i, hi, huntried⟩ reason cs hchoices
    by_contra hno
    apply huntried
    apply h ⟨reason, cs, hchoices, hno⟩ i hi
  · rintro h ⟨reason, cs, hchoices, hno⟩ i hi
    by_contra huntried
    apply hno
    apply h ⟨i, hi, huntried⟩ reason cs hchoices

theorem Exhaustive.step_iff {a : FailoverAction} (h : Exhaustive hosts s)
    (hstep : Step model s a s') :
  Exhaustive hosts s' ↔ StepPicksUntried hosts model s a
  := by
  cases a with
  | other a =>
      obtain rfl := Option.some.inj hstep
      exact iff_of_true h trivial
  | start =>
      simp only [Step, ofStep, step] at hstep
      split at hstep
      · obtain rfl := Option.some.inj hstep
        apply next_exhaustive_iff
      · cases hstep
  | fail =>
      simp only [Step, ofStep, step] at hstep
      split at hstep
      · rename_i name url hstatus
        obtain rfl := Option.some.inj hstep
        rw [next_exhaustive_iff, StepPicksUntried, hstatus]
        constructor
        · intro hpicks name' url' hsame
          obtain ⟨rfl, rfl⟩ : name = name' ∧ url = url' := by simpa using hsame
          apply hpicks
        · intro hpicks
          apply hpicks name url rfl
      · cases hstep
  | answer | undecodable | crash =>
      simp only [Step, ofStep, step] at hstep
      split at hstep
      · obtain rfl := Option.some.inj hstep
        apply iff_of_true _ trivial
        intro hexhausted
        cases hexhausted
      · cases hstep

/-- In all states of a run the loop has not stopped before every host failed exactly when it
picks an untried host whenever there is one. -/
theorem always_exhaustive_iff (hosts : List HostConfig) (strategy : Strategy)
    (model : RequestedModel) (as : List FailoverAction) :
  Always (Step model) (initial hosts strategy) as (Exhaustive hosts)
    ↔ AllSteps (Step model) (initial hosts strategy) as (StepPicksUntried hosts model)
  := by
  apply always_iff_allSteps (I := fun _ => True) trivial
  · intro h
    cases h
  · intro t a u _ _ _
    trivial
  · intro t a u _ h hstep
    apply h.step_iff hstep

/-- The loop picks an untried host if some host is reachable and no reachable host was
attempted. -/
theorem picksUntried_of_reachable (hweight : ∀ st ∈ s.table.states, 0 < st.weight)
    (hreachable : ∃ st ∈ s.table.states, st.reachable = true)
    (huntried : ∀ st ∈ s.table.states, st.reachable = true → st.name ∉ s.attempted) :
  PicksUntried hosts model s
  := by
  intro _ reason cs hchoices
  obtain ⟨hcandidates, hne⟩ := RoutingTable.candidates_of_reachable hreachable
  obtain ⟨hsubset, hnonempty⟩ := RoutingTable.choices_subset hchoices
  have hreach {st : HostRoutingState} (hst : st ∈ cs) :
      st ∈ s.table.states ∧ st.reachable = true := by
    have hmem := hsubset hst
    rw [hcandidates] at hmem
    apply List.mem_filter.mp hmem
  obtain ⟨st, hst⟩ := List.exists_mem_of_ne_nil cs (hnonempty hne)
  have htotal : 0 < RoundRobin.total HostRoutingState.weight cs :=
    RoundRobin.total_pos hst (hweight st (hreach hst).1)
  obtain ⟨host, hslot⟩ := RoundRobin.slot_isSome (c := s.table.rrCounter) htotal
  have hinterval := RoundRobin.slot_eq_some_iff.mp hslot
  use host, hinterval
  obtain ⟨hmem, hhost⟩ := hreach hinterval.mem
  apply huntried host hmem hhost

/-- Two hosts that do not answer their polls; the first has twice the weight. -/
def twoHosts : List HostConfig :=
  [⟨"http://a", "a", 2, Nat.two_pos⟩, ⟨"http://b", "b", 1, Nat.one_pos⟩]

/-- The polls of both hosts fail, and the first host fails the request. -/
def bothUnreachable : List FailoverAction :=
  [.other (.poll "a" none), .other (.poll "b" none), .start, .fail]

/-- The loop stops although the second host was not sent the request. -/
theorem not_always_exhaustive :
  ¬ Always (Step .none) (initial twoHosts .roundRobin) bothUnreachable (Exhaustive twoHosts)
  := by
  apply not_always_of_exec
    (b := fun s => s.status == .exhausted && !s.failed.contains ("b", "http://b"))
  · decide +kernel
  · intro s hbad h
    simp only [Bool.and_eq_true, beq_iff_eq, Bool.not_eq_true', List.contains_eq_mem,
      decide_eq_false_iff_not] at hbad
    apply hbad.2
    apply h hbad.1 ⟨"http://b", "b", 1, by decide⟩
    simp [twoHosts]

end Failover

end OllamaQueueProxy
