import OllamaQueueProxy.Config
import OllamaQueueProxy.Library.RoundRobin

/-!
# The routing table

The state of the hosts and the choice of one.  `pick` runs a weighted round-robin over the
reachable hosts, or over all of them when none is reachable; with the strategy
`model_aware` it prefers those that have the requested model.  The hosts are kept in a
dictionary by their names.
-/

namespace OllamaQueueProxy

/-- What the table tracks of a host. -/
structure HostRoutingState where
  url : String
  name : String
  weight : ℕ
  installedModels : List String
  reachable : Bool
  requestsHandled : ℕ
  failures : ℕ

/-- The state of a host that has not been polled. -/
def HostRoutingState.new (h : HostConfig) : HostRoutingState where
  url := h.url
  name := h.name
  weight := h.weight
  installedModels := []
  reachable := true
  requestsHandled := 0
  failures := 0

/-- The value of the field `model` of a request, as `pick` sees it. -/
inductive RequestedModel where
  /-- There is none, or it is false in a condition. -/
  | none
  | named (model : String)
  /-- A value that equals no string. -/
  | unnamed
  /-- A value that cannot be looked up in a set, which raises `TypeError`. -/
  | unhashable

/-- Why a host is chosen. -/
inductive RoutingReason where
  | modelMatch
  | roundRobin
  | fallback

/-- How often hosts were chosen for which reason. -/
structure RoutingDecisions where
  modelMatch : ℕ
  roundRobin : ℕ
  fallback : ℕ

def RoutingDecisions.count (d : RoutingDecisions) : RoutingReason → RoutingDecisions
  | .modelMatch => { d with modelMatch := d.modelMatch + 1 }
  | .roundRobin => { d with roundRobin := d.roundRobin + 1 }
  | .fallback => { d with fallback := d.fallback + 1 }

structure RoutingTable where
  strategy : Strategy
  /-- The values of the dictionary, in the order of its keys. -/
  states : List HostRoutingState
  rrCounter : ℕ
  decisions : RoutingDecisions

namespace RoutingTable

/-- A state is stored under its name: in the place of the one stored before, or at the
end. -/
def insert (states : List HostRoutingState) (st : HostRoutingState) :
    List HostRoutingState :=
  if states.any (fun s => s.name == st.name) then
    states.map fun s => if s.name = st.name then st else s
  else states ++ [st]

def new (hosts : List HostConfig) (strategy : Strategy) : RoutingTable where
  strategy := strategy
  states := hosts.foldl (fun states h => insert states (.new h)) []
  rrCounter := 0
  decisions := ⟨0, 0, 0⟩

/-- The state of the host of a name is changed. -/
def modify (r : RoutingTable) (name : String) (f : HostRoutingState → HostRoutingState) :
    RoutingTable :=
  { r with states := r.states.map fun s => if s.name = name then f s else s }

/-- The end of `_poll_host`: the models the host answered with, or `none` if it failed. -/
def pollHost (r : RoutingTable) (name : String) (answer : Option (List String)) :
    RoutingTable :=
  r.modify name fun s => match answer with
    | none => { s with reachable := false }
    | some models => { s with
        installedModels := models
        reachable := true }

def markUnhealthy (r : RoutingTable) (name : String) : RoutingTable :=
  r.modify name fun s => { s with
    reachable := false
    failures := s.failures + 1 }

def invalidate (r : RoutingTable) (name model : String) : RoutingTable :=
  r.modify name fun s => { s with installedModels := s.installedModels.filter (· != model) }

def countHandled (r : RoutingTable) (name : String) : RoutingTable :=
  r.modify name fun s => { s with requestsHandled := s.requestsHandled + 1 }

/-- `_candidates`: the reachable hosts, or all of them if none is reachable. -/
def candidates (r : RoutingTable) : List HostRoutingState :=
  let reachable := r.states.filter HostRoutingState.reachable
  if reachable.isEmpty then r.states else reachable

/-- The candidates that have the model installed; `none` when looking it up raises
`TypeError`. -/
def withModel (r : RoutingTable) : RequestedModel → Option (List HostRoutingState)
  | .none | .unnamed => some []
  | .named model => some (r.candidates.filter fun s => s.installedModels.contains model)
  | .unhashable => if r.candidates.isEmpty then some [] else Option.none

/-- The hosts over which `pick` runs its round-robin, and why; `none` when it raises
`TypeError`. -/
def choices (r : RoutingTable) (model : RequestedModel) :
    Option (RoutingReason × List HostRoutingState) :=
  match r.strategy, model with
  | .roundRobin, _ | .modelAware, .none => some (.roundRobin, r.candidates)
  | .modelAware, model => (r.withModel model).map fun hosts =>
      if hosts.isEmpty then (.fallback, r.candidates) else (.modelMatch, hosts)

/-- `pick`: the chosen host, if any, and the table after it; `none` when it raises
`TypeError`. -/
def pick (r : RoutingTable) (model : RequestedModel) :
    Option (Option HostRoutingState × RoutingTable) :=
  (r.choices model).map fun (reason, hosts) =>
    match RoundRobin.slot HostRoutingState.weight hosts r.rrCounter with
    | none => (none, r)
    | some host => (some host, { r with
        rrCounter := r.rrCounter + 1
        decisions := r.decisions.count reason })

end RoutingTable

end OllamaQueueProxy
