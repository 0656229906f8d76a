import OllamaQueueProxy.Queue.Run
import OllamaQueueProxy.Routing.Hosts

/-!
# Webhook events

`lifespan` hands the events of the queue manager to the webhook manager.  The routing table only
logs that a host was lost or has recovered, and has no reference to the webhook manager.  So of
the events `host.unhealthy` and `host.recovered`, to which a configuration subscribes by default,
none is ever fired (`notMem_deliveries`), and every change of the reachability of a host goes
unreported (`announced_iff`).
-/

open Transition

namespace OllamaQueueProxy

/-- An event as `WebhookManager.fire` is called with it. -/
structure WebhookEvent where
  event : String
  tier : Option Tier
  /-- The keyword arguments, as they are printed. -/
  kwargs : List (String × String)

/-- What `on_queue_event` passes on of an event of the queue. -/
def QueueEvent.toWebhook : QueueEvent → WebhookEvent
  | .full tier clientId => ⟨"queue.full", tier, [("client_id", clientId)]⟩
  | .overCapacity tier clientId => ⟨"queue.over_capacity", tier, [("client_id", clientId)]⟩
  | .highWatermark tier queueDepth =>
      ⟨"queue.high_watermark", tier, [("queue_depth", toString queueDepth)]⟩
  | .drained => ⟨"queue.drained", none, []⟩

/-- The event that the entry records, if it records one. -/
def Entry.event? {δ : Type} : Entry δ → Option QueueEvent
  | .fired event => some event
  | _ => none

/-- The section `webhooks`. -/
structure WebhookConfig where
  enabled : Bool
  events : List String

/-- The section with its default values. -/
def WebhookConfig.default : WebhookConfig where
  enabled := false
  events := ["queue.full", "queue.high_watermark", "queue.drained", "host.unhealthy",
    "host.recovered"]

/-- `WebhookManager.fire` starts a delivery of the event. -/
def WebhookConfig.delivers (cfg : WebhookConfig) (e : WebhookEvent) : Bool :=
  cfg.enabled && cfg.events.contains e.event

/-- The state of the queue and of the hosts. -/
structure AppState (δ ρ ε : Type) (n : ℕ) where
  queueManager : PriorityQueueManager δ ρ ε n
  routingTable : RoutingTable

/-- The actions of the tasks of the application on the queue and on the hosts. -/
inductive AppAction (δ ρ ε : Type) (n : ℕ) where
  | queue (a : Action δ ρ ε n)
  | table (a : TableAction)

namespace AppState

variable {δ ρ ε : Type} {n : ℕ}

def initial (δ ρ ε : Type) (n : ℕ) (hosts : List HostConfig) (strategy : Strategy) :
    AppState δ ρ ε n where
  queueManager := PriorityQueueManager.initial δ ρ ε n
  routingTable := RoutingTable.new hosts strategy

def step (cfg : QueueConfig) (x : AppState δ ρ ε n) :
    AppAction δ ρ ε n → Option (AppState δ ρ ε n)
  | .queue a => (x.queueManager.step cfg a).map fun s => { x with queueManager := s }
  | .table a => some { x with routingTable := x.routingTable.act a }

abbrev Step (cfg : QueueConfig) :
    AppState δ ρ ε n → AppAction δ ρ ε n → AppState δ ρ ε n → Prop :=
  ofStep (step cfg)

/-- The events with which the webhook manager was called so far. -/
def fired (x : AppState δ ρ ε n) : List WebhookEvent :=
  (x.queueManager.log.filterMap Entry.event?).map QueueEvent.toWebhook

/-- How often the webhook manager was called with an event of the name. -/
def firedCount (x : AppState δ ρ ε n) (event : String) : ℕ :=
  x.fired.countP fun e => e.event == event

/-- The events whose delivery was started so far. -/
def deliveries (cfg : WebhookConfig) (x : AppState δ ρ ε n) : List WebhookEvent :=
  x.fired.filter cfg.delivers

/-- The number of hosts that are reachable in `r` as `before` says, and in `r'` as `after`
says. -/
def changed (before after : Bool) (r r' : RoutingTable) : ℕ :=
  (r.states.zip r'.states).countP fun (st, st') =>
    st.reachable == before && st'.reachable == after

/-- Every host that the step makes unreachable fires one event `host.unhealthy`, every host that
it makes reachable one event `host.recovered`, and nothing else fires either. -/
def Announced (cfg : QueueConfig) (x : AppState δ ρ ε n) (a : AppAction δ ρ ε n) : Prop :=
  ∀ y, step cfg x a = some y →
    y.firedCount "host.unhealthy"
        = x.firedCount "host.unhealthy" + changed true false x.routingTable y.routingTable
      ∧ y.firedCount "host.recovered"
        = x.firedCount "host.recovered" + changed false true x.routingTable y.routingTable

/-- The action leaves every host as reachable as it was: a poll only confirms what is known of its
host, and a host is marked unhealthy only if it is unreachable. -/
def ConfirmsHosts (x : AppState δ ρ ε n) : AppAction δ ρ ε n → Prop
  | .table (.poll name answer) =>
      ∀ st ∈ x.routingTable.states, st.name = name → st.reachable = answer.isSome
  | .table (.markUnhealthy name) =>
      ∀ st ∈ x.routingTable.states, st.name = name → st.reachable = false
  | _ => True

variable {cfg : QueueConfig} {x y : AppState δ ρ ε n} {r r' : RoutingTable}

/-! ### The events of the queue -/

theorem toWebhook_ne (e : QueueEvent) :
  e.toWebhook.event ≠ "host.unhealthy" ∧ e.toWebhook.event ≠ "host.recovered"
  := by
  cases e <;> simp [QueueEvent.toWebhook]

theorem ne_of_mem_fired (x : AppState δ ρ ε n) {e : WebhookEvent} (he : e ∈ x.fired) :
  e.event ≠ "host.unhealthy" ∧ e.event ≠ "host.recovered"
  := by
  obtain ⟨event, -, rfl⟩ := List.mem_map.mp he
  exact toWebhook_ne event

/-- No event of a host is ever delivered. -/
theorem notMem_deliveries (webhooks : WebhookConfig) {e : WebhookEvent}
    (he : e ∈ x.deliveries webhooks) :
  e.event ≠ "host.unhealthy" ∧ e.event ≠ "host.recovered"
  := ne_of_mem_fired x (List.mem_filter.mp he).1

theorem firedCount_eq_zero (x : AppState δ ρ ε n) :
  x.firedCount "host.unhealthy" = 0 ∧ x.firedCount "host.recovered" = 0
  := by
  constructor
  · apply List.countP_eq_zero.mpr
    intro e he
    simpa using (ne_of_mem_fired x he).1
  · apply List.countP_eq_zero.mpr
    intro e he
    simpa using (ne_of_mem_fired x he).2

/-! ### The changes of the hosts -/

/-- Whether a host is reachable after the action. -/
def reachableAfter (a : TableAction) (st : HostRoutingState) : Bool :=
  match a with
  | .poll name answer => if st.name = name then answer.isSome else st.reachable
  | .markUnhealthy name => if st.name = name then false else st.reachable
  | _ => st.reachable

/-- An action changes the states of the hosts one by one. -/
theorem exists_states_act (r : RoutingTable) (a : TableAction) :
  ∃ g : HostRoutingState → HostRoutingState, (r.act a).states = r.states.map g
    ∧ ∀ st, (g st).reachable = reachableAfter a st
  := by
  cases a with
  | poll name answer =>
      refine ⟨_, rfl, fun st => ?_⟩
      rw [reachableAfter, apply_ite HostRoutingState.reachable]
      cases answer <;> rfl
  | pick model =>
      refine ⟨id, ?_, fun _ => rfl⟩
      rw [List.map_id]
      cases hpick : r.pick model with
      | none => simp only [RoutingTable.act, hpick]
      | some result =>
          simp only [RoutingTable.act, hpick]
          exact (RoutingTable.states_of_pick hpick).1
  | markUnhealthy name =>
      refine ⟨_, rfl, fun st => ?_⟩
      rw [reachableAfter, apply_ite HostRoutingState.reachable]
  | invalidate | countHandled =>
      refine ⟨_, rfl, fun st => ?_⟩
      rw [apply_ite HostRoutingState.reachable]
      apply ite_self

theorem changed_eq_zero_iff {g : HostRoutingState → HostRoutingState}
    (h : r'.states = r.states.map g) (before after : Bool) :
  changed before after r r' = 0
    ↔ ∀ st ∈ r.states, st.reachable = before → (g st).reachable ≠ after
  := by
  rw [changed, h, ← List.map_prod_left_eq_zip, List.countP_map, List.countP_eq_zero]
  simp

/-- Neither event is due exactly when every host stays as reachable as it was. -/
theorem unchanged_iff {g : HostRoutingState → HostRoutingState}
    (h : r'.states = r.states.map g) :
  changed true false r r' = 0 ∧ changed false true r r' = 0
    ↔ ∀ st ∈ r.states, (g st).reachable = st.reachable
  := by
  rw [changed_eq_zero_iff h, changed_eq_zero_iff h]
  constructor
  · rintro ⟨hlost, hrecovered⟩ st hst
    cases hreachable : st.reachable with
    | false => simpa using hrecovered st hst hreachable
    | true => simpa using hlost st hst hreachable
  · intro hsame
    constructor <;> intro st hst hreachable <;> rw [hsame st hst, hreachable] <;> simp

theorem confirmsHosts_table_iff (x : AppState δ ρ ε n) (a : TableAction) :
  ConfirmsHosts x (.table a)
    ↔ ∀ st ∈ x.routingTable.states, reachableAfter a st = st.reachable
  := by
  cases a with
  | poll name answer =>
      apply forall₂_congr
      intro st _
      rw [reachableAfter, ite_eq_right_iff, @eq_comm Bool st.reachable]
  | markUnhealthy name =>
      apply forall₂_congr
      intro st _
      rw [reachableAfter, ite_eq_right_iff, @eq_comm Bool st.reachable]
  | pick | invalidate | countHandled => exact ⟨fun _ _ _ => rfl, fun _ => trivial⟩

/-- What a step has to announce is announced exactly when there is nothing to announce. -/
theorem announced_step_iff {a : AppAction δ ρ ε n} (h : Step cfg x a y) :
  Announced cfg x a ↔ ConfirmsHosts x a
  := by
  have hy : step cfg x a = some y := h
  have hdue : Announced cfg x a ↔ changed true false x.routingTable y.routingTable = 0
      ∧ changed false true x.routingTable y.routingTable = 0 := by
    simp only [Announced, hy, Option.some.injEq, forall_eq', (firedCount_eq_zero _).1,
      (firedCount_eq_zero _).2, Nat.zero_add, @eq_comm ℕ 0]
  rw [hdue]
  cases a with
  | queue a =>
      obtain ⟨s, -, rfl⟩ := Option.map_eq_some_iff.mp hy
      have hid : x.routingTable.states = x.routingTable.states.map id := (List.map_id _).symm
      exact ⟨fun _ => trivial, fun _ => (unchanged_iff hid).mpr fun _ _ => rfl⟩
  | table a =>
      obtain rfl := Option.some.inj hy
      obtain ⟨g, hstates, hg⟩ := exists_states_act x.routingTable a
      rw [unchanged_iff hstates, confirmsHosts_table_iff]
      simp only [hg]

/-- In a run every change of a host is announced exactly when no host ever changes. -/
theorem announced_iff (cfg : QueueConfig) (hosts : List HostConfig) (strategy : Strategy)
    (as : List (AppAction δ ρ ε n)) :
  AllSteps (Step cfg) (initial δ ρ ε n hosts strategy) as (Announced cfg)
    ↔ AllSteps (Step cfg) (initial δ ρ ε n hosts strategy) as ConfirmsHosts
  := allSteps_iff_allSteps (I := fun _ => True) trivial (fun _ _ _ => trivial)
    (fun _ h => announced_step_iff h)

/-- A host that fails its first poll. -/
def polledHost : HostConfig where
  url := "http://a:11434"
  name := "a"
  weight := 1
  positiveWeight := Nat.one_pos

/-- It is lost, and nothing is fired. -/
theorem not_announced :
  ¬ AllSteps (Step QueueConfig.default) (initial Unit Unit Unit 1 [polledHost] .roundRobin)
    [.table (.poll "a" none)] (Announced QueueConfig.default)
  := by
  rw [announced_iff]
  intro hall
  have hconfirms := hall [] (.table (.poll "a" none)) _ _ List.prefix_rfl (.nil _) rfl
  exact absurd (hconfirms (.new polledHost) (List.mem_singleton_self _) rfl) Bool.noConfusion

end AppState

end OllamaQueueProxy
