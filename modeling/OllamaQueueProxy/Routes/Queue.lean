import OllamaQueueProxy.Handler.Authorisation
import OllamaQueueProxy.Library.Quote

/-!
# The management of the queue

`require_scope`, the gate of the routes apart from the catch-all ones, and the routes that pause
and resume tiers, flush them and wait until the queues are empty.  A route authorises the
request before it looks at the tier: what it does and answers for a request that is not
authorised depends neither on the route nor on the tier (`handle_refused`), and whatever it
does to the queue it does for a request that is (`QueueRoute.handle_sat`).
-/

open Program (Event Reaches Sat)
open Json (text)

namespace OllamaQueueProxy

/-! ### The gate -/

/-- `require_scope`: the answer to a request that may not proceed. -/
def requireScope (cfg : AuthConfig) (r : Request) (required : Scope) :
    Handler (Except Outcome Unit) := do
  match ← (AuthManager.new cfg).authenticate r with
  | .raised => return .error .raised
  | .refused response => return .error (.response response)
  | .passed keyCfg =>
      if cfg.enabled && !(keyCfg.any fun k => k.allows required) then
        return .error (.response (scopeDenied r required.name))
      else return .ok ()

/-- The request may use what requires the scope: authentication is disabled, or it presented
a key that allows the scope. -/
def ScopeGranted (cfg : AuthConfig) (r : Request) (required : Scope)
    (h : List (Event Op.Answer)) : Prop :=
  ∃ keyCfg, Authenticated cfg r h keyCfg ∧ ∀ k ∈ keyCfg, k.allows required = true

theorem ScopeGranted.append {cfg : AuthConfig} {r : Request} {required : Scope}
    {h : List (Event Op.Answer)} (hgranted : ScopeGranted cfg r required h)
    (es : List (Event Op.Answer)) :
  ScopeGranted cfg r required (h ++ es)
  := by
  obtain ⟨keyCfg, hauth, hallows⟩ := hgranted
  exact ⟨keyCfg, hauth.append es, hallows⟩

/-- A request that was authenticated passes the check of the scope only if it may. -/
theorem scopeGranted_of_passed {cfg : AuthConfig} {r : Request} {required : Scope}
    {h : List (Event Op.Answer)} {keyCfg : Option ApiKeyConfig}
    (hauth : Authenticated cfg r h keyCfg)
    (hpassed : ¬ (cfg.enabled && !(keyCfg.any fun k => k.allows required)) = true) :
  ScopeGranted cfg r required h
  := by
  use keyCfg, hauth
  intro k hk
  obtain rfl := Option.mem_def.mp hk
  simpa [hauth.1] using hpassed

/-- The gate only looks at the failures and changes them.  It lets a request pass only if it
may, and answers no other with the status of a success. -/
theorem requireScope_sat (cfg : AuthConfig) (r : Request) (required : Scope)
    (h : List (Event Op.Answer)) :
  Sat anyAnswer (fun _ op => op.ofAuth = true)
    (fun h' result => match result with
      | .ok () => ScopeGranted cfg r required h'
      | .error (.response response) => response.statusCode ≠ 200
      | .error .raised => True) h
    (requireScope cfg r required)
  := by
  unfold requireScope
  rw [Program.sat_bind]
  have hauth := (authenticate_refuses (AuthManager.new cfg) r).and (authenticate_sat cfg r h)
  apply hauth.mono And.left
  rintro h' result ⟨hrefuses, hpassed⟩
  cases result with
  | raised => trivial
  | refused response => exact hrefuses
  | passed keyCfg =>
      dsimp only
      split
      · exact fun h => absurd h (by decide : (403 : ℕ) ≠ 200)
      · rename_i hscope
        exact scopeGranted_of_passed (hpassed keyCfg rfl) hscope

/-- The program of a route that shows something to requests with the scope `read`, such as
`queue_status`, `queue_summary`, `metrics`, and `dashboard` where it is enabled. -/
def inspection (cfg : AuthConfig) (r : Request) (shown : Outcome) : Handler Outcome := do
  match ← requireScope cfg r .read with
  | .error outcome => return outcome
  | .ok () => return shown

/-- Such a route only authenticates the request. -/
theorem inspection_calls (cfg : AuthConfig) (r : Request) (shown : Outcome) :
  Program.Calls (fun op => op.ofAuth = true) (inspection cfg r shown)
  := by
  apply Program.Calls.bind (requireScope_sat cfg r .read []).calls
  intro result
  cases result <;> apply Program.calls_pure

/-! ### The routes -/

/-- What a route asks of the rest of the application. -/
inductive RouteOp where
  /-- What the handlers of the ports ask. -/
  | handler (op : Op)
  | pause (tier : Option Tier)
  | resume (tier : Option Tier)
  | drain
  | flush (tier : Option Tier)

/-- What the operations are answered with. -/
@[reducible] def RouteOp.Answer : RouteOp → Type
  | .handler op => op.Answer
  | .pause _ | .resume _ | .drain => Unit
  -- the number of items dropped, `none` if an exception is raised
  | .flush _ => Option ℕ

/-- The operation is one of the routes of the queue. -/
def RouteOp.isRoute : RouteOp → Bool
  | .handler _ => false
  | .pause _ | .resume _ | .drain | .flush _ => true

/-- The programs of the routes. -/
abbrev Route (α : Type) : Type := Program RouteOp RouteOp.Answer α

/-- A program that only asks what handlers ask, as the one of a route. -/
def ofHandler {α : Type} (p : Handler α) : Route α := p.embed RouteOp.handler fun _ r => r

/-- The event of a handler, if it is one. -/
def handlerEvent? : Event RouteOp.Answer → Option (Event Op.Answer)
  | ⟨.handler op, r⟩ => some ⟨op, r⟩
  | _ => none

/-- The events of the handler that is part of a route. -/
abbrev handlerEvents (h : List (Event RouteOp.Answer)) : List (Event Op.Answer) :=
  h.filterMap handlerEvent?

/-- Any answer may come. -/
abbrev anyRouteAnswer : (op : RouteOp) → op.Answer → Prop := fun _ _ => True

/-- What is asserted of a program is asserted of it as part of a route. -/
theorem ofHandler_sat {α : Type} {p : Handler α} {pre : List (Event Op.Answer) → Op → Prop}
    {post : List (Event Op.Answer) → α → Prop} {h : List (Event RouteOp.Answer)}
    (hp : Sat anyAnswer pre post (handlerEvents h) p) :
  Sat anyRouteAnswer (fun h' op => ∃ o, op = .handler o ∧ pre (handlerEvents h') o)
    (fun h' a => post (handlerEvents h') a) h (ofHandler p)
  := hp.embed (fun _ _ => rfl) fun _ _ _ => trivial

theorem reaches_of_ofHandler {α : Type} {p : Handler α} {es : List (Event RouteOp.Answer)} {a : α}
    (h : Reaches anyRouteAnswer (ofHandler p) es (.pure a)) :
  Reaches anyAnswer p (handlerEvents es) (.pure a)
  := h.of_embed (fun _ _ => rfl) fun _ _ _ => trivial

/-- The routes of the queue, with the parameter `tier` of the request. -/
inductive QueueRoute where
  | pause (tier : Option String)
  | resume (tier : Option String)
  | drain
  | flush (tier : Option String)

/-- The tiers that the parameter stands for, unless it is invalid. -/
def tierParameter? : Option String → Option (Option Tier)
  | none => some none
  | some name => (Tier.ofName? name).map some

variable (unicode : Unicode)

/-- `_validate_tier`: the tiers, or the answer to an invalid parameter. -/
def validateTier (tier : Option String) (requestId : String) : Except Response (Option Tier) :=
  match tierParameter? tier with
  | some t => .ok t
  | none => .error ⟨400, .json (.object [
      (text "error", .string (text "invalid tier: " ++ unicode.repr (text (tier.getD "")) ++
        text " (must be high, normal, or low)")),
      (text "request_id", .string (text requestId))]), []⟩

/-- The answer of a route that has done what was asked. -/
def succeeded (status : String) (fields : Fields) : Outcome :=
  .response ⟨200, .json (.object ((text "status", .string (text status)) :: fields)), []⟩

/-- `tier or "all"`. -/
def tierField (tier : Option Tier) : Json.Text × Json :=
  (text "tier", .string (text (tier.elim "all" Tier.name)))

/-- The route goes on if `_require_management` lets the request pass. -/
def requireManagement (cfg : AuthConfig) (r : Request) (route : Route Outcome) : Route Outcome := do
  match ← ofHandler (requireScope cfg r .management) with
  | .error outcome => return outcome
  | .ok () => route

/-- The route goes on with the tiers, if the parameter is valid. -/
def withTier (r : Request) (tier : Option String) (route : Option Tier → Route Outcome) :
    Route Outcome :=
  match validateTier unicode tier r.requestId with
  | .error response => return .response response
  | .ok t => route t

/-- The operation is carried out, and the request is answered. -/
def carryOut (op : RouteOp) (answer : op.Answer → Outcome) : Route Outcome := do
  let result ← (Program.perform op : Route op.Answer)
  return answer result

def queuePause (cfg : AuthConfig) (r : Request) (tier : Option String) : Route Outcome :=
  requireManagement cfg r (withTier unicode r tier fun t =>
    carryOut (.pause t) fun _ => succeeded "paused" [tierField t])

def queueResume (cfg : AuthConfig) (r : Request) (tier : Option String) : Route Outcome :=
  requireManagement cfg r (withTier unicode r tier fun t =>
    carryOut (.resume t) fun _ => succeeded "resumed" [tierField t])

def queueDrain (cfg : AuthConfig) (r : Request) : Route Outcome :=
  requireManagement cfg r (carryOut .drain fun _ => succeeded "drained" [])

/-- The answer after a flush. -/
def flushed (t : Option Tier) : Option ℕ → Outcome
  | some dropped =>
      succeeded "flushed" [tierField t, (text "dropped", .number (.ofNat dropped))]
  | none => .raised

def queueFlush (cfg : AuthConfig) (r : Request) (tier : Option String) : Route Outcome :=
  requireManagement cfg r (withTier unicode r tier fun t => carryOut (.flush t) (flushed t))

namespace QueueRoute

/-- The route as it is registered. -/
def fixedRoute : QueueRoute → FixedRoute
  | .pause _ => ⟨["POST"], Url.ascii "/queue/pause"⟩
  | .resume _ => ⟨["POST"], Url.ascii "/queue/resume"⟩
  | .drain => ⟨["POST"], Url.ascii "/queue/drain"⟩
  | .flush _ => ⟨["POST"], Url.ascii "/queue/flush"⟩

/-- The program of a route. -/
def handle (cfg : AuthConfig) (r : Request) : QueueRoute → Route Outcome
  | .pause tier => queuePause unicode cfg r tier
  | .resume tier => queueResume unicode cfg r tier
  | .drain => queueDrain cfg r
  | .flush tier => queueFlush unicode cfg r tier

/-- What the route does to the queue, unless its parameter is invalid. -/
def operation? : QueueRoute → Option RouteOp
  | .pause tier => (tierParameter? tier).map .pause
  | .resume tier => (tierParameter? tier).map .resume
  | .drain => some .drain
  | .flush tier => (tierParameter? tier).map .flush

theorem isRoute_of_operation? (route : QueueRoute) {op : RouteOp}
    (h : route.operation? = some op) :
  op.isRoute = true
  := by
  cases route with
  | pause tier | resume tier | flush tier =>
      obtain ⟨t, -, rfl⟩ := Option.map_eq_some_iff.mp h
      rfl
  | drain =>
      obtain rfl := Option.some.inj h
      rfl

end QueueRoute

/-! ### What the routes do -/

/-- The operation is one of the authentication, or the one of the route, and then the request
may manage the queue. -/
def RoutePermitted (cfg : AuthConfig) (r : Request) (route : QueueRoute)
    (h : List (Event RouteOp.Answer)) (op : RouteOp) : Prop :=
  (∃ o : Op, op = .handler o ∧ o.ofAuth = true)
    ∨ route.operation? = some op ∧ ScopeGranted cfg r .management (handlerEvents h)

/-- A success is answered only after the operation of the route was carried out. -/
def RouteAnswered (route : QueueRoute) (h : List (Event RouteOp.Answer)) (outcome : Outcome) :
    Prop :=
  ∀ response, outcome = .response response → response.statusCode = 200 →
    ∃ e ∈ h, route.operation? = some e.1

variable {unicode} {cfg : AuthConfig} {r : Request} {route : QueueRoute}
  {h : List (Event RouteOp.Answer)}

theorem carryOut_sat {op : RouteOp} {answer : op.Answer → Outcome}
    (hop : route.operation? = some op)
    (hgranted : ScopeGranted cfg r .management (handlerEvents h)) :
  Sat anyRouteAnswer (RoutePermitted cfg r route) (RouteAnswered route) h (carryOut op answer)
  := by
  use .inr ⟨hop, hgranted⟩
  intro result _ response _ _
  exact ⟨⟨op, result⟩, List.mem_concat_self, hop⟩

theorem withTier_sat {tier : Option String} {p : Option Tier → Route Outcome}
    (hp : ∀ t, tierParameter? tier = some t →
      Sat anyRouteAnswer (RoutePermitted cfg r route) (RouteAnswered route) h (p t)) :
  Sat anyRouteAnswer (RoutePermitted cfg r route) (RouteAnswered route) h
    (withTier unicode r tier p)
  := by
  unfold withTier validateTier
  cases htier : tierParameter? tier with
  | none =>
      intro response hresponse hsuccess
      obtain rfl := Outcome.response.inj hresponse
      exact absurd hsuccess (by decide : (400 : ℕ) ≠ 200)
  | some t => exact hp t htier

theorem requireManagement_sat {p : Route Outcome}
    (hp : ∀ h, ScopeGranted cfg r .management (handlerEvents h) →
      Sat anyRouteAnswer (RoutePermitted cfg r route) (RouteAnswered route) h p) :
  Sat anyRouteAnswer (RoutePermitted cfg r route) (RouteAnswered route) h
    (requireManagement cfg r p)
  := by
  unfold requireManagement
  rw [Program.sat_bind]
  apply (ofHandler_sat (requireScope_sat cfg r .management (handlerEvents h))).mono
  · rintro h' op ⟨o, rfl, ho⟩
    exact .inl ⟨o, rfl, ho⟩
  · intro h' result hresult
    cases result with
    | ok =>
        exact hp h' hresult
    | error outcome =>
        intro response hresponse hsuccess
        subst hresponse
        exact absurd hsuccess hresult

/-- A route does to the queue what it is for, and only for a request that may manage the queue;
and it answers a success only after it has done so. -/
theorem QueueRoute.handle_sat (route : QueueRoute) :
  Sat anyRouteAnswer (RoutePermitted cfg r route) (RouteAnswered route) h
    (route.handle unicode cfg r)
  := by
  cases route with
  | pause tier | resume tier | flush tier =>
      refine requireManagement_sat fun h hgranted => withTier_sat fun t ht => ?_
      exact carryOut_sat (by rw [QueueRoute.operation?, ht]; rfl) hgranted
  | drain => exact requireManagement_sat fun h hgranted => carryOut_sat rfl hgranted

/-- A route calls the operations of the authentication, and those on the queue. -/
theorem QueueRoute.calls (route : QueueRoute) :
  Program.Calls (fun op => (∃ o : Op, op = .handler o ∧ o.ofAuth = true) ∨ op.isRoute = true)
    (route.handle unicode cfg r)
  := by
  have hsat : Sat anyRouteAnswer (RoutePermitted cfg r route) (RouteAnswered route) []
      (route.handle unicode cfg r) := route.handle_sat
  apply Program.Sat.calls (hsat.mono ?_ id)
  rintro h op (hauth | ⟨hop, -⟩)
  · exact .inl hauth
  · exact .inr (route.isRoute_of_operation? hop)

/-! ### Requests that are refused -/

/-- A request that does not pass the gate is answered by it, whatever the route goes on
with. -/
theorem requireManagement_refused {p : Route Outcome} {es : List (Event RouteOp.Answer)}
    {outcome : Outcome} (hreaches : Reaches anyRouteAnswer (requireManagement cfg r p) es
      (.pure outcome))
    (hdenied : ¬ ScopeGranted cfg r .management (handlerEvents es)) (p' : Route Outcome) :
  Reaches anyRouteAnswer (requireManagement cfg r p') es (.pure outcome)
  := by
  obtain ⟨result, es₁, es₂, rfl, hgate, hrest⟩ := hreaches.bind_inv
  cases result with
  | ok =>
      have hgranted := (requireScope_sat cfg r .management []).returned
        (reaches_of_ofHandler hgate) fun _ _ => trivial
      apply (hdenied _).elim
      rw [handlerEvents, List.filterMap_append]
      exact hgranted.append _
  | error refused =>
      cases hrest
      rw [List.append_nil]
      exact hgate.bind

/-- All routes treat a request alike that may not manage the queue, whatever tier it names. -/
theorem handle_refused {route route' : QueueRoute} {es : List (Event RouteOp.Answer)}
    {outcome : Outcome} (hreaches : Reaches anyRouteAnswer (route.handle unicode cfg r) es
      (.pure outcome))
    (hdenied : ¬ ScopeGranted cfg r .management (handlerEvents es)) :
  Reaches anyRouteAnswer (route'.handle unicode cfg r) es (.pure outcome)
  := by
  have hgate (route : QueueRoute) :
      ∃ p, route.handle unicode cfg r = requireManagement cfg r p := by
    cases route <;> exact ⟨_, rfl⟩
  obtain ⟨p, hp⟩ := hgate route
  obtain ⟨p', hp'⟩ := hgate route'
  rw [hp] at hreaches
  rw [hp']
  exact requireManagement_refused hreaches hdenied p'

/-- A request with a key for inference that asks to pause the tiers is answered as one that asks
to flush a tier of no name. -/
theorem sample_refused :
  ∃ es outcome, Reaches anyRouteAnswer
    ((QueueRoute.flush (some "none")).handle .ascii sampleConfig.auth sampleRequest) es
      (.pure outcome)
  := by
  have hanswer (op : RouteOp) : Nonempty op.Answer := by
    cases op with
    | handler op =>
        cases op with
        | enqueue => exact ⟨.error .zeroDivision⟩
        | await => exact ⟨.error (.dispatch ())⟩
        | _ => infer_instance
    | pause | resume | drain | flush => infer_instance
  have hadmits (op : RouteOp) : anyRouteAnswer op (hanswer op).some := trivial
  obtain ⟨es, outcome, hreaches⟩ := Program.exists_reaches hadmits
    ((QueueRoute.pause none).handle .ascii sampleConfig.auth sampleRequest)
  refine ⟨es, outcome, handle_refused hreaches ?_⟩
  rintro ⟨keyCfg, hauth, hallows⟩
  cases keyCfg with
  | none => cases hauth
  | some k =>
      obtain rfl := List.mem_singleton.mp hauth.2.1
      exact absurd (hallows _ rfl) (by decide)

end OllamaQueueProxy
