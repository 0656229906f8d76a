import OllamaQueueProxy.Cache.Answers
import OllamaQueueProxy.Library.Transition
import Mathlib.Logic.Function.Basic

/-!
# Runs with the embedding cache

The application as a transition system of which the cache is the shared state: requests
arrive on the ports, their handlers go on one operation after the other in any order, and
entries of the cache expire.  The upstream server answers successfully as `up` says, or it
fails; the backend of the cache may fail at any time.
-/

open Transition
open Json (Text)

namespace OllamaQueueProxy

/-- What answers the operation of a handler. -/
inductive Environment where
  /-- The backend of the cache, which may fail. -/
  | backend (ok : Bool)
  /-- The queue. -/
  | queue (result : Except EnqueueError ℕ)
  /-- The upstream server, successfully. -/
  | success (headers : Dict String String)
  /-- The upstream server with another status, or the proxy in its place. -/
  | unsuccessful (response : Response)
  /-- The future has an exception. -/
  | exception (e : FutureException Unit)
  /-- Another part of the application. -/
  | other (reply : Reply)

instance (e : EnqueueError) : Decidable e.Unsuccessful :=
  match e with
  | .queueFull _ statusCode | .queueOverCapacity _ statusCode =>
      decidable_of_iff (statusCode = 503 ∨ statusCode = 429)
        ⟨fun h => h.elim (fun h => ⟨.serviceUnavailable, h⟩) fun h => ⟨.tooManyRequests, h⟩,
          fun ⟨code, h⟩ => by cases code <;> simp [h, OverflowStatusCode.toNat]⟩
  | .queuePaused _ | .zeroDivision => .isTrue trivial

/-- The answer to an operation, when the cache has the given contents; `none` if the
operation is not answered so. -/
def answer? (up : Upstream) (stored : Text → Option Bytes) :
    (op : Op) → Environment → Option op.Answer
  | .cacheGet key _, .backend ok => some (if ok then .ok (stored key) else .error ())
  | .cacheSet _ _, .backend ok => some (if ok then .ok () else .error ())
  | .enqueue _, .queue (.ok position) => some (.ok position)
  | .enqueue _, .queue (.error e) => if e.Unsuccessful then some (.error e) else none
  | .await item, .success headers => some (.ok ⟨200, up.content item.dispatchFn, headers⟩)
  | .await _, .unsuccessful response =>
      if response.statusCode = 200 then none else some (.ok response)
  | .await _, .exception e => some (.error e)
  | .dispatch call, .success headers => some (some ⟨200, up.content call, headers⟩)
  | .dispatch _, .unsuccessful response =>
      if response.statusCode = 200 then none else some (some response)
  | .dispatch _, .exception _ => some none
  | .cacheGet _ _, .other _ | .cacheSet _ _, .other _ | .enqueue _, .other _
  | .await _, .other _ | .dispatch _, .other _ => none
  | op, .other reply => op.read? reply
  | _, _ => none

/-- The contents of the cache after an operation. -/
def contentsAfter (stored : Text → Option Bytes) : Op → Environment → Text → Option Bytes
  | .cacheSet key value, .backend true => Function.update stored key (some value)
  | _, _ => stored

/-- A request with what remains of its handler. -/
structure Exchange where
  arrival : Arrival
  rest : Handler Outcome

structure CachingProxy where
  /-- The contents of the cache. -/
  stored : Text → Option Bytes
  /-- The requests that have arrived so far. -/
  arrivals : List Arrival
  exchanges : List Exchange

inductive CachingAction where
  | arrive (a : Arrival)
  /-- The handler of a request goes on with an answer of the environment. -/
  | answer (i : ℕ) (e : Environment)
  /-- What is stored under a key expires. -/
  | expire (key : Text)

namespace CachingProxy

/-- The application after its start. -/
def initial : CachingProxy := ⟨fun _ => none, [], []⟩

variable (digest : Text → Text) (cfg : Config) (up : Upstream)

def step (s : CachingProxy) : CachingAction → Option CachingProxy
  | .arrive a => some { s with
      arrivals := s.arrivals ++ [a]
      exchanges := s.exchanges ++ [⟨a, handle digest cfg a.port a.request⟩] }
  | .answer i e => match s.exchanges[i]? with
    | some ⟨a, .call op next⟩ => (answer? up s.stored op e).map fun r => { s with
        stored := contentsAfter s.stored op e
        exchanges := s.exchanges.set i ⟨a, next r⟩ }
    | _ => none
  | .expire key => some { s with stored := Function.update s.stored key none }

abbrev Step : CachingProxy → CachingAction → CachingProxy → Prop := ofStep (step digest cfg up)

variable {digest cfg up} {s s' : CachingProxy}

theorem step_arrive {a : Arrival} (h : Step digest cfg up s (.arrive a) s') :
  s' = { s with
    arrivals := s.arrivals ++ [a]
    exchanges := s.exchanges ++ [⟨a, handle digest cfg a.port a.request⟩] }
  := (Option.some.inj h).symm

theorem step_answer {i : ℕ} {e : Environment} (h : Step digest cfg up s (.answer i e) s') :
  ∃ a op next r, s.exchanges[i]? = some ⟨a, .call op next⟩ ∧ answer? up s.stored op e = some r
    ∧ s' = { s with
      stored := contentsAfter s.stored op e
      exchanges := s.exchanges.set i ⟨a, next r⟩ }
  := by
  simp only [Step, ofStep, step] at h
  split at h
  · rename_i a op next hexchange
    obtain ⟨r, hr, rfl⟩ := Option.map_eq_some_iff.mp h
    exact ⟨a, op, next, r, hexchange, hr, rfl⟩
  · cases h

theorem step_expire {key : Text} (h : Step digest cfg up s (.expire key) s') :
  s' = { s with stored := Function.update s.stored key none }
  := (Option.some.inj h).symm

/-- The request that an action lets arrive. -/
def arrival? : CachingAction → Option Arrival
  | .arrive a => some a
  | _ => none

theorem map_arrival_step {act : CachingAction} (h : Step digest cfg up s act s') :
  s'.exchanges.map Exchange.arrival
    = s.exchanges.map Exchange.arrival ++ (arrival? act).toList
  := by
  cases act with
  | arrive a =>
      rw [step_arrive h, List.map_append]
      rfl
  | answer i e =>
      obtain ⟨a, op, next, r, hexchange, _, rfl⟩ := step_answer h
      have hsame : (s.exchanges.map Exchange.arrival)[i]? = some a := by
        rw [List.getElem?_map, hexchange]
        rfl
      obtain ⟨hlt, hget⟩ := List.getElem?_eq_some_iff.mp hsame
      simp only [arrival?, Option.toList_none, List.append_nil, List.map_set]
      conv_rhs => rw [← List.set_getElem_self hlt, hget]
  | expire key =>
      rw [step_expire h]
      exact (List.append_nil _).symm

/-- The exchanges are those of the requests that arrive, in order. -/
theorem map_arrival_run {as : List CachingAction} (h : Run (Step digest cfg up) s as s') :
  s'.exchanges.map Exchange.arrival
    = s.exchanges.map Exchange.arrival ++ as.filterMap arrival?
  := by
  induction h with
  | nil => simp
  | snoc _ hstep ih =>
      rw [map_arrival_step hstep, ih, List.filterMap_append, List.append_assoc]
      congr 2

end CachingProxy

/-- The environment answers as the upstream server does. -/
theorem upstreamAnswers_of_answer? {up : Upstream} {stored : Text → Option Bytes} {op : Op}
    {e : Environment} {r : op.Answer} (h : answer? up stored op e = some r) :
  UpstreamAnswers up op r
  := by
  cases op with
  | enqueue item =>
      cases r with
      | ok position => trivial
      | error refused =>
          cases e with
          | queue result =>
              cases result with
              | ok position => cases h
              | error refused' =>
                  simp only [answer?] at h
                  split_ifs at h with hunsuccessful
                  obtain rfl := Except.error.inj (Option.some.inj h)
                  exact hunsuccessful
          | _ => cases h
  | await item =>
      cases r with
      | error failed => trivial
      | ok response =>
          intro hsuccess
          cases e with
          | success headers =>
              obtain rfl := Except.ok.inj (Option.some.inj h)
              rfl
          | unsuccessful response' =>
              simp only [answer?] at h
              split_ifs at h with hfailed
              obtain rfl := Except.ok.inj (Option.some.inj h)
              cases hfailed hsuccess
          | _ => cases h
  | dispatch call =>
      cases r with
      | none => trivial
      | some response =>
          intro hsuccess
          cases e with
          | success headers =>
              obtain rfl := Option.some.inj (Option.some.inj h)
              rfl
          | unsuccessful response' =>
              simp only [answer?] at h
              split_ifs at h with hfailed
              obtain rfl := Option.some.inj (Option.some.inj h)
              cases hfailed hsuccess
          | _ => cases h
  | _ => trivial

/-- The cache answers with what is stored under the key. -/
theorem stored_of_answer? {up : Upstream} {stored : Text → Option Bytes} {key : Text}
    {clientId : Option String} {e : Environment} {b : Bytes}
    (h : answer? up stored (.cacheGet key clientId) e = some (.ok (some b))) :
  stored key = some b
  := by
  cases e with
  | backend ok =>
      have hsame : (if ok then .ok (stored key) else .error ()) = Except.ok (some b) :=
        Option.some.inj h
      split_ifs at hsame
      exact Except.ok.inj hsame
  | _ => cases h

/-- The contents of the cache change only at the key of what is stored. -/
theorem contentsAfter_eq (stored : Text → Option Bytes) (op : Op) (e : Environment) :
  contentsAfter stored op e = stored ∨ ∃ key value, op = .cacheSet key value
    ∧ contentsAfter stored op e = Function.update stored key (some value)
  := by
  unfold contentsAfter
  split
  · exact .inr ⟨_, _, rfl, rfl⟩
  · exact .inl rfl

end OllamaQueueProxy
