import OllamaQueueProxy.Config
import OllamaQueueProxy.Library.Semaphore
import Mathlib.Logic.Function.Basic

/-!
# The client concurrency manager

`ClientConcurrencyManager` holds a semaphore for each client with a cap.  A call of
`acquire` returns at once for a client that is unknown or has no cap, and for a request
that was deferred often enough; otherwise it takes a permit of the semaphore or waits for
one.  `release` does not ask how the call that it undoes was admitted.

Calls of `acquire` have identities of an arbitrary type `κ`.  The waiters of a semaphore are
the calls that are blocked; the `holders` of the manager are the calls that returned and
were not released yet, with the way in which they were admitted, which no operation reads.
-/

namespace OllamaQueueProxy

/-- Requests that were deferred this many times bypass the semaphore. -/
def FAIRNESS_MAX_REENTRIES : ℤ := 3

/-- The state of a client. -/
structure ClientState (κ : Type) where
  clientId : String
  /-- Zero means that the client is unlimited. -/
  cap : ℤ
  semaphore : Option (Semaphore κ)
  inflight : ℕ
  capWaiting : ℕ

namespace ClientState

variable {κ : Type}

def new (clientId : String) (cap : ℤ) : ClientState κ where
  clientId := clientId
  cap := cap
  semaphore := if 0 < cap then some (Semaphore.new cap.toNat) else none
  inflight := 0
  capWaiting := 0

def isCapped (st : ClientState κ) : Bool := 0 < st.cap

/-- A call is admitted. -/
def admitted (st : ClientState κ) : ClientState κ := { st with inflight := st.inflight + 1 }

/-- A call leaves `_semaphore.acquire`, which leaves the semaphore `sem`. -/
def leaveWait (st : ClientState κ) (sem : Semaphore κ) : ClientState κ :=
  { st with
    semaphore := some sem
    capWaiting := st.capWaiting - 1 }

/-- `acquire`, up to the point at which it returns or suspends; whether it returns. -/
def acquire (st : ClientState κ) (k : κ) : ClientState κ × Bool :=
  match st.semaphore with
  | none => (st.admitted, true)
  | some sem =>
      let entered := { st with
        semaphore := some (sem.acquire k).1
        capWaiting := st.capWaiting + 1 }
      if (sem.acquire k).2 then ((entered.leaveWait (sem.acquire k).1).admitted, true)
      else (entered, false)

/-- A call is blocked exactly when there is a semaphore and it is locked. -/
theorem acquire_blocked_iff (st : ClientState κ) (k : κ) :
  (st.acquire k).2 = false ↔ st.semaphore.any Semaphore.locked = true
  := by
  cases hsem : st.semaphore with
  | none => simp [acquire, hsem]
  | some sem => cases h : sem.locked <;> simp [acquire, hsem, Semaphore.acquire, h]

def release (st : ClientState κ) : ClientState κ :=
  { st with
    inflight := st.inflight - 1
    semaphore := st.semaphore.map Semaphore.release }

end ClientState

/-- How a call of `acquire` was admitted. -/
inductive Admission where
  /-- The client is unknown or has no cap. -/
  | unlimited
  /-- The request was deferred often enough. -/
  | bypass
  /-- A permit of the semaphore was taken. -/
  | permit
  deriving DecidableEq

/-- A call of `acquire` that returned and was not released yet. -/
structure Holder (κ : Type) where
  id : κ
  clientId : Option String
  admission : Admission
  deriving DecidableEq

structure ClientConcurrencyManager (κ : Type) where
  states : String → Option (ClientState κ)
  holders : List (Holder κ)

namespace ClientConcurrencyManager

variable {κ : Type}

/-- The state of the client of a key is added, in the place of one it had before. -/
def addKey (states : String → Option (ClientState κ)) (key : ApiKeyConfig) :
    String → Option (ClientState κ) :=
  Function.update states key.clientId (some (ClientState.new key.clientId key.maxConcurrent))

/-- The manager for the configured keys. -/
def new (keys : List ApiKeyConfig) : ClientConcurrencyManager κ where
  states := keys.foldl addKey fun _ => none
  holders := []

def getState (m : ClientConcurrencyManager κ) (clientId : Option String) :
    Option (ClientState κ) :=
  clientId.bind m.states

def setState (m : ClientConcurrencyManager κ) (clientId : Option String)
    (st : ClientState κ) : ClientConcurrencyManager κ :=
  match clientId with
  | none => m
  | some c => { m with states := Function.update m.states c (some st) }

def hold (m : ClientConcurrencyManager κ) (h : Holder κ) : ClientConcurrencyManager κ :=
  { m with holders := h :: m.holders }

/-- `acquire`, up to the point at which it returns or suspends; the holder, if it returns. -/
def acquire (m : ClientConcurrencyManager κ) (k : κ) (clientId : Option String)
    (reentries : ℤ) : ClientConcurrencyManager κ × Option (Holder κ) :=
  match m.getState clientId with
  | none => (m.hold ⟨k, clientId, .unlimited⟩, some ⟨k, clientId, .unlimited⟩)
  | some st =>
      if st.isCapped = false then
        ((m.setState clientId st.admitted).hold ⟨k, clientId, .unlimited⟩,
          some ⟨k, clientId, .unlimited⟩)
      else if FAIRNESS_MAX_REENTRIES ≤ reentries then
        ((m.setState clientId st.admitted).hold ⟨k, clientId, .bypass⟩,
          some ⟨k, clientId, .bypass⟩)
      else if (st.acquire k).2 then
        ((m.setState clientId (st.acquire k).1).hold ⟨k, clientId, .permit⟩,
          some ⟨k, clientId, .permit⟩)
      else (m.setState clientId (st.acquire k).1, none)

/-- `release`, by the task whose call of `acquire` is `h`. -/
def release [DecidableEq κ] (m : ClientConcurrencyManager κ) (h : Holder κ) :
    ClientConcurrencyManager κ :=
  match m.getState h.clientId with
  | none => { m with holders := m.holders.erase h }
  | some st => { m.setState h.clientId st.release with holders := m.holders.erase h }

def inflightCounts (m : ClientConcurrencyManager κ) (c : String) : Option ℕ :=
  (m.states c).map ClientState.inflight

def capWaitingCounts (m : ClientConcurrencyManager κ) (c : String) : Option ℕ :=
  (m.states c).map ClientState.capWaiting

/-- The client has no slot left. -/
def isAtCap (m : ClientConcurrencyManager κ) (clientId : Option String) : Bool :=
  match m.getState clientId with
  | none => false
  | some st => if st.isCapped then st.cap ≤ st.inflight else false

/-- A call of `acquire` has to wait: the client is capped, the request is not deferred often
enough, and the semaphore is locked. -/
def wouldBlock (m : ClientConcurrencyManager κ) (clientId : Option String) (reentries : ℤ) :
    Bool :=
  match m.getState clientId with
  | none => false
  | some st => st.isCapped && reentries < FAIRNESS_MAX_REENTRIES
      && st.semaphore.any Semaphore.locked

theorem acquire_eq_none_iff (m : ClientConcurrencyManager κ) (k : κ)
    (clientId : Option String) (reentries : ℤ) :
  (m.acquire k clientId reentries).2 = none ↔ m.wouldBlock clientId reentries = true
  := by
  simp only [acquire, wouldBlock]
  cases m.getState clientId with
  | none => simp
  | some st =>
      have hblocked := st.acquire_blocked_iff k
      simp only
      split_ifs with hcap hreentries htaken
      · simp [hcap]
      · simp [not_lt_of_ge hreentries]
      · simp [← hblocked, htaken]
      · rw [Bool.not_eq_true, hblocked] at htaken
        simp [htaken, not_le.mp hreentries, Bool.eq_true_of_not_eq_false hcap]

end ClientConcurrencyManager

end OllamaQueueProxy
