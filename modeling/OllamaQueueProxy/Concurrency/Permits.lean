import OllamaQueueProxy.Concurrency.Manager
import OllamaQueueProxy.Library.Transition

/-!
# Permits

The runs of a concurrency manager under matched calls of `acquire` and `release`, with
blocked calls possibly cancelled.  A permit is free, handed to a blocked call that has not
run yet, or taken by a holder; but a call that was admitted by the fairness bypass took none,
and its release adds one.  In all states of a run the permits of every capped client add up
to its cap exactly when no such call is released (`always_permitsAddUp_iff`).
-/

open Transition

namespace OllamaQueueProxy

/-- The actions on a manager. -/
inductive ConcurrencyAction (κ : Type) where
  | acquire (k : κ) (clientId : Option String) (reentries : ℤ)
  /-- A blocked call that was handed a permit runs, and returns. -/
  | resume (c : String) (k : κ)
  /-- A blocked call is cancelled. -/
  | cancel (c : String) (k : κ)
  /-- `CancelledError` leaves a call that was cancelled while it waited. -/
  | unwind (c : String) (k : κ)
  /-- `CancelledError` leaves a call that had been handed a permit. -/
  | revoke (c : String) (k : κ)
  /-- The task of a call that returned calls `release`. -/
  | release (h : Holder κ)

namespace ClientConcurrencyManager

variable {κ : Type} [DecidableEq κ]

/-- The state and the semaphore of client `c`, if `w` is one of its waiters. -/
def waiting (m : ClientConcurrencyManager κ) (c : String) (w : κ × WaiterState) :
    Option (ClientState κ × Semaphore κ) :=
  (m.states c).bind fun st => st.semaphore.bind fun sem =>
    if w ∈ sem.waiters then some (st, sem) else none

/-- The state after an action; `none` if the action is not possible. -/
def step (m : ClientConcurrencyManager κ) :
    ConcurrencyAction κ → Option (ClientConcurrencyManager κ)
  | .acquire k clientId reentries => some (m.acquire k clientId reentries).1
  | .resume c k => (m.waiting c (k, .granted)).map fun (st, sem) =>
      (m.setState c (st.leaveWait (sem.resume k)).admitted).hold ⟨k, c, .permit⟩
  | .cancel c k => (m.waiting c (k, .pending)).map fun (st, sem) =>
      m.setState c { st with semaphore := sem.cancel k }
  | .unwind c k => (m.waiting c (k, .cancelled)).map fun (st, sem) =>
      m.setState c (st.leaveWait (sem.leave k))
  | .revoke c k => (m.waiting c (k, .granted)).map fun (st, sem) =>
      m.setState c (st.leaveWait (sem.giveBack k))
  | .release h => if h ∈ m.holders then some (m.release h) else none

/-- The transitions of a manager. -/
abbrev Step :
    ClientConcurrencyManager κ → ConcurrencyAction κ → ClientConcurrencyManager κ → Prop :=
  ofStep step

/-! ### Effects -/

/-- What an action can do to a manager. -/
inductive Effect : ConcurrencyAction κ → ClientConcurrencyManager κ →
    ClientConcurrencyManager κ → Prop where
  /-- A client without a state is admitted. -/
  | pass {m : ClientConcurrencyManager κ} {k : κ} {clientId : Option String} {reentries : ℤ}
      (hclient : ∀ c, clientId = some c → m.states c = none) :
      Effect (.acquire k clientId reentries) m (m.hold ⟨k, clientId, .unlimited⟩)
  | unlimited {m : ClientConcurrencyManager κ} {k : κ} {c : String} {reentries : ℤ}
      {st : ClientState κ} (hst : m.states c = some st) (hcap : st.cap ≤ 0) :
      Effect (.acquire k c reentries) m
        ((m.setState c st.admitted).hold ⟨k, c, .unlimited⟩)
  | bypass {m : ClientConcurrencyManager κ} {k : κ} {c : String} {reentries : ℤ}
      {st : ClientState κ} (hst : m.states c = some st) (hcap : 0 < st.cap)
      (hreentries : FAIRNESS_MAX_REENTRIES ≤ reentries) :
      Effect (.acquire k c reentries) m ((m.setState c st.admitted).hold ⟨k, c, .bypass⟩)
  | take {m : ClientConcurrencyManager κ} {k : κ} {c : String} {reentries : ℤ}
      {st : ClientState κ} (hst : m.states c = some st) (htaken : (st.acquire k).2 = true) :
      Effect (.acquire k c reentries) m
        ((m.setState c (st.acquire k).1).hold ⟨k, c, .permit⟩)
  | block {m : ClientConcurrencyManager κ} {k : κ} {c : String} {reentries : ℤ}
      {st : ClientState κ} (hst : m.states c = some st) (hblocked : (st.acquire k).2 = false) :
      Effect (.acquire k c reentries) m (m.setState c (st.acquire k).1)
  | resume {m : ClientConcurrencyManager κ} {k : κ} {c : String} {st : ClientState κ}
      {sem : Semaphore κ} (hst : m.states c = some st) (hsem : st.semaphore = some sem)
      (hk : (k, .granted) ∈ sem.waiters) :
      Effect (.resume c k) m
        ((m.setState c (st.leaveWait (sem.resume k)).admitted).hold ⟨k, c, .permit⟩)
  | cancel {m : ClientConcurrencyManager κ} {k : κ} {c : String} {st : ClientState κ}
      {sem : Semaphore κ} (hst : m.states c = some st) (hsem : st.semaphore = some sem) :
      Effect (.cancel c k) m (m.setState c { st with semaphore := sem.cancel k })
  | unwind {m : ClientConcurrencyManager κ} {k : κ} {c : String} {st : ClientState κ}
      {sem : Semaphore κ} (hst : m.states c = some st) (hsem : st.semaphore = some sem)
      (hk : (k, .cancelled) ∈ sem.waiters) :
      Effect (.unwind c k) m (m.setState c (st.leaveWait (sem.leave k)))
  | revoke {m : ClientConcurrencyManager κ} {k : κ} {c : String} {st : ClientState κ}
      {sem : Semaphore κ} (hst : m.states c = some st) (hsem : st.semaphore = some sem)
      (hk : (k, .granted) ∈ sem.waiters) :
      Effect (.revoke c k) m (m.setState c (st.leaveWait (sem.giveBack k)))
  /-- A client without a state is released. -/
  | leave {m : ClientConcurrencyManager κ} {h : Holder κ} (hmem : h ∈ m.holders)
      (hclient : ∀ c, h.clientId = some c → m.states c = none) :
      Effect (.release h) m { m with holders := m.holders.erase h }
  | release {m : ClientConcurrencyManager κ} {h : Holder κ} {c : String} {st : ClientState κ}
      (hmem : h ∈ m.holders) (hc : h.clientId = some c) (hst : m.states c = some st) :
      Effect (.release h) m { m.setState c st.release with holders := m.holders.erase h }

omit [DecidableEq κ] in
theorem getState_eq_none {m : ClientConcurrencyManager κ} {clientId : Option String}
    (h : m.getState clientId = none) :
  ∀ c, clientId = some c → m.states c = none
  := by
  rintro c rfl
  apply h

omit [DecidableEq κ] in
theorem getState_eq_some {m : ClientConcurrencyManager κ} {clientId : Option String}
    {st : ClientState κ} (h : m.getState clientId = some st) :
  ∃ c, clientId = some c ∧ m.states c = some st
  := Option.bind_eq_some_iff.mp h

theorem waiting_eq_some {m : ClientConcurrencyManager κ} {c : String}
    {w : κ × WaiterState} {st : ClientState κ} {sem : Semaphore κ}
    (h : m.waiting c w = some (st, sem)) :
  m.states c = some st ∧ st.semaphore = some sem ∧ w ∈ sem.waiters
  := by
  obtain ⟨st', hst, h⟩ := Option.bind_eq_some_iff.mp h
  obtain ⟨sem', hsem, h⟩ := Option.bind_eq_some_iff.mp h
  split_ifs at h with hw
  obtain ⟨rfl, rfl⟩ : st' = st ∧ sem' = sem := by simpa using h
  use hst, hsem, hw

theorem Effect.acquire (m : ClientConcurrencyManager κ) (k : κ) (clientId : Option String)
    (reentries : ℤ) :
  Effect (.acquire k clientId reentries) m (m.acquire k clientId reentries).1
  := by
  simp only [ClientConcurrencyManager.acquire]
  split
  · rename_i hnone
    apply Effect.pass (getState_eq_none hnone)
  · rename_i st hsome
    obtain ⟨c, rfl, hst⟩ := getState_eq_some hsome
    split_ifs with hcap hreentries htaken
    · apply Effect.unlimited hst
      simpa [ClientState.isCapped] using hcap
    · apply Effect.bypass hst _ hreentries
      simpa [ClientState.isCapped] using hcap
    · apply Effect.take hst htaken
    · apply Effect.block hst
      simpa using htaken

/-- Every step is an effect of its action. -/
theorem Step.effect {m m' : ClientConcurrencyManager κ} {a : ConcurrencyAction κ}
    (h : Step m a m') :
  Effect a m m'
  := by
  cases a with
  | acquire k clientId reentries =>
      obtain rfl := Option.some.inj h
      apply Effect.acquire
  | resume c k =>
      obtain ⟨⟨st, sem⟩, hwaiting, rfl⟩ := Option.map_eq_some_iff.mp h
      obtain ⟨hst, hsem, hk⟩ := waiting_eq_some hwaiting
      apply Effect.resume hst hsem hk
  | cancel c k =>
      obtain ⟨⟨st, sem⟩, hwaiting, rfl⟩ := Option.map_eq_some_iff.mp h
      obtain ⟨hst, hsem, -⟩ := waiting_eq_some hwaiting
      apply Effect.cancel hst hsem
  | unwind c k =>
      obtain ⟨⟨st, sem⟩, hwaiting, rfl⟩ := Option.map_eq_some_iff.mp h
      obtain ⟨hst, hsem, hk⟩ := waiting_eq_some hwaiting
      apply Effect.unwind hst hsem hk
  | revoke c k =>
      obtain ⟨⟨st, sem⟩, hwaiting, rfl⟩ := Option.map_eq_some_iff.mp h
      obtain ⟨hst, hsem, hk⟩ := waiting_eq_some hwaiting
      apply Effect.revoke hst hsem hk
  | release i =>
      simp only [Step, ofStep, step] at h
      split_ifs at h with hmem
      obtain rfl := Option.some.inj h
      simp only [ClientConcurrencyManager.release]
      split
      · rename_i hnone
        apply Effect.leave hmem (getState_eq_none hnone)
      · rename_i st hsome
        obtain ⟨c, hc, hst⟩ := getState_eq_some hsome
        rw [hc]
        apply Effect.release hmem hc hst

/-! ### Holders -/

omit [DecidableEq κ]

/-- The number of the holders of client `c` whose admission satisfies `p`. -/
def countHolders (hs : List (Holder κ)) (c : String) (p : Admission → Bool) : ℕ :=
  hs.countP fun h => h.clientId == some c && p h.admission

/-- The permits of a client with the state `st` add up to its cap, and its counters count
its holders and its blocked calls, when the holders are `hs`. -/
structure ClientAddsUp (st : ClientState κ) (hs : List (Holder κ)) (c : String) : Prop where
  permits : ∃ sem, st.semaphore = some sem
    ∧ (sem.credit + countHolders hs c (· == .permit) : ℤ) = st.cap
    ∧ st.capWaiting = sem.waiters.length
  capped : countHolders hs c (· != .bypass) ≤ st.cap
  inflight : st.inflight = countHolders hs c fun _ => true

/-- The permits of every capped client add up to its cap. -/
def PermitsAddUp (m : ClientConcurrencyManager κ) : Prop :=
  ∀ c st, m.states c = some st → 0 < st.cap → ClientAddsUp st m.holders c

/-- No holder that was admitted by the fairness bypass is released. -/
def ReleasesNoBypass (_ : ClientConcurrencyManager κ) : ConcurrencyAction κ → Prop
  | .release h => h.admission ≠ .bypass
  | _ => True

variable {m m' : ClientConcurrencyManager κ}

theorem countHolders_cons (h : Holder κ) (hs : List (Holder κ)) (c : String)
    (p : Admission → Bool) :
  countHolders (h :: hs) c p
    = countHolders hs c p + if h.clientId == some c && p h.admission then 1 else 0
  := by
  rw [countHolders, List.countP_cons]
  rfl

theorem countHolders_erase [DecidableEq κ] {h : Holder κ} {hs : List (Holder κ)}
    (hmem : h ∈ hs) (c : String) (p : Admission → Bool) :
  countHolders hs c p
    = countHolders (hs.erase h) c p + if h.clientId == some c && p h.admission then 1 else 0
  := by
  rw [← countHolders_cons]
  apply (List.perm_cons_erase hmem).countP_eq

/-- The holders of a capped client took a permit or bypassed the semaphore, and only they
did. -/
structure Consistent (m : ClientConcurrencyManager κ) : Prop where
  limited : ∀ c st, m.states c = some st → 0 < st.cap →
    ∀ h ∈ m.holders, h.clientId = some c → h.admission ≠ .unlimited
  bypass : ∀ h ∈ m.holders, h.admission = .bypass →
    ∃ c st, h.clientId = some c ∧ m.states c = some st ∧ 0 < st.cap

/-- Without unlimited holders, those that did not bypass the semaphore took a permit. -/
theorem countHolders_ne_bypass {hs : List (Holder κ)} {c : String}
    (h : ∀ h ∈ hs, h.clientId = some c → h.admission ≠ .unlimited) :
  countHolders hs c (· != .bypass) = countHolders hs c (· == .permit)
  := by
  apply List.countP_congr
  intro i hi
  have hne := h i hi
  cases hadmission : i.admission <;> simp_all

/-- A change of a client that keeps its permits, its holders and its blocked calls in step
with its counters. -/
theorem ClientAddsUp.change {st st' : ClientState κ} {hs hs' : List (Holder κ)} {c : String}
    {sem sem' : Semaphore κ} (h : ClientAddsUp st hs c) (hsem : st.semaphore = some sem)
    (hsem' : st'.semaphore = some sem') (hcap : st'.cap = st.cap)
    (hlimited : ∀ h ∈ hs', h.clientId = some c → h.admission ≠ .unlimited)
    (hcredit : sem'.credit + countHolders hs' c (· == .permit)
      = sem.credit + countHolders hs c (· == .permit))
    (hwaiting : st'.capWaiting + sem.waiters.length = st.capWaiting + sem'.waiters.length)
    (hinflight : st'.inflight + countHolders hs c (fun _ => true)
      = st.inflight + countHolders hs' c fun _ => true) :
  ClientAddsUp st' hs' c
  := by
  obtain ⟨sem₀, hsem₀, hpermits, hlength⟩ := h.permits
  obtain rfl : sem = sem₀ := Option.some.inj (hsem.symm.trans hsem₀)
  have hpermits' : (sem'.credit + countHolders hs' c (· == .permit) : ℤ) = st'.cap := by
    omega
  constructor
  · use sem', hsem', hpermits'
    omega
  · rw [countHolders_ne_bypass hlimited]
    omega
  · have hbefore := h.inflight
    omega

/-- Every client of `m'` either is as it was in `m` or adds up. -/
theorem PermitsAddUp.congr (h : PermitsAddUp m)
    (hclient : ∀ c st, m'.states c = some st → 0 < st.cap →
      (m.states c = some st ∧ ∀ p, countHolders m'.holders c p = countHolders m.holders c p)
        ∨ ClientAddsUp st m'.holders c) :
  PermitsAddUp m'
  := by
  intro c st hst hcap
  rcases hclient c st hst hcap with ⟨hst', hcount⟩ | hc
  · obtain ⟨hpermits, hcapped, hinflight⟩ := h c st hst' hcap
    constructor
    · simpa only [hcount] using hpermits
    · simpa only [hcount] using hcapped
    · simpa only [hcount] using hinflight
  · apply hc

/-- A change of client `c` alone. -/
theorem PermitsAddUp.client (h : PermitsAddUp m) {c : String} {st : ClientState κ}
    (hstates : m'.states = Function.update m.states c (some st))
    (hothers : ∀ c', c' ≠ c → ∀ p, countHolders m'.holders c' p = countHolders m.holders c' p)
    (hc : 0 < st.cap → ClientAddsUp st m'.holders c) :
  PermitsAddUp m'
  := by
  apply h.congr
  intro c' st' hst' hcap
  rw [hstates] at hst'
  by_cases hne : c' = c
  · subst hne
    obtain rfl : st = st' := by simpa using hst'
    right
    apply hc hcap
  · left
    rw [Function.update_of_ne hne] at hst'
    use hst', hothers c' hne

/-! ### Steps -/

@[simp]
theorem setState_some (m : ClientConcurrencyManager κ) (c : String) (st : ClientState κ) :
  m.setState (some c) st = { m with states := Function.update m.states c (some st) }
  := rfl

/-- A change of client `c` alone that keeps its cap. -/
theorem Consistent.client {c : String} {st st' : ClientState κ} (h : Consistent m)
    (hst : m.states c = some st) (hstates : m'.states = Function.update m.states c (some st'))
    (hcap : st'.cap = st.cap)
    (hholders : ∀ h ∈ m'.holders, h ∈ m.holders
      ∨ h.clientId = some c ∧ (0 < st.cap → h.admission ≠ .unlimited)
        ∧ (h.admission = .bypass → 0 < st.cap)) :
  Consistent m'
  := by
  constructor
  · intro c' st₂ hst₂ hpos i hi hc'
    rw [hstates] at hst₂
    by_cases hne : c' = c
    · subst hne
      obtain rfl : st' = st₂ := by simpa using hst₂
      rw [hcap] at hpos
      rcases hholders i hi with hi | ⟨-, hi, -⟩
      · apply h.limited c' st hst hpos i hi hc'
      · apply hi hpos
    · rw [Function.update_of_ne hne] at hst₂
      rcases hholders i hi with hi | ⟨hc, -⟩
      · apply h.limited c' st₂ hst₂ hpos i hi hc'
      · rw [hc] at hc'
        cases hne (Option.some.inj hc'.symm)
  · intro i hi hbypass
    obtain ⟨c', st₂, hc', hst₂, hpos⟩ :
        ∃ c' st₂, i.clientId = some c' ∧ m.states c' = some st₂ ∧ 0 < st₂.cap := by
      rcases hholders i hi with hi | ⟨hc, -, hpos⟩
      · apply h.bypass i hi hbypass
      · use c, st, hc, hst
        apply hpos hbypass
    rw [hstates]
    by_cases hne : c' = c
    · subst hne
      obtain rfl : st = st₂ := Option.some.inj (hst.symm.trans hst₂)
      use c', st', hc', Function.update_self _ _ _
      rwa [hcap]
    · use c', st₂, hc'
      rw [Function.update_of_ne hne]
      use hst₂

/-- A call of client `c` is admitted, and the cap of the client is kept. -/
theorem Consistent.hold {c : String} {st st' : ClientState κ} {k : κ} {admission : Admission}
    (h : Consistent m) (hst : m.states c = some st) (hcap : st'.cap = st.cap)
    (hunlimited : 0 < st.cap → admission ≠ .unlimited)
    (hbypass : admission = .bypass → 0 < st.cap) :
  Consistent ((m.setState c st').hold ⟨k, c, admission⟩)
  := by
  refine h.client hst rfl hcap ?_
  intro i hi
  rcases List.mem_cons.mp hi with rfl | hi
  · right
    use rfl, hunlimited
  · left
    apply hi

theorem countHolders_cons_of_ne {c c' : String} (hne : c' ≠ c) (k : κ) (admission : Admission)
    (hs : List (Holder κ)) (p : Admission → Bool) :
  countHolders (⟨k, c, admission⟩ :: hs) c' p = countHolders hs c' p
  := by
  rw [countHolders_cons]
  simp [hne.symm]

theorem countHolders_cons_self (c : String) (k : κ) (admission : Admission)
    (hs : List (Holder κ)) (p : Admission → Bool) :
  countHolders (⟨k, c, admission⟩ :: hs) c p
    = countHolders hs c p + if p admission then 1 else 0
  := by
  rw [countHolders_cons]
  simp

/-- A call that is admitted at once takes a permit of the semaphore, if there is one. -/
theorem acquire_taken {st : ClientState κ} {k : κ} (htaken : (st.acquire k).2 = true) :
  (st.acquire k).1.cap = st.cap ∧ (st.acquire k).1.inflight = st.inflight + 1
    ∧ (st.acquire k).1.capWaiting = st.capWaiting
    ∧ ∀ sem, st.semaphore = some sem → ∃ sem', (st.acquire k).1.semaphore = some sem'
      ∧ sem'.credit + 1 = sem.credit ∧ sem'.waiters.length = sem.waiters.length
  := by
  cases hsem : st.semaphore with
  | none => simp [ClientState.acquire, hsem, ClientState.admitted]
  | some sem =>
      simp only [ClientState.acquire, hsem] at htaken ⊢
      cases hlocked : sem.locked with
      | true =>
          obtain ⟨hblocked, -⟩ := Semaphore.acquire_of_locked (k := k) hlocked
          simp [hblocked] at htaken
      | false =>
          obtain ⟨hfree, hcredit, hlength⟩ :=
            Semaphore.acquire_of_not_locked (k := k) hlocked
          rw [if_pos hfree]
          refine ⟨rfl, rfl, Nat.add_sub_cancel _ 1, ?_⟩
          intro sem₀ hsem₀
          obtain rfl := Option.some.inj hsem₀
          use (sem.acquire k).1, rfl, hcredit

/-- A call that is blocked joins the waiters of the semaphore. -/
theorem acquire_blocked {st : ClientState κ} {k : κ} (hblocked : (st.acquire k).2 = false) :
  ∃ sem sem', st.semaphore = some sem
    ∧ st.acquire k
      = ({ st with semaphore := some sem', capWaiting := st.capWaiting + 1 }, false)
    ∧ sem'.credit = sem.credit ∧ sem'.waiters.length = sem.waiters.length + 1
  := by
  cases hsem : st.semaphore with
  | none => simp [ClientState.acquire, hsem] at hblocked
  | some sem =>
      simp only [ClientState.acquire, hsem] at hblocked ⊢
      cases hlocked : sem.locked with
      | true =>
          obtain ⟨hwaits, hcredit, hlength⟩ := Semaphore.acquire_of_locked (k := k) hlocked
          use sem, (sem.acquire k).1, rfl
          rw [if_neg (by simp [hwaits])]
          use rfl, hcredit
      | false =>
          obtain ⟨hfree, -⟩ := Semaphore.acquire_of_not_locked (k := k) hlocked
          simp [hfree] at hblocked

variable {a : ConcurrencyAction κ}

section

variable [DecidableEq κ]

theorem Consistent.effect (h : Consistent m) (heffect : Effect a m m') :
  Consistent m'
  := by
  cases heffect with
  | pass hclient =>
      constructor
      · intro c st hst hcap i hi hc
        rcases List.mem_cons.mp hi with rfl | hi
        · rw [ClientConcurrencyManager.hold, hclient c hc] at hst
          cases hst
        · apply h.limited c st hst hcap i hi hc
      · intro i hi hbypass
        rcases List.mem_cons.mp hi with rfl | hi
        · cases hbypass
        · apply h.bypass i hi hbypass
  | unlimited hst hcap =>
      refine h.hold hst rfl ?_ (by simp)
      intro hpos
      cases not_lt_of_ge hcap hpos
  | bypass hst hcap =>
      refine h.hold hst rfl (by simp) ?_
      intro _
      apply hcap
  | take hst htaken =>
      refine h.hold hst (acquire_taken htaken).1 ?_ ?_
      · simp
      · simp
  | block hst hblocked =>
      obtain ⟨sem, sem', -, hacquire, -⟩ := acquire_blocked hblocked
      rw [hacquire]
      refine h.client hst rfl rfl ?_
      intro i hi
      left
      apply hi
  | resume hst =>
      refine h.hold hst rfl ?_ ?_
      · simp
      · simp
  | cancel hst | unwind hst | revoke hst =>
      refine h.client hst rfl rfl ?_
      intro i hi
      left
      apply hi
  | leave hmem hclient =>
      constructor
      · intro c st hst hcap i hi hc
        apply h.limited c st hst hcap i (List.mem_of_mem_erase hi) hc
      · intro i hi hbypass
        apply h.bypass i (List.mem_of_mem_erase hi) hbypass
  | release hmem hc hst =>
      refine h.client hst rfl rfl ?_
      intro i hi
      left
      apply List.mem_of_mem_erase hi

omit [DecidableEq κ] in
/-- A blocked call leaves the waiters and is no longer counted as waiting. -/
theorem leaveWait_length {st : ClientState κ} {sem sem' : Semaphore κ}
    (hblocked : st.capWaiting = sem.waiters.length)
    (hlength : sem'.waiters.length + 1 = sem.waiters.length) :
  (st.leaveWait sem').capWaiting + sem.waiters.length
    = st.capWaiting + sem'.waiters.length
  := by
  simp only [ClientState.leaveWait]
  omega

omit [DecidableEq κ] in
/-- A change of client `c` alone that keeps its permits, its holders and its blocked calls in
step with its counters. -/
theorem PermitsAddUp.adjust {c : String} {st st' : ClientState κ} (h : PermitsAddUp m)
    (hlimited : Consistent m') (hst : m.states c = some st)
    (hstates : m'.states = Function.update m.states c (some st')) (hcap : st'.cap = st.cap)
    (hothers : ∀ c', c' ≠ c → ∀ p, countHolders m'.holders c' p = countHolders m.holders c' p)
    (hsem : ∀ sem, st.semaphore = some sem → st.capWaiting = sem.waiters.length →
      ∃ sem', st'.semaphore = some sem'
      ∧ sem'.credit + countHolders m'.holders c (· == .permit)
        = sem.credit + countHolders m.holders c (· == .permit)
      ∧ st'.capWaiting + sem.waiters.length = st.capWaiting + sem'.waiters.length)
    (hinflight : st'.inflight + countHolders m.holders c (fun _ => true)
      = st.inflight + countHolders m'.holders c fun _ => true) :
  PermitsAddUp m'
  := by
  apply h.client hstates hothers
  intro hpos
  have hc := h c st hst (by omega)
  obtain ⟨sem, hsome, -, hblocked⟩ := hc.permits
  obtain ⟨sem', hsome', hcredit, hwaiting⟩ := hsem sem hsome hblocked
  refine hc.change hsome hsome' hcap ?_ hcredit hwaiting hinflight
  apply hlimited.limited c st' _ hpos
  rw [hstates, Function.update_self]

omit [DecidableEq κ] in
/-- A change by which a call of client `c` is admitted. -/
theorem PermitsAddUp.hold {c : String} {st st' : ClientState κ} {k : κ}
    {admission : Admission} (h : PermitsAddUp m) (hlimited : Consistent m')
    (hst : m.states c = some st) (hstates : m'.states = Function.update m.states c (some st'))
    (hholders : m'.holders = ⟨k, c, admission⟩ :: m.holders) (hcap : st'.cap = st.cap)
    (hinflight : st'.inflight = st.inflight + 1)
    (hsem : ∀ sem, st.semaphore = some sem → st.capWaiting = sem.waiters.length →
      ∃ sem', st'.semaphore = some sem'
      ∧ sem'.credit + (if admission == .permit then 1 else 0) = sem.credit
      ∧ st'.capWaiting + sem.waiters.length = st.capWaiting + sem'.waiters.length) :
  PermitsAddUp m'
  := by
  refine h.adjust hlimited hst hstates hcap ?_ ?_ ?_
  · intro c' hne p
    rw [hholders, countHolders_cons_of_ne hne]
  · intro sem hsome hblocked
    obtain ⟨sem', hsome', hcredit, hwaiting⟩ := hsem sem hsome hblocked
    use sem', hsome'
    rw [hholders, countHolders_cons_self]
    omega
  · rw [hholders, countHolders_cons_self, hinflight, if_pos rfl]
    omega

omit [DecidableEq κ] in
/-- A change by which the blocked calls of client `c` change, but not its holders. -/
theorem PermitsAddUp.keep {c : String} {st st' : ClientState κ} (h : PermitsAddUp m)
    (hlimited : Consistent m') (hst : m.states c = some st)
    (hstates : m'.states = Function.update m.states c (some st'))
    (hholders : m'.holders = m.holders) (hcap : st'.cap = st.cap)
    (hinflight : st'.inflight = st.inflight)
    (hsem : ∀ sem, st.semaphore = some sem → st.capWaiting = sem.waiters.length →
      ∃ sem', st'.semaphore = some sem'
      ∧ sem'.credit = sem.credit
      ∧ st'.capWaiting + sem.waiters.length = st.capWaiting + sem'.waiters.length) :
  PermitsAddUp m'
  := by
  refine h.adjust hlimited hst hstates hcap ?_ ?_ ?_
  · intro c' _ p
    rw [hholders]
  · intro sem hsome hblocked
    obtain ⟨sem', hsome', hcredit, hwaiting⟩ := hsem sem hsome hblocked
    use sem', hsome'
    rw [hholders, hcredit]
    use rfl
  · rw [hholders, hinflight]

omit [DecidableEq κ] in
/-- A blocked call of client `c` leaves without having been admitted. -/
theorem PermitsAddUp.leaveWait {c : String} {st : ClientState κ} {sem sem' : Semaphore κ}
    (h : PermitsAddUp m) (hlimited : Consistent (m.setState c (st.leaveWait sem')))
    (hst : m.states c = some st) (hsem : st.semaphore = some sem)
    (hcredit : sem'.credit = sem.credit)
    (hlength : sem'.waiters.length + 1 = sem.waiters.length) :
  PermitsAddUp (m.setState c (st.leaveWait sem'))
  := by
  refine h.keep hlimited hst rfl rfl rfl rfl ?_
  intro sem₀ hsem₀ hblocked
  obtain rfl : sem = sem₀ := Option.some.inj (hsem.symm.trans hsem₀)
  use sem', rfl, hcredit
  apply leaveWait_length hblocked hlength

/-- The holder of a permit of client `c` gives it back. -/
theorem PermitsAddUp.release {c : String} {st : ClientState κ} {i : Holder κ}
    (h : PermitsAddUp m)
    (hlimited : Consistent { m.setState c st.release with holders := m.holders.erase i })
    (hst : m.states c = some st) (hmem : i ∈ m.holders) (hc : i.clientId = some c)
    (hpermit : st.cap > 0 → i.admission = .permit) :
  PermitsAddUp { m.setState c st.release with holders := m.holders.erase i }
  := by
  have hothers : ∀ c', c' ≠ c → ∀ p,
      countHolders (m.holders.erase i) c' p = countHolders m.holders c' p := by
    intro c' hne p
    rw [countHolders_erase hmem]
    simp [hc, hne.symm]
  have hself (p : Admission → Bool) : countHolders m.holders c p
      = countHolders (m.holders.erase i) c p + if p i.admission then 1 else 0 := by
    rw [countHolders_erase hmem]
    simp [hc]
  have hstates : _ = Function.update m.states c (some st.release) := rfl
  refine h.client hstates hothers ?_
  intro hcap
  have hadds := h c st hst hcap
  obtain ⟨sem, hsem, -, hblocked⟩ := hadds.permits
  obtain ⟨hcredit, hlength⟩ := Semaphore.credit_release sem
  have hsem' : st.release.semaphore = some sem.release := by simp [ClientState.release, hsem]
  refine hadds.change hsem hsem' rfl ?_ ?_ ?_ ?_
  · apply hlimited.limited c st.release _ hcap
    simp
  · have hpermits := hself (· == .permit)
    rw [hpermit hcap, if_pos (beq_self_eq_true _)] at hpermits
    rw [hcredit, hpermits]
    dsimp only
    omega
  · rw [hlength]
    rfl
  · have hall := hself fun _ => true
    rw [if_pos rfl] at hall
    have hinflight := hadds.inflight
    simp only [ClientState.release]
    omega

omit [DecidableEq κ] in
/-- A change of the holders that are of a client without a state, or of none. -/
theorem PermitsAddUp.stateless {clientId : Option String} (h : PermitsAddUp m)
    (hclient : ∀ c, clientId = some c → m.states c = none) (hstates : m'.states = m.states)
    (hothers : ∀ c, clientId ≠ some c → ∀ p,
      countHolders m'.holders c p = countHolders m.holders c p) :
  PermitsAddUp m'
  := by
  apply h.congr
  intro c st hst _
  rw [hstates] at hst
  left
  use hst
  apply hothers c
  intro hc
  rw [hclient c hc] at hst
  cases hst

/-- An effect keeps the permits in step, unless it releases a holder that bypassed the
semaphore. -/
theorem PermitsAddUp.effect (hconsistent : Consistent m) (h : PermitsAddUp m)
    (hok : ReleasesNoBypass m a) (heffect : Effect a m m') :
  PermitsAddUp m'
  := by
  have hlimited := hconsistent.effect heffect
  cases heffect with
  | @pass _ k clientId _ hclient =>
      refine h.stateless hclient rfl ?_
      intro c hne p
      rw [ClientConcurrencyManager.hold, countHolders_cons]
      simp [hne]
  | @unlimited _ k c _ st hst hcap =>
      have hstates : _ = Function.update m.states c (some st.admitted) := rfl
      refine h.client hstates
        (fun c' hne => countHolders_cons_of_ne hne _ _ _) ?_
      intro hpos
      cases not_lt_of_ge hcap hpos
  | bypass hst =>
      refine h.hold hlimited hst rfl rfl rfl rfl ?_
      intro sem hsem _
      use sem, hsem, rfl
      rfl
  | @take _ k c _ st hst htaken =>
      obtain ⟨hcap, hinflight, hwaiting, hacquired⟩ := acquire_taken htaken
      refine h.hold hlimited hst rfl rfl hcap hinflight ?_
      intro sem hsem _
      obtain ⟨sem', hsem', hcredit, hlength⟩ := hacquired sem hsem
      use sem', hsem', hcredit
      rw [hwaiting, hlength]
  | block hst hblocked =>
      obtain ⟨sem, sem', hsem, hacquire, hcredit, hlength⟩ := acquire_blocked hblocked
      rw [hacquire] at hlimited ⊢
      refine h.keep hlimited hst rfl rfl rfl rfl ?_
      intro sem₀ hsem₀ _
      obtain rfl : sem = sem₀ := Option.some.inj (hsem.symm.trans hsem₀)
      use sem', rfl, hcredit
      dsimp only
      omega
  | @resume _ k c st sem hst hsem hk =>
      obtain ⟨hcredit, hlength⟩ := Semaphore.credit_resume hk
      refine h.hold hlimited hst rfl rfl rfl rfl ?_
      intro sem₀ hsem₀ hblocked
      obtain rfl : sem = sem₀ := Option.some.inj (hsem.symm.trans hsem₀)
      use sem.resume k, rfl, hcredit
      apply leaveWait_length hblocked hlength
  | @cancel _ k c st sem hst hsem =>
      obtain ⟨hcredit, hlength⟩ := Semaphore.credit_cancel sem k
      refine h.keep hlimited hst rfl rfl rfl rfl ?_
      intro sem₀ hsem₀ hblocked
      obtain rfl : sem = sem₀ := Option.some.inj (hsem.symm.trans hsem₀)
      use sem.cancel k, rfl, hcredit
      rw [hlength]
  | unwind hst hsem hk =>
      obtain ⟨hcredit, hlength⟩ := Semaphore.credit_leave hk
      apply h.leaveWait hlimited hst hsem hcredit hlength
  | revoke hst hsem hk =>
      obtain ⟨hcredit, hlength⟩ := Semaphore.credit_giveBack hk
      apply h.leaveWait hlimited hst hsem hcredit hlength
  | @leave _ i hmem hclient =>
      refine h.stateless hclient rfl ?_
      intro c hne p
      rw [countHolders_erase hmem]
      simp [hne]
  | @release _ i c st hmem hc hst =>
      have hpermit : st.cap > 0 → i.admission = .permit := by
        intro hcap
        have hne := hconsistent.limited c st hst hcap i hmem hc
        cases hadmission : i.admission with
        | unlimited => cases hne hadmission
        | bypass => cases hok hadmission
        | permit => rfl
      exact h.release hlimited hst hmem hc hpermit

/-- Releasing a holder that bypassed the semaphore adds a permit. -/
theorem not_permitsAddUp_release {i : Holder κ} (hconsistent : Consistent m)
    (h : PermitsAddUp m) (hbypass : i.admission = .bypass)
    (heffect : Effect (.release i) m m') :
  ¬ PermitsAddUp m'
  := by
  intro h'
  cases heffect with
  | leave hmem hclient =>
      obtain ⟨c, st, hc, hst, -⟩ := hconsistent.bypass i hmem hbypass
      rw [hclient c hc] at hst
      cases hst
  | @release _ _ c st hmem hc hst =>
      obtain ⟨c', st', hc', hst', hcap⟩ := hconsistent.bypass i hmem hbypass
      obtain rfl : c = c' := Option.some.inj (hc.symm.trans hc')
      obtain rfl : st = st' := Option.some.inj (hst.symm.trans hst')
      obtain ⟨sem, hsem, hpermits, -⟩ := (h c st hst hcap).permits
      have hafter := h' c st.release (Function.update_self _ _ _) hcap
      obtain ⟨sem', hsem', hpermits', -⟩ := hafter.permits
      obtain rfl : sem.release = sem' := by
        simpa [ClientState.release, hsem] using hsem'
      have hsame := countHolders_erase hmem c (· == .permit)
      rw [hbypass] at hsame
      rw [(Semaphore.credit_release sem).1] at hpermits'
      change _ = st.cap at hpermits'
      simp at hsame hpermits'
      omega

/-- A step out of a state in which the permits add up ends in such a state exactly when it
releases no holder that bypassed the semaphore. -/
theorem PermitsAddUp.step_iff (hconsistent : Consistent m) (h : PermitsAddUp m)
    (hstep : Step m a m') :
  PermitsAddUp m' ↔ ReleasesNoBypass m a
  := by
  constructor
  · intro h'
    cases a with
    | release i =>
        intro hbypass
        apply not_permitsAddUp_release hconsistent h hbypass hstep.effect h'
    | acquire | resume | cancel | unwind | revoke => trivial
  · intro hok
    apply h.effect hconsistent hok hstep.effect

end

/-! ### Runs -/

theorem new_holders (keys : List ApiKeyConfig) :
  (new keys : ClientConcurrencyManager κ).holders = []
  := rfl

/-- The manager for the configured keys has fresh states. -/
theorem new_states {keys : List ApiKeyConfig} {c : String} {st : ClientState κ}
    (h : (new keys : ClientConcurrencyManager κ).states c = some st) :
  ∃ cap, st = ClientState.new c cap
  := by
  have hfold (keys : List ApiKeyConfig) :
      ∀ states : String → Option (ClientState κ),
        (∀ c st, states c = some st → ∃ cap, st = ClientState.new c cap) →
        ∀ c st, keys.foldl addKey states c = some st →
          ∃ cap, st = ClientState.new c cap := by
    induction keys with
    | nil =>
        intro states hstates
        apply hstates
    | cons key keys ih =>
        intro states hstates
        apply ih
        intro c st hst
        rw [addKey] at hst
        by_cases hc : c = key.clientId
        · subst hc
          rw [Function.update_self] at hst
          use key.maxConcurrent
          apply (Option.some.inj hst).symm
        · rw [Function.update_of_ne hc] at hst
          apply hstates c st hst
  apply hfold keys _ _ c st h
  simp

theorem Consistent.new (keys : List ApiKeyConfig) :
  Consistent (new keys : ClientConcurrencyManager κ)
  := by
  constructor
  · intro c st _ _ i hi
    cases hi
  · intro i hi
    cases hi

theorem PermitsAddUp.new (keys : List ApiKeyConfig) :
  PermitsAddUp (new keys : ClientConcurrencyManager κ)
  := by
  intro c st hst hcap
  obtain ⟨cap, rfl⟩ := new_states hst
  change 0 < cap at hcap
  constructor
  · use Semaphore.new cap.toNat
    simp [ClientState.new, hcap, Semaphore.new, Semaphore.credit, Semaphore.granted,
      new_holders, countHolders]
    omega
  · rw [new_holders]
    exact hcap.le
  · rfl

/-- In all states of a run the permits of every capped client add up to its cap exactly
when no holder that was admitted by the fairness bypass is released. -/
theorem always_permitsAddUp_iff [DecidableEq κ] (keys : List ApiKeyConfig)
    (as : List (ConcurrencyAction κ)) :
  Always Step (new keys) as PermitsAddUp ↔ AllSteps Step (new keys) as ReleasesNoBypass
  := by
  apply always_iff_allSteps (I := Consistent) (Consistent.new keys) (PermitsAddUp.new keys)
  · intro m a m' hconsistent _ hstep
    apply hconsistent.effect hstep.effect
  · intro m a m' hconsistent h hstep
    apply h.step_iff hconsistent hstep

/-- The semaphore of client `c` has more permits than its cap. -/
def hasExtraPermit (c : String) (m : ClientConcurrencyManager κ) : Bool :=
  (m.states c).any fun st => st.semaphore.any fun sem => 0 < st.cap && st.cap < sem.credit

theorem not_permitsAddUp_of_hasExtraPermit {c : String} (h : m.hasExtraPermit c = true) :
  ¬ PermitsAddUp m
  := by
  intro hadds
  obtain ⟨st, hst, h⟩ := (Option.any_eq_true _ _).mp h
  obtain ⟨sem, hsem, h⟩ := (Option.any_eq_true _ _).mp h
  obtain ⟨hcap, hextra⟩ : 0 < st.cap ∧ st.cap < sem.credit := by simpa using h
  obtain ⟨sem', hsem', hpermits, -⟩ := (hadds c st hst hcap).permits
  obtain rfl : sem = sem' := Option.some.inj (hsem.symm.trans hsem')
  omega

/-- A key whose client may have one request upstream. -/
def batchKey : ApiKeyConfig := ⟨"k", "batch", .low, .inference, 1⟩

/-- A request that was deferred three times is admitted and released. -/
def bypassThenRelease : List (ConcurrencyAction ℕ) :=
  [.acquire 0 "batch" 3, .release ⟨0, "batch", .bypass⟩]

/-- The run above leaves two permits for a client whose cap is one. -/
theorem not_always_permitsAddUp :
  ¬ Always Step (new [batchKey]) bypassThenRelease PermitsAddUp
  := by
  apply not_always_of_exec (b := hasExtraPermit "batch")
  · decide +kernel
  · intro m h
    apply not_permitsAddUp_of_hasExtraPermit h

end ClientConcurrencyManager

end OllamaQueueProxy
