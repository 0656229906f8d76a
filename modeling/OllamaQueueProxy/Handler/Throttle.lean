import Mathlib.Algebra.Order.Ring.Rat
import OllamaQueueProxy.Handler.Failures
import OllamaQueueProxy.Library.SlidingWindow
import OllamaQueueProxy.Library.Transition

/-!
# The throttle

Calls of `authenticate` from any addresses, one after the other.  The failures that are kept
of an address are pruned, appended to and cleared; whenever they are looked at, those that
count are the times at which the address was answered 401 since its last success
(`Throttle.agree`).  So a call is answered 429 exactly when there are enough of them within
the window (`throttle_correct`).  Their ages are computed in double precision, so a failure may
leave the window a little too early (`not_throttled_exactly`).
-/

open Transition
open SlidingWindow (recent AgreeFrom)

namespace OllamaQueueProxy

namespace AuthResult

/-- The status code of the answer, unless the request passes. -/
def statusCode? : AuthResult → Option ℕ
  | .refused response => some response.statusCode
  | .passed _ | .raised => none

def succeeded : AuthResult → Bool
  | .passed _ => true
  | .refused _ | .raised => false

end AuthResult

/-- A call with its result. -/
structure AnsweredCall where
  attempt : Attempt
  result : AuthResult

/-- The calls of the address since its last success, the latest first. -/
def sinceSuccess (ip : String) (history : List AnsweredCall) : List AnsweredCall :=
  (history.filter fun c => c.attempt.clientIp = ip).takeWhile fun c => !c.result.succeeded

/-- The times at which the address was answered 401 since its last success, in order. -/
def denied (ip : String) (history : List AnsweredCall) : List ℚ :=
  (((sinceSuccess ip history).filter fun c => c.result.statusCode? = some 401).map
    fun c => c.attempt.recordedAt).reverse

/-- The failures that are kept, and what happened so far. -/
structure Throttle where
  table : FailureTable
  /-- When the last call ended. -/
  now : ℚ
  /-- The calls, the latest first. -/
  history : List AnsweredCall

namespace Throttle

def initial (start : ℚ) : Throttle where
  table := fun _ => []
  now := start
  history := []

/-- The state after a call; `none` if the call comes before the last one has ended. -/
def step (cfg : AuthConfig) (s : Throttle) (x : Attempt) : Option Throttle :=
  if s.now ≤ x.checkedAt then
    ((AuthManager.new cfg).authenticateOn s.table x).map fun (result, table) =>
      ⟨table, x.recordedAt, ⟨x, result⟩ :: s.history⟩
  else none

/-- The transitions of the failures under calls. -/
abbrev Step (cfg : AuthConfig) : Throttle → Attempt → Throttle → Prop := ofStep (step cfg)

variable {cfg : AuthConfig} {s s' : Throttle} {x : Attempt} {ip : String}

theorem step_iff :
  Step cfg s x s' ↔ s.now ≤ x.checkedAt ∧ ∃ result table,
    (AuthManager.new cfg).authenticateOn s.table x = some (result, table)
      ∧ s' = ⟨table, x.recordedAt, ⟨x, result⟩ :: s.history⟩
  := by
  unfold Step ofStep step
  split_ifs with hnow
  · rw [Option.map_eq_some_iff]
    constructor
    · rintro ⟨⟨result, table⟩, hresult, rfl⟩
      exact ⟨hnow, result, table, hresult, rfl⟩
    · rintro ⟨-, result, table, hresult, rfl⟩
      exact ⟨(result, table), hresult, rfl⟩
  · apply iff_of_false id
    exact fun h => hnow h.1

/-! ### The history of an address -/

variable {result : AuthResult} {history : List AnsweredCall}

theorem denied_cons_of_ne (h : ip ≠ x.clientIp) :
  denied ip (⟨x, result⟩ :: history) = denied ip history
  := by
  unfold denied sinceSuccess
  rw [List.filter_cons_of_neg (by simpa using h.symm)]

theorem sinceSuccess_cons_of_failed (h : result.succeeded = false) :
  sinceSuccess x.clientIp (⟨x, result⟩ :: history)
    = ⟨x, result⟩ :: sinceSuccess x.clientIp history
  := by
  unfold sinceSuccess
  rw [List.filter_cons_of_pos (by simp), List.takeWhile_cons_of_pos (by simp [h])]

/-- A success puts an end to the failures before it. -/
theorem denied_cons_passed (h : result.succeeded = true) :
  denied x.clientIp (⟨x, result⟩ :: history) = []
  := by
  unfold denied sinceSuccess
  rw [List.filter_cons_of_pos (by simp), List.takeWhile_cons_of_neg (by simp [h])]
  rfl

theorem denied_cons_unauthorized (h : result.statusCode? = some 401) :
  denied x.clientIp (⟨x, result⟩ :: history) = denied x.clientIp history ++ [x.recordedAt]
  := by
  have hfailed : result.succeeded = false := by
    cases result with
    | passed => cases h
    | refused | raised => rfl
  unfold denied
  rw [sinceSuccess_cons_of_failed hfailed, List.filter_cons_of_pos (by simpa using h),
    List.map_cons, List.reverse_cons]

theorem denied_cons_of_failed (h : result.succeeded = false)
    (hstatus : result.statusCode? ≠ some 401) :
  denied x.clientIp (⟨x, result⟩ :: history) = denied x.clientIp history
  := by
  unfold denied
  rw [sinceSuccess_cons_of_failed h, List.filter_cons_of_neg (by simpa using hstatus)]

/-! ### The failures that are kept -/

/-- What a call with the result leaves of the failures of its address. -/
inductive Leaves (cfg : AuthConfig) (table : FailureTable) (x : Attempt) (result : AuthResult) :
    List ℚ → Prop where
  | cleared (h : result.succeeded = true) : Leaves cfg table x result []
  | recorded (h : ¬ x.Throttled cfg table) (hstatus : result.statusCode? = some 401) :
      Leaves cfg table x result (x.recent cfg table ++ [x.recordedAt])
  | pruned (h : result.succeeded = false) (hstatus : result.statusCode? ≠ some 401) :
      Leaves cfg table x result (x.recent cfg table)

/-- Every call has a result, which is 429 exactly when the address is throttled. -/
theorem exists_result (henabled : cfg.enabled = true) (table : FailureTable) (x : Attempt) :
  ∃ result times,
    (AuthManager.new cfg).authenticateOn table x = some (result, x.leaves table times)
      ∧ Leaves cfg table x result times
      ∧ (result.statusCode? = some 429 ↔ x.Throttled cfg table)
  := by
  obtain ⟨result, table', hresult, hanswered, -⟩ | ⟨hraised, hthrottled, -⟩ :=
    authenticateOn_cases henabled table x
  · cases hanswered with
    | throttled h hstatus =>
        refine ⟨_, _, hresult, .pruned rfl ?_, ?_⟩
        · simp [AuthResult.statusCode?, hstatus]
        · exact iff_of_true (congrArg some hstatus) h
    | passed h =>
        refine ⟨_, _, hresult, .cleared rfl, iff_of_false ?_ h⟩
        simp [AuthResult.statusCode?]
    | unauthorized h _ hstatus =>
        refine ⟨_, _, hresult, .recorded h (congrArg some hstatus), iff_of_false ?_ h⟩
        simp [AuthResult.statusCode?, hstatus]
  · refine ⟨_, _, hraised, .pruned rfl ?_, iff_of_false ?_ hthrottled⟩
    · simp [AuthResult.statusCode?]
    · simp [AuthResult.statusCode?]

/-- What a call does to the state. -/
theorem step_cases (henabled : cfg.enabled = true) (hstep : Step cfg s x s') :
  s.now ≤ x.checkedAt ∧ ∃ result times,
    s' = ⟨x.leaves s.table times, x.recordedAt, ⟨x, result⟩ :: s.history⟩
      ∧ Leaves cfg s.table x result times
  := by
  obtain ⟨hnow, result, table, hresult, rfl⟩ := step_iff.mp hstep
  obtain ⟨result', times, hresult', hleaves, -⟩ := exists_result henabled s.table x
  obtain ⟨rfl, rfl⟩ := Prod.mk.inj (Option.some.inj (hresult.symm.trans hresult'))
  exact ⟨hnow, result, times, rfl, hleaves⟩

/-- From now on, the failures that are kept of every address count as those that it had. -/
def Agree (cfg : AuthConfig) (s : Throttle) : Prop :=
  ∀ ip, AgreeFrom Binary64.sub (cfg.rateLimit.windowSeconds : ℚ) s.now (s.table ip)
    (denied ip s.history)

theorem recent_eq (cfg : AuthConfig) (table : FailureTable) (x : Attempt) :
  x.recent cfg table
    = recent Binary64.sub (cfg.rateLimit.windowSeconds : ℚ) x.checkedAt (table x.clientIp)
  := rfl

theorem Agree.step (henabled : cfg.enabled = true) (h : Agree cfg s) (hstep : Step cfg s x s') :
  Agree cfg s'
  := by
  obtain ⟨hnow, result, times, rfl, hleaves⟩ := step_cases henabled hstep
  intro ip
  dsimp only
  by_cases hip : ip = x.clientIp
  · obtain rfl := hip
    rw [Attempt.leaves_self]
    have hpruned := (((h x.clientIp).mono hnow).prune Binary64.sub_monotone).mono x.checkedAt_le
    cases hleaves with
    | cleared hsucceeded =>
        rw [denied_cons_passed hsucceeded]
        apply AgreeFrom.refl
    | recorded _ hstatus =>
        rw [denied_cons_unauthorized hstatus]
        exact hpruned.append _
    | pruned hfailed hstatus =>
        rw [denied_cons_of_failed hfailed hstatus]
        exact hpruned
  · rw [Attempt.leaves_of_ne _ _ hip, denied_cons_of_ne hip]
    exact (h ip).mono (hnow.trans x.checkedAt_le)

/-- In every run, the failures that are kept agree with what happened. -/
theorem agree (henabled : cfg.enabled = true) {start : ℚ} {xs : List Attempt}
    (hrun : Run (Step cfg) (initial start) xs s) :
  Agree cfg s
  := by
  refine hrun.invariant ?_ (Agree.step henabled)
  intro ip
  apply AgreeFrom.refl

/-- An address is throttled exactly when it was answered 401 often enough within the window
since its last success. -/
theorem Agree.throttled_iff (h : Agree cfg s) (hnow : s.now ≤ x.checkedAt) :
  x.Throttled cfg s.table ↔ cfg.rateLimit.maxFailures
    ≤ (recent Binary64.sub (cfg.rateLimit.windowSeconds : ℚ) x.checkedAt
        (denied x.clientIp s.history)).length
  := by
  rw [Attempt.Throttled, recent_eq, h x.clientIp _ hnow]

/-! ### The size of what is kept -/

/-- No more failures are kept of an address than it takes to throttle it. -/
def Bounded (cfg : AuthConfig) (s : Throttle) : Prop :=
  ∀ ip, (s.table ip).length ≤ cfg.rateLimit.maxFailures

theorem Bounded.step (henabled : cfg.enabled = true) (hmax : 0 ≤ cfg.rateLimit.maxFailures)
    (h : Bounded cfg s) (hstep : Step cfg s x s') :
  Bounded cfg s'
  := by
  obtain ⟨-, result, times, rfl, hleaves⟩ := step_cases henabled hstep
  intro ip
  dsimp only
  by_cases hip : ip = x.clientIp
  · obtain rfl := hip
    rw [Attempt.leaves_self]
    cases hleaves with
    | cleared => exact hmax
    | recorded hthrottled =>
        have hfew : (x.recent cfg s.table).length < cfg.rateLimit.maxFailures :=
          lt_of_not_ge hthrottled
        rw [List.length_append, List.length_singleton, Nat.cast_succ]
        exact Int.add_one_le_of_lt hfew
    | pruned =>
        have hle : (x.recent cfg s.table).length ≤ (s.table x.clientIp).length :=
          SlidingWindow.length_recent_le _ _ _ _
        exact (Int.ofNat_le.mpr hle).trans (h x.clientIp)
  · rw [Attempt.leaves_of_ne _ _ hip]
    apply h ip

theorem bounded (henabled : cfg.enabled = true) (hmax : 0 ≤ cfg.rateLimit.maxFailures)
    {start : ℚ} {xs : List Attempt} (hrun : Run (Step cfg) (initial start) xs s) :
  Bounded cfg s
  := by
  refine hrun.invariant ?_ (Bounded.step henabled hmax)
  intro ip
  exact hmax

/-! ### The calls from other addresses -/

/-- The run without the calls from other addresses. -/
structure Restricts (ip : String) (s t : Throttle) : Prop where
  now_le : t.now ≤ s.now
  table : t.table ip = s.table ip
  history : t.history = s.history.filter fun c => c.attempt.clientIp = ip

theorem Restricts.step_other {t : Throttle} (henabled : cfg.enabled = true) (h : Restricts ip s t)
    (hip : x.clientIp ≠ ip) (hstep : Step cfg s x s') :
  Restricts ip s' t
  := by
  obtain ⟨hnow, result, times, rfl, -⟩ := step_cases henabled hstep
  constructor
  · exact h.now_le.trans (hnow.trans x.checkedAt_le)
  · exact h.table.trans (Attempt.leaves_of_ne _ _ hip.symm).symm
  · rw [h.history, List.filter_cons_of_neg (by simpa using hip)]

theorem Restricts.step_own {t : Throttle} (henabled : cfg.enabled = true) (h : Restricts ip s t)
    (hip : x.clientIp = ip) (hstep : Step cfg s x s') :
  ∃ t', Step cfg t x t' ∧ Restricts ip s' t'
  := by
  obtain rfl := hip
  obtain ⟨hnow, result, table, hresult, rfl⟩ := step_iff.mp hstep
  obtain ⟨result', times, hlocal⟩ :=
    authenticateOn_local (a := .new cfg) henabled x (s.table x.clientIp)
  obtain ⟨rfl, rfl⟩ := Prod.mk.inj (Option.some.inj ((hlocal _ rfl).symm.trans hresult))
  use ⟨x.leaves t.table times, x.recordedAt, ⟨x, result'⟩ :: t.history⟩
  constructor
  · exact step_iff.mpr ⟨h.now_le.trans hnow, result', _, hlocal _ h.table, rfl⟩
  · constructor
    · exact le_rfl
    · exact (Attempt.leaves_self _ _ _).trans (Attempt.leaves_self _ _ _).symm
    · rw [h.history, List.filter_cons_of_pos (by simp)]

/-- Without the calls from other addresses, those from an address have the same results. -/
theorem run_restrict (henabled : cfg.enabled = true) {start : ℚ} {xs : List Attempt}
    (hrun : Run (Step cfg) (initial start) xs s) (ip : String) :
  ∃ t, Run (Step cfg) (initial start) (xs.filter fun x => x.clientIp = ip) t
    ∧ Restricts ip s t
  := by
  induction hrun with
  | nil => exact ⟨_, .nil _, le_rfl, rfl, rfl⟩
  | @snoc s s' xs x hrun hstep ih =>
      obtain ⟨t, ht, hrestricts⟩ := ih
      rw [List.filter_append]
      by_cases hip : x.clientIp = ip
      · obtain ⟨t', hstep', hrestricts'⟩ := hrestricts.step_own henabled hip hstep
        rw [List.filter_cons_of_pos (by simpa using hip)]
        exact ⟨t', ht.snoc hstep', hrestricts'⟩
      · rw [List.filter_cons_of_neg (by simpa using hip), List.filter_nil, List.append_nil]
        exact ⟨t, ht, hrestricts.step_other henabled hip hstep⟩

/-! ### The throttle -/

/-- A throttled call is answered the same whatever the keys and the headers are. -/
theorem authenticateOn_eq_of_throttled (henabled : cfg.enabled = true) {table : FailureTable}
    (h : x.Throttled cfg table) (keyMap : Dict String ApiKeyConfig) {request : Request}
    (hclient : request.clientHost = x.request.clientHost)
    (hid : request.requestId = x.request.requestId) :
  AuthManager.authenticateOn ⟨cfg, keyMap⟩ table { x with request := request }
    = (AuthManager.new cfg).authenticateOn table x
  := by
  have hip : Attempt.clientIp { x with request := request } = x.clientIp :=
    congrArg (Option.getD · "unknown") hclient
  have hrecent : Attempt.recent cfg table { x with request := request } = x.recent cfg table := by
    rw [Attempt.recent, hip]
    rfl
  have hthrottled : Attempt.Throttled cfg table { x with request := request } := by
    rw [Attempt.Throttled, hrecent]
    exact h
  rw [authenticateOn_of_throttled (a := ⟨cfg, keyMap⟩) henabled hthrottled,
    authenticateOn_of_throttled (a := .new cfg) henabled h, Attempt.leaves, hip]
  change some (AuthResult.refused (.error _ _ request.requestId _), _) = _
  rw [hid, hrecent]
  rfl

/-- After any calls, a call is answered 429, and its token not looked at, exactly when its
address was answered 401 often enough within the window since its last success; the calls
from other addresses do not matter, and the failures that are kept are bounded. -/
theorem throttle_correct (henabled : cfg.enabled = true) {start : ℚ} {xs : List Attempt}
    (hrun : Run (Step cfg) (initial start) xs s) :
  (∀ x : Attempt, s.now ≤ x.checkedAt → ∃ result table,
    (AuthManager.new cfg).authenticateOn s.table x = some (result, table)
      ∧ (result.statusCode? = some 429 ↔ cfg.rateLimit.maxFailures
          ≤ (recent Binary64.sub (cfg.rateLimit.windowSeconds : ℚ) x.checkedAt
              (denied x.clientIp s.history)).length)
      ∧ (result.statusCode? = some 429 → ∀ keyMap (request : Request),
          request.clientHost = x.request.clientHost → request.requestId = x.request.requestId →
            AuthManager.authenticateOn ⟨cfg, keyMap⟩ s.table { x with request := request }
              = some (result, table)))
  ∧ (∀ ip, ∃ t, Run (Step cfg) (initial start) (xs.filter fun x => x.clientIp = ip) t
      ∧ t.history = s.history.filter fun c => c.attempt.clientIp = ip)
  ∧ (0 ≤ cfg.rateLimit.maxFailures →
      ∀ ip, (s.table ip).length ≤ cfg.rateLimit.maxFailures)
  := by
  refine ⟨?_, ?_, ?_⟩
  · intro x hnow
    obtain ⟨result, times, hresult, -, htooMany⟩ := exists_result henabled s.table x
    refine ⟨result, _, hresult, ?_, ?_⟩
    · rw [htooMany, (agree henabled hrun).throttled_iff hnow]
    · intro h keyMap request hclient hid
      rw [authenticateOn_eq_of_throttled henabled (htooMany.mp h) keyMap hclient hid, hresult]
  · intro ip
    obtain ⟨t, ht, hrestricts⟩ := run_restrict henabled hrun ip
    exact ⟨t, ht, hrestricts.history⟩
  · intro hmax
    exact bounded henabled hmax hrun

/-- A call with the token at a time. -/
def callAt (token : String) (time : ℚ) : Attempt :=
  { callWith token with
    checkedAt := time
    recordedAt := time
    checkedAt_le := le_rfl }

/-- After two calls with a wrong token, no more than ten failures are kept of any address. -/
theorem wrongTokens_bounded :
  ∃ s, Run (Step secretConfig) (initial 0) [callAt "wrong" 0, callAt "wrong" 10] s
    ∧ ∀ ip, (s.table ip).length ≤ (10 : ℤ)
  := by
  have hexec : (exec (step secretConfig) (initial 0)
      [callAt "wrong" 0, callAt "wrong" 10]).isSome = true := by
    decide +kernel
  obtain ⟨s, hrun⟩ := exists_run_of_exec hexec
  use s, hrun
  exact (throttle_correct rfl hrun).2.2 (by decide)

/-- The double nearest to 0.3. -/
def threeTenths : ℚ := 5404319552844595 / 18014398509481984

/-- The double nearest to 60.3. -/
def sixtyAndThreeTenths : ℚ := 4243235273913139 / 70368744177664

/-- After ten calls with a wrong token less than a minute ago, another one is not answered 429:
the difference of the two times is rounded to a minute. -/
theorem not_throttled_exactly :
  ∃ s, Run (Step secretConfig) (initial 0)
      (List.replicate 10 (callAt "wrong" threeTenths)) s
    ∧ s.now ≤ sixtyAndThreeTenths
    ∧ secretConfig.rateLimit.maxFailures ≤ ((denied "127.0.0.1" s.history).filter fun t =>
        sixtyAndThreeTenths - t < secretConfig.rateLimit.windowSeconds).length
    ∧ ∃ result table, (AuthManager.new secretConfig).authenticateOn s.table
        (callAt "wrong" sixtyAndThreeTenths) = some (result, table)
      ∧ result.statusCode? ≠ some 429
  := by
  have hexec : (exec (step secretConfig) (initial 0)
      (List.replicate 10 (callAt "wrong" threeTenths))).any (fun s =>
        s.now ≤ sixtyAndThreeTenths
          && secretConfig.rateLimit.maxFailures ≤ ((denied "127.0.0.1" s.history).filter fun t =>
            sixtyAndThreeTenths - t < secretConfig.rateLimit.windowSeconds).length
          && ((AuthManager.new secretConfig).authenticateOn s.table
            (callAt "wrong" sixtyAndThreeTenths)).any fun answer =>
              answer.1.statusCode? != some 429) = true := by
    decide +kernel
  obtain ⟨s, hs, htest⟩ := (Option.any_eq_true _ _).mp hexec
  obtain ⟨hdenied, hanswer⟩ := Bool.and_eq_true_iff.mp htest
  obtain ⟨hnow, hmany⟩ := Bool.and_eq_true_iff.mp hdenied
  obtain ⟨⟨result, table⟩, hresult, hstatus⟩ := (Option.any_eq_true _ _).mp hanswer
  exact ⟨s, run_of_exec hs, of_decide_eq_true hnow, of_decide_eq_true hmany, result, table,
    hresult, by simpa using hstatus⟩

end Throttle

end OllamaQueueProxy
