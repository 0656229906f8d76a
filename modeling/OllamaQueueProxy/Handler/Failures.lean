import Mathlib.Logic.Function.Basic
import OllamaQueueProxy.Handler.Auth

/-!
# The failures of the addresses

A call of `authenticate` as an action on the failures that `AuthManager` keeps.  The lock is
held only between two suspensions, so nobody ever waits for it, and a call is not
interrupted by other calls.

A call is answered well, with the key that was presented, 401 or 429, exactly when the
address is throttled or the keys can be compared with the token (`wellAnswered_iff`):
`hmac.compare_digest` raises `TypeError` for strings that are not ASCII, which may come in
the header and in the configuration.
-/

namespace OllamaQueueProxy

/-- `_failures`: the times of the failures of every address. -/
abbrev FailureTable : Type := String → List ℚ

/-- A call of `authenticate`.  It reads the clock when it looks at the failures, and again
when it records one. -/
structure Attempt where
  request : Request
  checkedAt : ℚ
  recordedAt : ℚ
  checkedAt_le : checkedAt ≤ recordedAt

namespace Attempt

/-- The address that the call is attributed to. -/
def clientIp (x : Attempt) : String := AuthManager.clientIp x.request

/-- What the operations of the call do to the failures. -/
def act (x : Attempt) : (op : Op) → FailureTable → Option (op.Answer × FailureTable)
  | .failures ip, table => some ((table ip, x.checkedAt), table)
  | .setFailures ip recent, table => some ((), Function.update table ip recent)
  | .recordFailure ip, table =>
      some ((), Function.update table ip (table ip ++ [x.recordedAt]))
  | .clearFailures ip, table => some ((), Function.update table ip [])
  | _, _ => none

/-- The failures that count when the call looks at them. -/
def recent (cfg : AuthConfig) (table : FailureTable) (x : Attempt) : List ℚ :=
  AuthManager.recentFailures cfg (table x.clientIp) x.checkedAt

/-- The address has too many failures. -/
def Throttled (cfg : AuthConfig) (table : FailureTable) (x : Attempt) : Prop :=
  cfg.rateLimit.maxFailures ≤ (x.recent cfg table).length

/-- The request presents the key. -/
def Presents (x : Attempt) (key : String) : Prop :=
  x.request.header? "authorization" = some ("Bearer " ++ key)

theorem presents_iff {x : Attempt} {key : String} :
  x.Presents key ↔ bearerKey? ((x.request.header? "authorization").getD "") = some key
  := bearerKey?_eq_some_iff.symm

/-- A request presents one key at most. -/
theorem Presents.unique {x : Attempt} {key key' : String} (h : x.Presents key)
    (h' : x.Presents key') :
  key = key'
  := Option.some.inj ((presents_iff.mp h).symm.trans (presents_iff.mp h'))

/-- The table after the call, which replaces the failures of its address. -/
def leaves (table : FailureTable) (x : Attempt) (times : List ℚ) : FailureTable :=
  Function.update table x.clientIp times

@[simp]
theorem leaves_self (table : FailureTable) (x : Attempt) (times : List ℚ) :
  x.leaves table times x.clientIp = times
  := Function.update_self _ _ _

theorem leaves_of_ne (table : FailureTable) {x : Attempt} (times : List ℚ) {ip : String}
    (h : ip ≠ x.clientIp) :
  x.leaves table times ip = table ip
  := Function.update_of_ne h _ _

end Attempt

/-- The result of a call, and the failures after it. -/
def AuthManager.authenticateOn (a : AuthManager) (table : FailureTable) (x : Attempt) :
    Option (AuthResult × FailureTable) :=
  (a.authenticate x.request).exec x.act table

/-- The results that a call may have, each with the failures it leaves. -/
inductive Answered (cfg : AuthConfig) (table : FailureTable) (x : Attempt) :
    AuthResult → FailureTable → Prop where
  /-- The address is throttled, which is answered 429. -/
  | throttled (h : x.Throttled cfg table) {response : Response}
      (hstatus : response.statusCode = 429) :
      Answered cfg table x (.refused response) (x.leaves table (x.recent cfg table))
  /-- A configured key was presented, and the failures are cleared. -/
  | passed (h : ¬ x.Throttled cfg table) {k : ApiKeyConfig} (hk : k ∈ cfg.keys)
      (hpresents : x.Presents k.key) : Answered cfg table x (.passed (some k)) (x.leaves table [])
  /-- No configured key was presented, which is answered 401 and recorded once. -/
  | unauthorized (h : ¬ x.Throttled cfg table) (hnone : ∀ k ∈ cfg.keys, ¬ x.Presents k.key)
      {response : Response} (hstatus : response.statusCode = 401) :
      Answered cfg table x (.refused response)
        (x.leaves table (x.recent cfg table ++ [x.recordedAt]))

/-- The call returns, with one of these results. -/
def WellAnswered (cfg : AuthConfig) (table : FailureTable) (x : Attempt) : Prop :=
  ∃ result table', (AuthManager.new cfg).authenticateOn table x = some (result, table')
    ∧ Answered cfg table x result table'

/-- The token of the request, if there is one, can be compared with the keys. -/
def TokenComparable (cfg : AuthConfig) (x : Attempt) : Prop :=
  ∀ provided, x.Presents provided → Comparable (AuthManager.new cfg).keyMap provided

section

variable {cfg : AuthConfig} {table : FailureTable} {x : Attempt}

theorem tokenComparable_iff {provided : String} (h : x.Presents provided) :
  TokenComparable cfg x ↔ Comparable (AuthManager.new cfg).keyMap provided
  := by
  constructor
  · intro htoken
    exact htoken provided h
  · intro hcomparable key hkey
    rwa [hkey.unique h]

/-! ### The result of a call -/

theorem authenticateOn_of_throttled {a : AuthManager} (henabled : a.config.enabled = true)
    (h : x.Throttled a.config table) :
  a.authenticateOn table x
    = some (.refused (a.tooManyFailures x.request), x.leaves table (x.recent a.config table))
  := by
  rw [AuthManager.authenticateOn, AuthManager.authenticate_eq henabled, Program.exec_call _ rfl,
    Program.exec_call _ rfl]
  exact congrArg (Program.exec x.act · _) (if_pos h)

theorem authenticateOn_of_not_throttled {a : AuthManager} (henabled : a.config.enabled = true)
    (h : ¬ x.Throttled a.config table) :
  a.authenticateOn table x
    = (a.checkKey x.request).exec x.act (x.leaves table (x.recent a.config table))
  := by
  rw [AuthManager.authenticateOn, AuthManager.authenticate_eq henabled, Program.exec_call _ rfl,
    Program.exec_call _ rfl]
  exact congrArg (Program.exec x.act · _) (if_neg h)

/-- A request without a valid key is answered 401, and its failure is recorded. -/
theorem exec_unauthorized (message : String) (times : List ℚ) :
  (AuthManager.unauthorized message x.request).exec x.act (x.leaves table times)
    = some (.refused (.error 401 message x.request.requestId [("WWW-Authenticate", "Bearer")]),
        x.leaves table (times ++ [x.recordedAt]))
  := by
  change some (_, Function.update _ _ _) = _
  congr 2
  change Function.update (x.leaves table times) x.clientIp
    (x.leaves table times x.clientIp ++ [x.recordedAt]) = _
  rw [Attempt.leaves_self]
  exact Function.update_idem _ _ _

/-- A request with a valid key passes, and the failures are cleared. -/
theorem exec_clearFailures (result : AuthResult) (times : List ℚ) :
  (do ask (.clearFailures x.clientIp); return result : Handler AuthResult).exec x.act
      (x.leaves table times)
    = some (result, x.leaves table [])
  := congrArg (fun t => some (result, t)) (Function.update_idem _ _ _)

/-- The check of the key looks at nothing but the request. -/
theorem exec_checkKey (a : AuthManager) (x : Attempt) :
  ∃ result, ∃ f : List ℚ → List ℚ, ∀ table times,
    (a.checkKey x.request).exec x.act (x.leaves table times)
      = some (result, x.leaves table (f times))
  := by
  unfold AuthManager.checkKey
  split
  · exact ⟨_, _, fun _ times => exec_unauthorized _ times⟩
  · split
    · exact ⟨_, id, fun _ _ => rfl⟩
    · exact ⟨_, _, fun _ times => exec_unauthorized _ times⟩
    · exact ⟨_, fun _ => [], fun _ times => exec_clearFailures _ times⟩

/-- A call depends on the failures of its own address only. -/
theorem authenticateOn_local {a : AuthManager} (henabled : a.config.enabled = true)
    (x : Attempt) (times : List ℚ) :
  ∃ result times', ∀ table : FailureTable, table x.clientIp = times →
    a.authenticateOn table x = some (result, x.leaves table times')
  := by
  have hrecent {table : FailureTable} (htable : table x.clientIp = times) :
      x.recent a.config table = AuthManager.recentFailures a.config times x.checkedAt := by
    rw [Attempt.recent, htable]
  by_cases hlimit : a.config.rateLimit.maxFailures
      ≤ (AuthManager.recentFailures a.config times x.checkedAt).length
  · use .refused (a.tooManyFailures x.request)
    use AuthManager.recentFailures a.config times x.checkedAt
    intro table htable
    rw [← hrecent htable] at hlimit
    rw [authenticateOn_of_throttled henabled hlimit, hrecent htable]
  · obtain ⟨result, f, hcheck⟩ := exec_checkKey a x
    use result, f (AuthManager.recentFailures a.config times x.checkedAt)
    intro table htable
    rw [← hrecent htable] at hlimit
    rw [authenticateOn_of_not_throttled henabled hlimit, hcheck, hrecent htable]

theorem lookupKey_ne_none_iff (henabled : cfg.enabled = true) {provided : String}
    (h : x.Presents provided) :
  (AuthManager.new cfg).lookupKey provided ≠ none ↔ TokenComparable cfg x
  := by
  rw [tokenComparable_iff h, AuthManager.lookupKey, Ne, lookupKeyIn_eq_none_iff, not_and_not_right]
  exact ⟨fun h => h (keyMap_ne_nil henabled), fun h _ => h⟩

/-- The check of the key raises if the token cannot be compared with the keys.  Otherwise the
request passes with the key it presents, or its failure is recorded. -/
theorem exec_checkKey_cases (henabled : cfg.enabled = true) (table : FailureTable)
    (x : Attempt) (times : List ℚ) :
  (((AuthManager.new cfg).checkKey x.request).exec x.act (x.leaves table times)
        = some (.raised, x.leaves table times)
      ∧ ¬ TokenComparable cfg x)
    ∨ TokenComparable cfg x ∧ ((∃ k ∈ cfg.keys, x.Presents k.key
        ∧ ((AuthManager.new cfg).checkKey x.request).exec x.act (x.leaves table times)
          = some (.passed (some k), x.leaves table []))
      ∨ (∀ k ∈ cfg.keys, ¬ x.Presents k.key) ∧ ∃ response : Response, response.statusCode = 401
        ∧ ((AuthManager.new cfg).checkKey x.request).exec x.act (x.leaves table times)
          = some (.refused response, x.leaves table (times ++ [x.recordedAt])))
  := by
  unfold AuthManager.checkKey
  cases hbearer : bearerKey? ((x.request.header? "authorization").getD "") with
  | none =>
      have hnone (key : String) : ¬ x.Presents key := by
        rw [Attempt.presents_iff, hbearer]
        exact (Option.some_ne_none key).symm
      right
      use fun provided h => (hnone provided h).elim
      exact .inr ⟨fun k _ => hnone k.key, _, rfl, exec_unauthorized _ _⟩
  | some provided =>
      have hpresents : x.Presents provided := Attempt.presents_iff.mpr hbearer
      have hcomparable := lookupKey_ne_none_iff henabled hpresents
      dsimp only
      cases hlookup : (AuthManager.new cfg).lookupKey provided with
      | none =>
          left
          use rfl
          exact fun h => hcomparable.mpr h hlookup
      | some found =>
          right
          constructor
          · apply hcomparable.mp
            rw [hlookup]
            exact Option.some_ne_none _
          · cases found with
            | none =>
                right
                constructor
                · intro k hk h
                  exact ne_of_lookupKey hlookup k hk (h.unique hpresents)
                · exact ⟨_, rfl, exec_unauthorized _ _⟩
            | some k =>
                obtain ⟨hk, rfl⟩ := mem_of_lookupKey hlookup
                exact .inl ⟨k, hk, hpresents, exec_clearFailures _ _⟩

/-- The call returns one of the results, or the lookup raises. -/
theorem authenticateOn_cases (henabled : cfg.enabled = true) (table : FailureTable)
    (x : Attempt) :
  (∃ result table', (AuthManager.new cfg).authenticateOn table x = some (result, table')
      ∧ Answered cfg table x result table'
      ∧ (¬ x.Throttled cfg table → TokenComparable cfg x))
    ∨ ((AuthManager.new cfg).authenticateOn table x
          = some (.raised, x.leaves table (x.recent cfg table))
        ∧ ¬ x.Throttled cfg table ∧ ¬ TokenComparable cfg x)
  := by
  by_cases hthrottled : x.Throttled cfg table
  · left
    exact ⟨_, _, authenticateOn_of_throttled (a := .new cfg) henabled hthrottled,
      .throttled hthrottled rfl, fun h => (h hthrottled).elim⟩
  · rw [authenticateOn_of_not_throttled (a := .new cfg) henabled hthrottled]
    obtain ⟨hraised, htoken⟩ | ⟨htoken, ⟨k, hk, hpresents, hpassed⟩ | ⟨hnone, _, h401, hrefused⟩⟩ :=
      exec_checkKey_cases henabled table x (x.recent cfg table)
    · exact .inr ⟨hraised, hthrottled, htoken⟩
    · exact .inl ⟨_, _, hpassed, .passed hthrottled hk hpresents, fun _ => htoken⟩
    · exact .inl ⟨_, _, hrefused, .unauthorized hthrottled hnone h401, fun _ => htoken⟩

/-- A call is answered well exactly when the address is throttled or the token can be
compared with the keys. -/
theorem wellAnswered_iff (henabled : cfg.enabled = true) (table : FailureTable) (x : Attempt) :
  WellAnswered cfg table x ↔ x.Throttled cfg table ∨ TokenComparable cfg x
  := by
  rw [or_iff_not_imp_left]
  obtain ⟨result, table', hresult, hanswered, htoken⟩ | ⟨hraised, hthrottled, htoken⟩ :=
    authenticateOn_cases henabled table x
  · exact iff_of_true ⟨result, table', hresult, hanswered⟩ htoken
  · apply iff_of_false
    · rintro ⟨result, table', hresult, hanswered⟩
      rw [hraised] at hresult
      obtain ⟨rfl, -⟩ := Prod.mk.inj (Option.some.inj hresult)
      cases hanswered
    · exact fun h => htoken (h hthrottled)

end

/-! ### Two calls -/

/-- A configuration with authentication and one key. -/
def secretConfig : AuthConfig := .ofKey ⟨"secret", "chat", .normal, .inference, 0⟩

/-- A call for a request with the token. -/
def callWith (token : String) : Attempt where
  request := {
    method := "GET"
    target := Url.ascii "/api/tags"
    queryString := []
    headers := [("authorization", "Bearer " ++ token)]
    clientHost := some "127.0.0.1"
    requestId := "r"
    chunks := []
    body := .empty
    sum_chunks := Bytes.sum_nil_eq_length_empty }
  checkedAt := 0
  recordedAt := 0
  checkedAt_le := le_rfl

theorem callWith_presents (token : String) :
  (callWith token).Presents token
  := rfl

/-- The call with the key is answered well. -/
theorem secret_wellAnswered :
  WellAnswered secretConfig (fun _ => []) (callWith "secret")
  := by
  apply (wellAnswered_iff rfl _ _).mpr
  right
  rw [tokenComparable_iff (callWith_presents "secret")]
  constructor
  · decide
  · rintro e he
    cases he

/-- A call with a token that is not ASCII is not answered. -/
theorem not_wellAnswered :
  ¬ WellAnswered secretConfig (fun _ => []) (callWith "é")
  := by
  rw [wellAnswered_iff rfl, tokenComparable_iff (callWith_presents "é")]
  rintro (hthrottled | ⟨hascii, -⟩)
  · have hfew : ¬ (10 : ℤ) ≤ (([] : List ℚ).length : ℤ) := by decide
    exact hfew hthrottled
  · revert hascii
    decide

end OllamaQueueProxy
