import OllamaQueueProxy.Concurrency.Manager
import OllamaQueueProxy.Handler.Failures

/-!
# The policy of a key

The keys are looked up in two dictionaries: `AuthManager` holds them by their values, and the
concurrency manager by their clients.  In both, an entry replaces the ones before it.

A request that presents a key is handled under the policy of that key exactly when the key can
be compared, is the last one of its value, and has the cap of the last one of its client
(`ownPolicy_iff`).
-/

namespace OllamaQueueProxy

/-- The entry that the dictionary of the keys by their values holds: the last one. -/
def AuthConfig.entryOf? (cfg : AuthConfig) (key : String) : Option ApiKeyConfig :=
  cfg.keys.reverse.find? fun k => k.key == key

/-- `AppState.concurrency_manager`, which is there if some key has a cap. -/
def AuthConfig.concurrencyManager? (cfg : AuthConfig) (κ : Type) :
    Option (ClientConcurrencyManager κ) :=
  if cfg.keys.any fun k => 0 < k.maxConcurrent then some (.new cfg.keys) else none

/-- The cap that is enforced on the requests of a client; zero stands for none. -/
def AuthConfig.enforcedCap (cfg : AuthConfig) (κ : Type) (clientId : String) : ℤ :=
  match cfg.concurrencyManager? κ with
  | none => 0
  | some m => ((m.getState (some clientId)).map ClientState.cap).getD 0

/-- The request is handled under the policy of the key: `authenticate` returns the key, and the
cap that is enforced on its client is its own. -/
structure OwnPolicy (cfg : AuthConfig) (κ : Type) (table : FailureTable) (x : Attempt)
    (k : ApiKeyConfig) : Prop where
  authenticated : ∃ table',
    (AuthManager.new cfg).authenticateOn table x = some (.passed (some k), table')
  cap : cfg.enforcedCap κ k.clientId = k.maxConcurrent

variable {cfg : AuthConfig} {κ : Type}

/-! ### The dictionaries -/

theorem get?_keyMap (cfg : AuthConfig) (key : String) :
  Dict.get? (AuthManager.new cfg).keyMap key = cfg.entryOf? key
  := by
  rw [AuthManager.new, Dict.get?_ofList, ← List.map_reverse, List.find?_map, Option.map_map]
  exact congrFun Option.map_id _

/-- The manager for the keys holds for a client the cap of its last key. -/
theorem foldl_addKey (keys : List ApiKeyConfig) (c : String) :
  keys.foldl ClientConcurrencyManager.addKey (fun _ => none) c
    = (keys.reverse.find? fun k => k.clientId == c).map fun k =>
      (ClientState.new c k.maxConcurrent : ClientState κ)
  := by
  induction keys using List.reverseRecOn with
  | nil => rfl
  | append_singleton keys k ih =>
      rw [List.foldl_append, List.reverse_append, List.reverse_singleton,
        List.singleton_append, List.foldl_cons, List.foldl_nil, ClientConcurrencyManager.addKey]
      by_cases hclient : k.clientId = c
      · subst hclient
        rw [Function.update_self, List.find?_cons_of_pos (by simp)]
        rfl
      · rw [Function.update_of_ne (Ne.symm hclient), ih,
          List.find?_cons_of_neg (by simpa using hclient)]

theorem exists_keyOf? {k : ApiKeyConfig} (hk : k ∈ cfg.keys) :
  ∃ k' ∈ cfg.keys, cfg.keyOf? k.clientId = some k'
  := by
  have hsome : (cfg.keyOf? k.clientId).isSome = true := by
    rw [AuthConfig.keyOf?, List.find?_isSome]
    exact ⟨k, List.mem_reverse.mpr hk, by simp⟩
  obtain ⟨k', hk'⟩ := Option.isSome_iff_exists.mp hsome
  exact ⟨k', List.mem_reverse.mp (List.mem_of_find?_eq_some hk'), hk'⟩

/-- The cap that is enforced on a client is that of its last key. -/
theorem enforcedCap_eq (hcaps : ∀ k ∈ cfg.keys, 0 ≤ k.maxConcurrent) {k : ApiKeyConfig}
    (hk : k ∈ cfg.keys) :
  ∃ k', cfg.keyOf? k.clientId = some k'
    ∧ cfg.enforcedCap κ k.clientId = k'.maxConcurrent
  := by
  obtain ⟨k', hmem, hk'⟩ := exists_keyOf? hk
  use k', hk'
  unfold AuthConfig.enforcedCap AuthConfig.concurrencyManager?
  split_ifs with hany
  · have hstate : (ClientConcurrencyManager.new cfg.keys : ClientConcurrencyManager κ).getState
        (some k.clientId) = some (.new k.clientId k'.maxConcurrent) := by
      change cfg.keys.foldl ClientConcurrencyManager.addKey (fun _ => none) k.clientId = _
      rw [foldl_addKey, ← AuthConfig.keyOf?, hk']
      rfl
    dsimp only
    rw [hstate]
    rfl
  · have hnone : ¬ 0 < k'.maxConcurrent := by
      intro hpos
      exact hany (List.any_eq_true.mpr ⟨k', hmem, decide_eq_true hpos⟩)
    have hnonneg := hcaps k' hmem
    dsimp only
    omega

/-! ### The policy -/

/-- With authentication enabled, a request that presents a key from an address that is not
throttled passes as that key exactly if the key can be compared and is the last of its
value. -/
theorem authenticated_iff (henabled : cfg.enabled = true) {table : FailureTable} {x : Attempt}
    (hthrottled : ¬ x.Throttled cfg table) {k : ApiKeyConfig} (hpresents : x.Presents k.key) :
  (∃ table', (AuthManager.new cfg).authenticateOn table x = some (.passed (some k), table'))
    ↔ Comparable (AuthManager.new cfg).keyMap k.key ∧ cfg.entryOf? k.key = some k
  := by
  rw [authenticateOn_of_not_throttled (a := .new cfg) henabled hthrottled,
    AuthManager.checkKey, Attempt.presents_iff.mp hpresents]
  dsimp only
  rw [AuthManager.lookupKey]
  obtain ⟨hraises, -, hincomparable⟩ | ⟨hfound, hcomparable⟩ :=
    lookupKeyIn_cases k.key (AuthManager.new cfg).keyMap
  · rw [hraises]
    apply iff_of_false
    · rintro ⟨table', h⟩
      cases h
    · exact fun h => hincomparable h.1
  · rw [hfound, get?_keyMap]
    have hcompares := hcomparable (keyMap_ne_nil henabled)
    cases hentry : cfg.entryOf? k.key with
    | none =>
        dsimp only
        rw [exec_unauthorized]
        apply iff_of_false
        · rintro ⟨table', h⟩
          cases h
        · exact fun h => Option.some_ne_none k h.2.symm
    | some k' =>
        have hpassed : Program.exec x.act _ (x.leaves table _) = some (_, x.leaves table []) :=
          exec_clearFailures (.passed (some k')) (x.recent cfg table)
        constructor
        · rintro ⟨table', h⟩
          obtain ⟨hsame, -⟩ := Prod.mk.inj (Option.some.inj (hpassed.symm.trans h))
          use hcompares
          exact AuthResult.passed.inj hsame
        · rintro ⟨-, hsame⟩
          rw [← hsame]
          exact ⟨_, hpassed⟩

/-- A request that presents a key from an address that is not throttled is handled under the
policy of that key exactly if the key can be compared, is the last of its value, and has the
cap of the last key of its client. -/
theorem ownPolicy_iff (henabled : cfg.enabled = true)
    (hcaps : ∀ k ∈ cfg.keys, 0 ≤ k.maxConcurrent) {k : ApiKeyConfig} (hk : k ∈ cfg.keys)
    {table : FailureTable} {x : Attempt} (hthrottled : ¬ x.Throttled cfg table)
    (hpresents : x.Presents k.key) :
  OwnPolicy cfg κ table x k
    ↔ Comparable (AuthManager.new cfg).keyMap k.key ∧ cfg.entryOf? k.key = some k
      ∧ (cfg.keyOf? k.clientId).map ApiKeyConfig.maxConcurrent = some k.maxConcurrent
  := by
  obtain ⟨k', hk', hcap⟩ := enforcedCap_eq (κ := κ) hcaps hk
  have hauth := authenticated_iff henabled hthrottled hpresents
  constructor
  · rintro ⟨hauthenticated, hown⟩
    obtain ⟨hcomparable, hentry⟩ := hauth.mp hauthenticated
    use hcomparable, hentry
    rw [hk', ← hown, hcap]
    rfl
  · rintro ⟨hcomparable, hentry, hlast⟩
    use hauth.mpr ⟨hcomparable, hentry⟩
    rw [hk'] at hlast
    rw [hcap]
    exact Option.some.inj hlast

/-- Two keys of one client, of which only the first has a cap. -/
def teamConfig : AuthConfig where
  enabled := true
  keys := [⟨"first", "team", .low, .inference, 1⟩, ⟨"second", "team", .high, .inference, 0⟩]
  rateLimit := ⟨10, 60⟩
  keysRequiredWhenEnabled := fun _ => List.cons_ne_nil _ _

/-- The cap of the first key is not enforced. -/
theorem not_ownPolicy :
  ¬ OwnPolicy teamConfig Unit (fun _ => []) (callWith "first")
    ⟨"first", "team", .low, .inference, 1⟩
  := by
  intro h
  have hcap := h.cap
  revert hcap
  decide

/-- The second key has its own policy. -/
theorem second_ownPolicy :
  OwnPolicy teamConfig Unit (fun _ => []) (callWith "second")
    ⟨"second", "team", .high, .inference, 0⟩
  := by
  have hcaps : ∀ k ∈ teamConfig.keys, 0 ≤ k.maxConcurrent := by
    simp [teamConfig]
  have hfew : ¬ (callWith "second").Throttled teamConfig (fun _ => []) := by
    have hten : ¬ (10 : ℤ) ≤ (([] : List ℚ).length : ℤ) := by decide
    exact hten
  have hascii : isAscii "second" = true ∧ isAscii "first" = true := by decide
  apply (ownPolicy_iff rfl hcaps (by simp [teamConfig]) hfew (callWith_presents "second")).mpr
  refine ⟨⟨hascii.1, ?_⟩, rfl, rfl⟩
  intro e he
  have hmem := Dict.mem_of_mem_ofList ((List.takeWhile_sublist _).subset he)
  obtain rfl | rfl : e = ("first", ⟨"first", "team", .low, .inference, 1⟩)
      ∨ e = ("second", ⟨"second", "team", .high, .inference, 0⟩) := by
    simpa [AuthManager.new, teamConfig] using hmem
  · exact hascii.2
  · exact hascii.1

end OllamaQueueProxy
