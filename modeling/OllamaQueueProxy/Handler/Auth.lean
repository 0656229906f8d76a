import OllamaQueueProxy.Handler.Operations
import OllamaQueueProxy.Library.Binary64

/-!
# Authentication

`AuthManager`: the keys by their values, the check of the `Authorization` header of a
request, the limit on the failures of an address, and the ceiling on the priority.
-/

namespace OllamaQueueProxy

structure AuthManager where
  config : AuthConfig
  /-- `_key_map`. -/
  keyMap : Dict String ApiKeyConfig

/-- The result of `authenticate`. -/
inductive AuthResult where
  /-- The request may go on, as the one of the key if there is one. -/
  | passed (keyCfg : Option ApiKeyConfig)
  | refused (r : Response)
  | raised

/-- `hmac.compare_digest`, which raises `TypeError` for strings that are not ASCII. -/
def compareDigest (a b : String) : Option Bool :=
  if a.toList.all (·.toNat < 128) && b.toList.all (·.toNat < 128) then some (a == b) else none

/-- The part of the header after `Bearer `. -/
def bearerKey? (header : String) : Option String :=
  if "Bearer ".toList.isPrefixOf header.toList then
    some (String.ofList (header.toList.drop "Bearer ".toList.length))
  else none

/-- The loop of `lookup_key`. -/
def lookupKeyIn (provided : String) : Dict String ApiKeyConfig → Option (Option ApiKeyConfig)
  | [] => some none
  | (storedKey, cfg) :: rest =>
      match compareDigest storedKey provided with
      | none => none
      | some true => some (some cfg)
      | some false => lookupKeyIn provided rest

namespace AuthManager

def new (cfg : AuthConfig) : AuthManager where
  config := cfg
  keyMap := Dict.ofList (cfg.keys.map fun k => (k.key, k))

/-- The key with the provided value, if any; `none` if the comparison raises `TypeError`. -/
def lookupKey (a : AuthManager) (provided : String) : Option (Option ApiKeyConfig) :=
  lookupKeyIn provided a.keyMap

/-- The failures that are within the window of the rate limit, by the age that is computed in
double precision. -/
def recentFailures (cfg : AuthConfig) (failures : List ℚ) (now : ℚ) : List ℚ :=
  failures.filter fun t => Binary64.sub now t < cfg.rateLimit.windowSeconds

def isRateLimited (a : AuthManager) (ip : String) : Handler Bool := do
  let (failures, now) ← ask (.failures ip)
  let recent := recentFailures a.config failures now
  ask (.setFailures ip recent)
  return a.config.rateLimit.maxFailures ≤ recent.length

/-- The address of the client. -/
def clientIp (r : Request) : String := r.clientHost.getD "unknown"

/-- The answer 401 to a request without a valid key, which counts as a failure. -/
def unauthorized (message : String) (r : Request) : Handler AuthResult := do
  ask (.recordFailure (clientIp r))
  return .refused (.error 401 message r.requestId [("WWW-Authenticate", "Bearer")])

def authenticate (a : AuthManager) (r : Request) : Handler AuthResult :=
  if a.config.enabled = false then return .passed none
  else do
    if ← a.isRateLimited (clientIp r) then
      return .refused (.error 429 "too many authentication failures" r.requestId
        [("Retry-After", toString a.config.rateLimit.windowSeconds)])
    else match bearerKey? ((r.header? "authorization").getD "") with
      | none => unauthorized "missing or invalid authorization header" r
      | some provided => match a.lookupKey provided with
        | none => return .raised
        | some none => unauthorized "invalid api key" r
        | some (some keyCfg) => do
            ask (.clearFailures (clientIp r))
            return .passed (some keyCfg)

/-- The requested priority, capped by the ceiling of the key. -/
def enforcePriorityCeiling (requested : Tier) : Option ApiKeyConfig → Tier
  | none => requested
  | some keyCfg => if keyCfg.maxPriority < requested then keyCfg.maxPriority else requested

end AuthManager

/-! ### The header -/

/-- The header has the form `Bearer` followed by the token. -/
theorem bearerKey?_eq_some_iff {r : Request} {provided : String} :
  bearerKey? ((r.header? "authorization").getD "") = some provided
    ↔ r.header? "authorization" = some ("Bearer " ++ provided)
  := by
  constructor
  · intro h
    unfold bearerKey? at h
    split_ifs at h with hbearer
    obtain ⟨rest, hrest⟩ := List.isPrefixOf_iff_prefix.mp hbearer
    obtain rfl := Option.some.inj h
    cases hheader : r.header? "authorization" with
    | none =>
        rw [hheader] at hrest
        simp at hrest
    | some value =>
        rw [hheader, Option.getD_some] at hrest
        have hdrop : value.toList.drop "Bearer ".toList.length = rest := by
          rw [← hrest, List.drop_left]
        rw [Option.getD_some, hdrop]
        congr 1
        apply String.toList_injective
        rw [String.toList_append, ← hrest]
        congr 1
        exact String.toList_ofList.symm
  · intro h
    rw [h, Option.getD_some, bearerKey?, String.toList_append, if_pos, List.drop_left,
      String.ofList_toList]
    apply List.isPrefixOf_iff_prefix.mpr
    apply List.prefix_append

/-! ### The lookup -/

/-- The string consists of ASCII characters. -/
def isAscii (s : String) : Bool := s.toList.all (·.toNat < 128)

theorem compareDigest_eq_some_iff {a b : String} {same : Bool} :
  compareDigest a b = some same ↔ isAscii a = true ∧ isAscii b = true ∧ (a == b) = same
  := by
  unfold compareDigest isAscii
  split_ifs with hascii
  · obtain ⟨ha, hb⟩ := Bool.and_eq_true_iff.mp hascii
    rw [Option.some.injEq]
    exact ⟨fun h => ⟨ha, hb, h⟩, fun h => h.2.2⟩
  · apply iff_of_false id
    rintro ⟨ha, hb, -⟩
    apply hascii
    rw [ha, hb]
    rfl

/-- None of the comparisons with the token raises `TypeError`: the token is ASCII, and so are
the keys before the one that equals it. -/
def Comparable (keys : Dict String ApiKeyConfig) (provided : String) : Prop :=
  isAscii provided = true ∧ ∀ e ∈ keys.takeWhile (·.1 != provided), isAscii e.1 = true

theorem comparable_cons {e : String × ApiKeyConfig} {keys : Dict String ApiKeyConfig}
    {provided : String} (hne : e.1 ≠ provided) :
  Comparable (e :: keys) provided ↔ isAscii e.1 = true ∧ Comparable keys provided
  := by
  rw [Comparable, List.takeWhile_cons_of_pos (by simpa using hne), List.forall_mem_cons,
    Comparable]
  exact and_left_comm

/-- The comparison with the first key raises only if not all comparisons are possible. -/
theorem not_comparable_of_compareDigest {storedKey provided : String} {k : ApiKeyConfig}
    {keys : Dict String ApiKeyConfig} (h : compareDigest storedKey provided = none) :
  ¬ Comparable ((storedKey, k) :: keys) provided
  := by
  intro hcomparable
  have hstored : ¬ isAscii storedKey = true := by
    intro hascii
    rw [compareDigest_eq_some_iff.mpr ⟨hascii, hcomparable.1, rfl⟩] at h
    cases h
  have hne : storedKey ≠ provided := by
    rintro rfl
    exact hstored hcomparable.1
  exact hstored ((comparable_cons hne).mp hcomparable).1

/-- The lookup raises if it compares at all and not all comparisons are possible; otherwise it
returns what the dictionary holds under the token. -/
theorem lookupKeyIn_cases (provided : String) (keys : Dict String ApiKeyConfig) :
  (lookupKeyIn provided keys = none ∧ keys ≠ [] ∧ ¬ Comparable keys provided)
    ∨ (lookupKeyIn provided keys = some (Dict.get? keys provided)
        ∧ (keys ≠ [] → Comparable keys provided))
  := by
  induction keys with
  | nil => exact .inr ⟨rfl, fun h => absurd rfl h⟩
  | cons e keys ih =>
      obtain ⟨storedKey, k⟩ := e
      rw [lookupKeyIn]
      split
      · rename_i hraises
        exact .inl ⟨rfl, List.cons_ne_nil _ _, not_comparable_of_compareDigest hraises⟩
      · rename_i hsame
        obtain ⟨-, hascii, heq⟩ := compareDigest_eq_some_iff.mp hsame
        right
        constructor
        · rw [Dict.get?_cons_of_eq (by simpa using heq)]
        · intro _
          use hascii
          rw [List.takeWhile_cons_of_neg (by simpa using heq)]
          exact List.forall_mem_nil _
      · rename_i hdiffer
        obtain ⟨hstored, hascii, hne⟩ := compareDigest_eq_some_iff.mp hdiffer
        have hdistinct : storedKey ≠ provided := by simpa using hne
        rw [comparable_cons hdistinct, Dict.get?_cons_of_ne hdistinct]
        obtain ⟨hraises, -, hincomparable⟩ | ⟨hfound, hcomparable⟩ := ih
        · exact .inl ⟨hraises, List.cons_ne_nil _ _, fun h => hincomparable h.2⟩
        · right
          use hfound
          intro _
          use hstored
          by_cases hempty : keys = []
          · rw [hempty]
            exact ⟨hascii, List.forall_mem_nil _⟩
          · exact hcomparable hempty

theorem lookupKeyIn_eq_none_iff {provided : String} {keys : Dict String ApiKeyConfig} :
  lookupKeyIn provided keys = none ↔ keys ≠ [] ∧ ¬ Comparable keys provided
  := by
  obtain ⟨hraises, h⟩ | ⟨hfound, hcomparable⟩ := lookupKeyIn_cases provided keys
  · exact iff_of_true hraises h
  · rw [hfound]
    apply iff_of_false (Option.some_ne_none _)
    exact fun h => h.2 (hcomparable h.1)

theorem get?_of_lookupKeyIn {provided : String} {keys : Dict String ApiKeyConfig}
    {found : Option ApiKeyConfig} (h : lookupKeyIn provided keys = some found) :
  Dict.get? keys provided = found
  := by
  obtain ⟨hraises, -⟩ | ⟨hfound, -⟩ := lookupKeyIn_cases provided keys
  · rw [hraises] at h
    cases h
  · exact Option.some.inj (hfound.symm.trans h)

section

variable {cfg : AuthConfig} {provided : String}

theorem mem_of_lookupKey {k : ApiKeyConfig}
    (h : (AuthManager.new cfg).lookupKey provided = some (some k)) :
  k ∈ cfg.keys ∧ k.key = provided
  := by
  have hentry := Dict.mem_of_mem_ofList (Dict.mem_of_get? (get?_of_lookupKeyIn h))
  obtain ⟨k', hk', hpair⟩ := List.mem_map.mp hentry
  obtain ⟨rfl, rfl⟩ : k'.key = provided ∧ k' = k := by simpa using hpair
  exact ⟨hk', rfl⟩

/-- Every configured key is compared with the token that is not found. -/
theorem ne_of_lookupKey (h : (AuthManager.new cfg).lookupKey provided = some none) :
  ∀ k ∈ cfg.keys, k.key ≠ provided
  := by
  intro k hk
  have hentry : (k.key, k) ∈ cfg.keys.map fun k => (k.key, k) := List.mem_map.mpr ⟨k, hk, rfl⟩
  obtain ⟨k', hk'⟩ := Dict.exists_mem_ofList hentry
  exact Dict.ne_of_get?_eq_none (get?_of_lookupKeyIn h) hk'

theorem keyMap_ne_nil (henabled : cfg.enabled = true) :
  (AuthManager.new cfg).keyMap ≠ []
  := by
  obtain ⟨k, hk⟩ := List.exists_mem_of_ne_nil _ (cfg.keysRequiredWhenEnabled henabled)
  have hentry : (k.key, k) ∈ cfg.keys.map fun k => (k.key, k) := List.mem_map.mpr ⟨k, hk, rfl⟩
  obtain ⟨k', hk'⟩ := Dict.exists_mem_ofList hentry
  exact List.ne_nil_of_mem hk'

end

/-! ### The check of the header -/

namespace AuthManager

/-- The answer 429 to a request from an address with too many failures. -/
def tooManyFailures (a : AuthManager) (r : Request) : Response :=
  .error 429 "too many authentication failures" r.requestId
    [("Retry-After", toString a.config.rateLimit.windowSeconds)]

/-- The part of `authenticate` after the check of the rate limit. -/
def checkKey (a : AuthManager) (r : Request) : Handler AuthResult :=
  match bearerKey? ((r.header? "authorization").getD "") with
  | none => unauthorized "missing or invalid authorization header" r
  | some provided => match a.lookupKey provided with
    | none => return .raised
    | some none => unauthorized "invalid api key" r
    | some (some keyCfg) => do
        ask (.clearFailures (clientIp r))
        return .passed (some keyCfg)

/-- With authentication enabled, the failures are looked at and the key is checked unless
there are too many. -/
theorem authenticate_eq {a : AuthManager} (henabled : a.config.enabled = true) (r : Request) :
  a.authenticate r = .call (.failures (clientIp r)) fun x =>
    .call (.setFailures (clientIp r) (recentFailures a.config x.1 x.2)) fun _ =>
      if a.config.rateLimit.maxFailures ≤ (recentFailures a.config x.1 x.2).length then
        .pure (.refused (a.tooManyFailures r))
      else a.checkKey r
  := by
  rw [authenticate, if_neg (by simp [henabled])]
  change Program.call _ _ = _
  congr 1
  funext x
  change Program.call _ _ = _
  congr 1
  funext _
  change (if _ then _ else _) = _
  by_cases hlimit : a.config.rateLimit.maxFailures ≤ (recentFailures a.config x.1 x.2).length
  · rw [if_pos (decide_eq_true hlimit), if_pos hlimit]
    rfl
  · rw [if_neg (by simpa using hlimit), if_neg hlimit]
    rfl

end AuthManager

/-! ### The operations of `authenticate` -/

/-- The result is no refusal with the status of a success. -/
def RefusesWithError : AuthResult → Prop
  | .refused response => response.statusCode ≠ 200
  | _ => True

variable {admits : (op : Op) → op.Answer → Prop} {h : List (Program.Event Op.Answer)}

theorem unauthorized_refuses (message : String) (r : Request) :
  Program.Sat admits (fun _ op => op.ofAuth = true) (fun _ result => RefusesWithError result) h
    (AuthManager.unauthorized message r)
  := by
  refine ⟨rfl, ?_⟩
  intro _ _ hsuccess
  cases hsuccess

/-- `authenticate` only looks at the failures and changes them, and does not refuse a request
with the status of a success. -/
theorem authenticate_refuses (a : AuthManager) (r : Request) :
  Program.Sat admits (fun _ op => op.ofAuth = true) (fun _ result => RefusesWithError result) h
    (a.authenticate r)
  := by
  by_cases henabled : a.config.enabled = true
  · rw [AuthManager.authenticate_eq henabled]
    refine ⟨rfl, fun x _ => ⟨rfl, fun _ _ => ?_⟩⟩
    split
    · intro hsuccess
      cases hsuccess
    · unfold AuthManager.checkKey
      split
      · apply unauthorized_refuses
      · split
        · trivial
        · apply unauthorized_refuses
        · refine ⟨rfl, ?_⟩
          intro _ _
          trivial
  · rw [AuthManager.authenticate, if_pos (by simpa using henabled)]
    trivial

theorem authenticate_calls (a : AuthManager) (r : Request) :
  Program.Calls (fun op => op.ofAuth = true) (a.authenticate r)
  := (authenticate_refuses (h := []) a r).calls

end OllamaQueueProxy
