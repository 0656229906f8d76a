import Mathlib.Data.Fintype.Basic
import Mathlib.Order.Lattice

/-!
# Configuration

The sections of the configuration that the modelled code reads, with the order of the
priority tiers.
-/

namespace OllamaQueueProxy

/-! ### Tiers -/

/-- The priority tiers. -/
inductive Tier where
  | high
  | normal
  | low
  deriving DecidableEq, Repr

namespace Tier

/-- The tiers in the order in which a worker scans them. -/
def all : List Tier := [.high, .normal, .low]

theorem mem_all (t : Tier) :
  t ∈ all
  := by
  cases t <;> simp [all]

instance : Fintype Tier where
  elems := ⟨all, by decide⟩
  complete := mem_all

/-- The rank of a tier in `PRIORITY_ORDER`. -/
def rank : Tier → ℕ
  | .high => 2
  | .normal => 1
  | .low => 0

theorem rank_injective :
  Function.Injective rank
  := by
  intro s t h
  cases s <;> cases t <;> simp [rank] at h ⊢

/-- Tiers are ordered by rank. -/
instance : LinearOrder Tier where
  le s t := s.rank ≤ t.rank
  lt s t := s.rank < t.rank
  le_refl _ := Nat.le_refl _
  le_trans _ _ _ := Nat.le_trans
  lt_iff_le_not_ge _ _ := Nat.lt_iff_le_and_not_ge
  le_antisymm _ _ h h' := rank_injective (Nat.le_antisymm h h')
  le_total _ _ := Nat.le_total _ _
  toDecidableLE s t := inferInstanceAs (Decidable (s.rank ≤ t.rank))
  toDecidableEq := inferInstance

theorem lt_iff {s t : Tier} :
  s < t ↔ s.rank < t.rank
  := Iff.rfl

end Tier

/-! ### The queue section -/

structure TierConfig where
  maxDepth : ℤ
  maxWait : ℤ
  highWatermarkPct : ℤ

/-- The status codes `overflow_status_code` may have. -/
inductive OverflowStatusCode where
  | serviceUnavailable
  | tooManyRequests

def OverflowStatusCode.toNat : OverflowStatusCode → ℕ
  | .serviceUnavailable => 503
  | .tooManyRequests => 429

structure QueueConfig where
  high : TierConfig
  normal : TierConfig
  low : TierConfig
  overflowStatusCode : OverflowStatusCode
  maxQueuedMb : ℤ

namespace QueueConfig

/-- The section with its default values. -/
def default : QueueConfig where
  high := ⟨50, 120, 80⟩
  normal := ⟨100, 300, 80⟩
  low := ⟨200, 600, 80⟩
  overflowStatusCode := .serviceUnavailable
  maxQueuedMb := 512

/-- The configuration of a tier. -/
def tier (cfg : QueueConfig) : Tier → TierConfig
  | .high => cfg.high
  | .normal => cfg.normal
  | .low => cfg.low

/-- The ceiling on the total size of the waiting items, in bytes. -/
def maxQueuedBytes (cfg : QueueConfig) : ℤ := cfg.maxQueuedMb * 1024 * 1024

end QueueConfig

/-! ### The keys -/

/-- The scopes of a key, each of which includes those before it. -/
inductive Scope where
  | read
  | inference
  | management
  deriving DecidableEq

/-- The rank of a scope in `SCOPE_ORDER`. -/
def Scope.rank : Scope → ℕ
  | .read => 0
  | .inference => 1
  | .management => 2

/-- The name of a scope, its key in `SCOPE_ORDER`. -/
def Scope.name : Scope → String
  | .read => "read"
  | .inference => "inference"
  | .management => "management"

/-- An entry of `auth.keys`, with `key` and `scope` resolved. -/
structure ApiKeyConfig where
  key : String
  clientId : String
  maxPriority : Tier
  scope : Scope
  maxConcurrent : ℤ

/-- The scope of the key is at or above the required one. -/
def ApiKeyConfig.allows (k : ApiKeyConfig) (required : Scope) : Bool :=
  required.rank ≤ k.scope.rank

namespace Tier

/-- The name of a tier, its key in `PRIORITY_ORDER`. -/
def name : Tier → String
  | .high => "high"
  | .normal => "normal"
  | .low => "low"

/-- The tier of a name in lower case, one of the keys of `PRIORITY_ORDER`. -/
def ofName? : String → Option Tier
  | "high" => some .high
  | "normal" => some .normal
  | "low" => some .low
  | _ => none

end Tier

structure RateLimitConfig where
  maxFailures : ℤ
  windowSeconds : ℤ

/-- The section `auth`; a configuration that enables it without keys is refused. -/
structure AuthConfig where
  enabled : Bool
  keys : List ApiKeyConfig
  rateLimit : RateLimitConfig
  keysRequiredWhenEnabled : enabled = true → keys ≠ []

namespace AuthConfig

/-- The section with its default values. -/
def default : AuthConfig where
  enabled := false
  keys := []
  rateLimit := ⟨10, 60⟩
  keysRequiredWhenEnabled := nofun

/-- The section with a single key. -/
def ofKey (k : ApiKeyConfig) : AuthConfig where
  enabled := true
  keys := [k]
  rateLimit := ⟨10, 60⟩
  keysRequiredWhenEnabled _ := List.cons_ne_nil _ _

end AuthConfig

/-- The entry that a dictionary of the keys by `client_id` holds: the last one of the
client. -/
def AuthConfig.keyOf? (cfg : AuthConfig) (clientId : String) : Option ApiKeyConfig :=
  cfg.keys.reverse.find? fun k => k.clientId == clientId

/-! ### The hosts -/

/-- An entry of `ollama.hosts`. -/
structure HostConfig where
  url : String
  name : String
  weight : ℕ
  positiveWeight : 0 < weight

/-- The values of `routing.strategy`. -/
inductive Strategy where
  | modelAware
  | roundRobin
  deriving DecidableEq

/-! ### The other sections -/

structure ProxyConfig where
  allowModelManagement : Bool
  maxRequestBodyMb : ℤ

/-- An entry of `client_injection.listeners`. -/
structure InjectionListenerConfig where
  listenPort : ℕ
  injectAs : String

structure EmbeddingCacheConfig where
  enabled : Bool
  maxEntryBytes : ℤ
  keyPrefix : String

structure KeepAliveConfig where
  default : String
  override : Bool

/-- A configuration that was accepted. -/
structure Config where
  proxy : ProxyConfig
  auth : AuthConfig
  listeners : List InjectionListenerConfig
  embeddingCache : EmbeddingCacheConfig
  keepAlive : KeepAliveConfig
  /-- `_validate_inject_as_refs`. -/
  injectAsRefs : ∀ l ∈ listeners, ∃ k ∈ auth.keys, k.clientId = l.injectAs

/-- A configuration without listeners. -/
def Config.withoutListeners (proxy : ProxyConfig) (auth : AuthConfig)
    (embeddingCache : EmbeddingCacheConfig) (keepAlive : KeepAliveConfig) : Config where
  proxy := proxy
  auth := auth
  listeners := []
  embeddingCache := embeddingCache
  keepAlive := keepAlive
  injectAsRefs := by simp

end OllamaQueueProxy
