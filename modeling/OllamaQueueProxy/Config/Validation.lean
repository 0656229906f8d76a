import OllamaQueueProxy.Config.Keys
import OllamaQueueProxy.Config.Load

/-!
# Valid configurations

The validators of the fields, of the keys and of the whole configuration accept a configuration
exactly if it is valid, and then it yields one with the invariants that the rest relies on
(`modelValidate_correct`).  The warnings and the errors of the validators tell nothing more of a
key than whether it is blank, unless it is in a file that is no text (`validators_silent`).
-/

open Json (Text text)

namespace OllamaQueueProxy

/-! ### The entries -/

/-- An entry of `ollama.hosts`, with fields of the right types. -/
structure HostEntry where
  url : String
  name : String
  weight : ℤ
  modelSyncInterval : ℤ

/-- An entry of `client_injection.listeners`, with fields of the right types. -/
structure ListenerEntry where
  listenPort : ℤ
  injectAs : String
  bind : String

/-- A configuration with fields of the right types, before the validators are called. -/
structure ConfigEntry where
  port : ℤ
  maxConcurrent : ℤ
  proxy : ProxyConfig
  hosts : List HostEntry
  authEnabled : Bool
  keys : List KeyEntry
  rateLimit : RateLimitConfig
  listeners : List ListenerEntry
  allowPublicInjection : Bool
  embeddingCache : EmbeddingCacheConfig
  keepAlive : KeepAliveConfig
  refreshSeconds : ℤ

/-! ### The validators of fields -/

/-- `positive_weight`. -/
def positiveWeight : ℤ → Option Text :=
  checkNumber (fun v => 1 ≤ v) "ollama.hosts[].weight must be a positive integer, got "

/-- `positive_sync_interval`. -/
def positiveSyncInterval : ℤ → Option Text :=
  checkNumber (fun v => 1 ≤ v) "ollama.hosts[].model_sync_interval must be >= 1 second, got "

/-- `valid_port`. -/
def validPort : ℤ → Option Text := checkNumber (fun v => 1 ≤ v ∧ v ≤ 65535) "Invalid port: "

/-- `valid_listen_port`. -/
def validListenPort : ℤ → Option Text :=
  checkNumber (fun v => 1024 ≤ v ∧ v ≤ 65535)
    "client_injection.listeners[].listen_port must be in 1024-65535, got "

/-- `positive_refresh`. -/
def positiveRefresh : ℤ → Option Text :=
  checkNumber (fun v => 1 ≤ v) "dashboard.refresh_seconds must be >= 1 second, got "

/-! ### The errors -/

/-- A step from a part of a configuration into it. -/
inductive Loc where
  | field (name : String)
  | index (i : ℕ)
  deriving DecidableEq

/-- What a validator raised, and where. -/
structure ValidationError where
  loc : List Loc
  message : Text

/-- The error of a field, if there is one. -/
def fieldErrors (loc : List Loc) (name : String) (message : Option Text) : List ValidationError :=
  message.toList.map fun message => ⟨loc ++ [.field name], message⟩

def HostEntry.errors (h : HostEntry) (loc : List Loc) : List ValidationError :=
  fieldErrors loc "weight" (positiveWeight h.weight)
    ++ fieldErrors loc "model_sync_interval" (positiveSyncInterval h.modelSyncInterval)

def KeyEntry.errors (unicode : Unicode) (sources : KeySources) (k : KeyEntry) (loc : List Loc) :
    List ValidationError :=
  match (k.validate unicode sources).2 with
  | .ok _ => []
  | .error (field, message) => [⟨loc ++ field.toList.map .field, message⟩]

def ListenerEntry.errors (l : ListenerEntry) (loc : List Loc) : List ValidationError :=
  fieldErrors loc "listen_port" (validListenPort l.listenPort)

/-- The errors of the entries of a list. -/
def listErrors {α : Type} (errors : α → List Loc → List ValidationError) (loc : List Loc)
    (xs : List α) : List ValidationError :=
  xs.zipIdx.flatMap fun (x, i) => errors x (loc ++ [.index i])

namespace ConfigEntry

variable (unicode : Unicode) (sources : KeySources) (c : ConfigEntry)

def keyErrors : List ValidationError :=
  listErrors (KeyEntry.errors unicode sources) [.field "auth", .field "keys"] c.keys

/-- The errors of all fields and entries, in order. -/
def errors : List ValidationError :=
  fieldErrors [.field "proxy"] "port" (validPort c.port)
    ++ listErrors HostEntry.errors [.field "ollama", .field "hosts"] c.hosts
    ++ c.keyErrors unicode sources
    ++ listErrors ListenerEntry.errors [.field "client_injection", .field "listeners"] c.listeners
    ++ fieldErrors [.field "dashboard"] "refresh_seconds" (positiveRefresh c.refreshSeconds)

/-- The warnings about files of keys. -/
def warnings : List Text := c.keys.filterMap fun k => (k.validate unicode sources).1

def authSettings : AuthSettings where
  enabled := c.authEnabled
  keys := c.keys.map fun k => (text k.clientId, k.maxConcurrent)

/-- What the validators of the whole configuration see. -/
def settings : Settings where
  port := c.port
  maxConcurrent := c.maxConcurrent
  auth := c.authSettings
  listeners := c.listeners.map fun l => ⟨l.listenPort, text l.injectAs, text l.bind⟩
  allowPublicInjection := c.allowPublicInjection

/-- What the validators make of the configuration, if errors are shown by `shown`. -/
def parsed (shown : List ValidationError → Text) : Parsed where
  auth := if (c.keyErrors unicode sources).isEmpty then some c.authSettings else none
  settings := if (c.errors unicode sources).isEmpty then .ok c.settings
    else .error (shown (c.errors unicode sources))

/-! ### Valid configurations -/

/-- The configuration is valid. -/
structure Valid : Prop where
  port : 1 ≤ c.port ∧ c.port ≤ 65535
  hosts : ∀ h ∈ c.hosts, 1 ≤ h.weight ∧ 1 ≤ h.modelSyncInterval
  keys : ∀ k ∈ c.keys, ∃ key, k.Accepted sources key
  keysRequiredWhenEnabled : c.authEnabled = true → c.keys ≠ []
  listenPorts : ∀ l ∈ c.listeners, 1024 ≤ l.listenPort ∧ l.listenPort ≤ 65535
  /-- All ports are different. -/
  ports : (c.port :: c.listeners.map ListenerEntry.listenPort).Nodup
  injectAsRefs : ∀ l ∈ c.listeners, ∃ k ∈ c.keys, k.clientId = l.injectAs
  clientMaxConcurrent : ∀ k ∈ c.keys, k.maxConcurrent ≤ c.maxConcurrent
  publicInjectionBind : ∀ l ∈ c.listeners,
    l.bind ∈ ["127.0.0.1", "localhost", "::1"] ∨ c.allowPublicInjection = true
  refreshSeconds : 1 ≤ c.refreshSeconds

end ConfigEntry

/-! ### When there is no error -/

section

variable {unicode : Unicode} {sources : KeySources} {c : ConfigEntry}

theorem fieldErrors_eq_nil_iff {loc : List Loc} {name : String} {message : Option Text} :
  fieldErrors loc name message = [] ↔ message = none
  := by
  cases message <;> simp [fieldErrors]

/-- There is no error in a list if there is none in its entries. -/
theorem listErrors_eq_nil_iff {α : Type} {errors : α → List Loc → List ValidationError}
    {p : α → Prop} (h : ∀ x loc, errors x loc = [] ↔ p x) {loc : List Loc} {xs : List α} :
  listErrors errors loc xs = [] ↔ ∀ x ∈ xs, p x
  := by
  rw [listErrors, List.flatMap_eq_nil_iff]
  constructor
  · intro hnil x hx
    obtain ⟨i, hi⟩ := List.getElem?_of_mem hx
    exact (h x _).mp (hnil (x, i) (List.mk_mem_zipIdx_iff_getElem?.mpr hi))
  · intro hall e he
    exact (h e.1 _).mpr (hall e.1 (List.fst_mem_of_mem_zipIdx he))

theorem HostEntry.errors_eq_nil_iff (h : HostEntry) (loc : List Loc) :
  h.errors loc = [] ↔ 1 ≤ h.weight ∧ 1 ≤ h.modelSyncInterval
  := by
  rw [errors, List.append_eq_nil_iff, fieldErrors_eq_nil_iff, fieldErrors_eq_nil_iff,
    positiveWeight, positiveSyncInterval, checkNumber_eq_none_iff, checkNumber_eq_none_iff,
    decide_eq_true_eq, decide_eq_true_eq]

theorem KeyEntry.errors_eq_nil_iff (k : KeyEntry) (loc : List Loc) :
  k.errors unicode sources loc = [] ↔ ∃ key, k.Accepted sources key
  := by
  rw [errors]
  constructor
  · intro h
    split at h
    · rename_i key hkey
      exact ⟨key, validate_eq_ok_iff.mp hkey⟩
    · cases h
  · rintro ⟨key, hkey⟩
    rw [validate_eq_ok_iff.mpr hkey]

theorem ListenerEntry.errors_eq_nil_iff (l : ListenerEntry) (loc : List Loc) :
  l.errors loc = [] ↔ 1024 ≤ l.listenPort ∧ l.listenPort ≤ 65535
  := by
  rw [errors, fieldErrors_eq_nil_iff, validListenPort, checkNumber_eq_none_iff,
    decide_eq_true_eq]

theorem keyErrors_eq_nil_iff :
  c.keyErrors unicode sources = [] ↔ ∀ k ∈ c.keys, ∃ key, k.Accepted sources key
  := listErrors_eq_nil_iff KeyEntry.errors_eq_nil_iff

theorem errors_eq_nil_iff :
  c.errors unicode sources = [] ↔ (1 ≤ c.port ∧ c.port ≤ 65535)
    ∧ (∀ h ∈ c.hosts, 1 ≤ h.weight ∧ 1 ≤ h.modelSyncInterval)
    ∧ (∀ k ∈ c.keys, ∃ key, k.Accepted sources key)
    ∧ (∀ l ∈ c.listeners, 1024 ≤ l.listenPort ∧ l.listenPort ≤ 65535) ∧ 1 ≤ c.refreshSeconds
  := by
  rw [ConfigEntry.errors, List.append_eq_nil_iff, List.append_eq_nil_iff, List.append_eq_nil_iff,
    List.append_eq_nil_iff, fieldErrors_eq_nil_iff, fieldErrors_eq_nil_iff, keyErrors_eq_nil_iff,
    listErrors_eq_nil_iff HostEntry.errors_eq_nil_iff,
    listErrors_eq_nil_iff ListenerEntry.errors_eq_nil_iff, validPort, positiveRefresh,
    checkNumber_eq_none_iff, checkNumber_eq_none_iff, decide_eq_true_eq, decide_eq_true_eq]
  tauto

/-! ### The validators of the whole configuration -/

/-- No conflict is found if the ports differ from each other and from those in use. -/
theorem findConflict_eq_none_iff {seen : List ℤ} {ls : List ListenerSettings} :
  findConflict seen ls = none
    ↔ (ls.map ListenerSettings.listenPort).Nodup ∧ ∀ l ∈ ls, l.listenPort ∉ seen
  := by
  induction ls generalizing seen with
  | nil => simp [findConflict]
  | cons l ls ih =>
      rw [findConflict, List.map_cons, List.nodup_cons, List.forall_mem_cons]
      split_ifs with hseen
      · simp [hseen]
      · rw [ih]
        simp only [List.mem_map, List.mem_cons, not_or, not_exists, not_and]
        constructor
        · rintro ⟨hnodup, hnew⟩
          exact ⟨⟨fun l' hl' => (hnew l' hl').1, hnodup⟩, hseen, fun l' hl' => (hnew l' hl').2⟩
        · rintro ⟨⟨hnew, hnodup⟩, -, hrest⟩
          exact ⟨hnodup, fun l' hl' => ⟨hnew l' hl', hrest l' hl'⟩⟩

theorem validateInjectionPorts_eq_none_iff :
  c.settings.validateInjectionPorts = none
    ↔ (c.port :: c.listeners.map ListenerEntry.listenPort).Nodup
  := by
  rw [Settings.validateInjectionPorts, Option.map_eq_none_iff, findConflict_eq_none_iff,
    List.nodup_cons]
  have hports : c.settings.listeners.map ListenerSettings.listenPort
      = c.listeners.map ListenerEntry.listenPort := by
    rw [ConfigEntry.settings, List.map_map]
    rfl
  rw [hports, and_comm]
  apply and_congr_left
  intro _
  rw [← hports]
  simp only [List.mem_singleton, List.mem_map, not_exists, not_and]
  exact Iff.rfl

theorem mem_knownIds {clientId : String} :
  text clientId ∈ c.settings.knownIds ↔ ∃ k ∈ c.keys, k.clientId = clientId
  := by
  rw [Settings.knownIds, List.mem_insertionSort, List.mem_dedup]
  simp [ConfigEntry.settings, ConfigEntry.authSettings, Json.text_injective.eq_iff]

theorem validateInjectAsRefs_eq_none_iff :
  c.settings.validateInjectAsRefs unicode = none
    ↔ ∀ l ∈ c.listeners, ∃ k ∈ c.keys, k.clientId = l.injectAs
  := by
  rw [Settings.validateInjectAsRefs, Option.map_eq_none_iff, List.find?_eq_none]
  simp only [← mem_knownIds (c := c)]
  simp [ConfigEntry.settings]

theorem validateClientMaxConcurrent_eq_none_iff :
  c.settings.validateClientMaxConcurrent = none
    ↔ ∀ k ∈ c.keys, k.maxConcurrent ≤ c.maxConcurrent
  := by
  rw [Settings.validateClientMaxConcurrent, Option.map_eq_none_iff, List.find?_eq_none]
  constructor
  · intro hnone k hk
    exact not_lt.mp fun hlt => hnone (text k.clientId, k.maxConcurrent)
      (List.mem_map_of_mem hk) (decide_eq_true hlt)
  · intro hall key hkey hlt
    obtain ⟨k, hk, rfl⟩ := List.mem_map.mp hkey
    exact not_lt.mpr (hall k hk) (of_decide_eq_true hlt)

theorem validatePublicInjectionBind_eq_none_iff :
  c.settings.validatePublicInjectionBind = none ↔ ∀ l ∈ c.listeners,
    l.bind ∈ ["127.0.0.1", "localhost", "::1"] ∨ c.allowPublicInjection = true
  := by
  have hloopback (bind : String) : Settings.isLoopback (text bind) = true
      ↔ bind ∈ ["127.0.0.1", "localhost", "::1"] := by
    simp [Settings.isLoopback, Json.text_injective.eq_iff]
  rw [Settings.validatePublicInjectionBind, Option.map_eq_none_iff, List.find?_eq_none]
  simp only [← hloopback]
  simp [ConfigEntry.settings, or_iff_not_imp_left]

theorem validateV2Constraints_eq_none_iff :
  c.settings.validateV2Constraints unicode = none
    ↔ (c.port :: c.listeners.map ListenerEntry.listenPort).Nodup
      ∧ (∀ l ∈ c.listeners, ∃ k ∈ c.keys, k.clientId = l.injectAs)
      ∧ (∀ k ∈ c.keys, k.maxConcurrent ≤ c.maxConcurrent)
      ∧ ∀ l ∈ c.listeners,
        l.bind ∈ ["127.0.0.1", "localhost", "::1"] ∨ c.allowPublicInjection = true
  := by
  rw [Settings.validateV2Constraints, Option.or_eq_none_iff, Option.or_eq_none_iff,
    Option.or_eq_none_iff, validateInjectionPorts_eq_none_iff, validateInjectAsRefs_eq_none_iff,
    validateClientMaxConcurrent_eq_none_iff, validatePublicInjectionBind_eq_none_iff]

theorem keysRequiredWhenEnabled_eq_none_iff :
  keysRequiredWhenEnabled c.authSettings = none ↔ (c.authEnabled = true → c.keys ≠ [])
  := by
  rw [keysRequiredWhenEnabled, ite_eq_right_iff]
  simp [ConfigEntry.authSettings]

/-! ### What is accepted -/

theorem modelValidate_of_valid {numerals : Numerals} {shown : List ValidationError → Text}
    (h : c.Valid sources) :
  modelValidate numerals (c.parsed numerals.toUnicode sources shown)
    = .returned c.settings c.settings.warnPublicInjectionNoAuth
  := by
  have hkeys : c.keyErrors numerals.toUnicode sources = [] := keyErrors_eq_nil_iff.mpr h.keys
  have herrors : c.errors numerals.toUnicode sources = [] :=
    errors_eq_nil_iff.mpr ⟨h.port, h.hosts, h.keys, h.listenPorts, h.refreshSeconds⟩
  have hrequired := keysRequiredWhenEnabled_eq_none_iff.mpr h.keysRequiredWhenEnabled
  have hconstraints : c.settings.validateV2Constraints numerals.toUnicode = none :=
    validateV2Constraints_eq_none_iff.mpr
      ⟨h.ports, h.injectAsRefs, h.clientMaxConcurrent, h.publicInjectionBind⟩
  simp only [modelValidate, ConfigEntry.parsed, hkeys, herrors, List.isEmpty_nil, if_true,
    Option.bind_some, hrequired, hconstraints]

/-- Only a valid configuration is returned. -/
theorem valid_of_returned {numerals : Numerals} {shown : List ValidationError → Text}
    {config : Settings} {warning : Option Text}
    (h : modelValidate numerals (c.parsed numerals.toUnicode sources shown)
      = .returned config warning) :
  c.Valid sources
  := by
  unfold modelValidate at h
  split at h
  · cases h
  · rename_i hrequired
    split at h
    · cases h
    · rename_i settings hsettings
      split at h
      · cases h
      · rename_i hconstraints
        simp only [ConfigEntry.parsed] at hsettings hrequired
        split_ifs at hsettings with herrors
        obtain rfl := Except.ok.inj hsettings
        obtain ⟨hport, hhosts, hkeys, hlistenPorts, hrefresh⟩ :=
          errors_eq_nil_iff.mp (List.isEmpty_iff.mp herrors)
        obtain ⟨hports, hrefs, hcaps, hbinds⟩ := validateV2Constraints_eq_none_iff.mp hconstraints
        rw [if_pos (List.isEmpty_iff.mpr (keyErrors_eq_nil_iff.mpr hkeys)),
          Option.bind_some] at hrequired
        exact {
          port := hport
          hosts := hhosts
          keys := hkeys
          keysRequiredWhenEnabled := keysRequiredWhenEnabled_eq_none_iff.mp hrequired
          listenPorts := hlistenPorts
          ports := hports
          injectAsRefs := hrefs
          clientMaxConcurrent := hcaps
          publicInjectionBind := hbinds
          refreshSeconds := hrefresh }

/-- The configuration that a valid one stands for. -/
structure ConfigEntry.Yields (sources : KeySources) (c : ConfigEntry) (cfg : Config) : Prop where
  proxy : cfg.proxy = c.proxy
  enabled : cfg.auth.enabled = c.authEnabled
  keys : List.Forall₂ (KeyEntry.Accepted sources) c.keys cfg.auth.keys
  rateLimit : cfg.auth.rateLimit = c.rateLimit
  listeners : cfg.listeners.map (fun l => ((l.listenPort : ℤ), l.injectAs))
    = c.listeners.map fun l => (l.listenPort, l.injectAs)
  embeddingCache : cfg.embeddingCache = c.embeddingCache
  keepAlive : cfg.keepAlive = c.keepAlive

/-- A valid configuration stands for one with the invariants that `Config` carries. -/
theorem ConfigEntry.Valid.exists_config (h : c.Valid sources) :
  ∃ cfg, c.Yields sources cfg
  := by
  have : Inhabited ApiKeyConfig := ⟨⟨"", "", .normal, .read, 0⟩⟩
  choose! key hkey using h.keys
  refine ⟨{
    proxy := c.proxy
    auth := {
      enabled := c.authEnabled
      keys := c.keys.map key
      rateLimit := c.rateLimit
      keysRequiredWhenEnabled := ?_ }
    listeners := c.listeners.map fun l => ⟨l.listenPort.toNat, l.injectAs⟩
    embeddingCache := c.embeddingCache
    keepAlive := c.keepAlive
    injectAsRefs := ?_ }, rfl, rfl, ?_, rfl, ?_, rfl, rfl⟩
  · intro henabled hnil
    exact h.keysRequiredWhenEnabled henabled (List.map_eq_nil_iff.mp hnil)
  · intro l hl
    obtain ⟨l, hlistener, rfl⟩ := List.mem_map.mp hl
    obtain ⟨k, hk, hclient⟩ := h.injectAsRefs l hlistener
    use key k, List.mem_map_of_mem hk
    exact (hkey k hk).clientId.trans hclient
  · exact List.forall₂_map_right_iff.mpr (List.forall₂_same.mpr hkey)
  · rw [List.map_map]
    apply List.map_congr_left
    intro l hl
    have hport := (h.listenPorts l hl).1
    rw [Function.comp_apply, Int.toNat_of_nonneg (by omega)]

/-- A configuration is returned, after a warning if there is one, exactly if it is valid; and then
it stands for one with the invariants that `Config` carries. -/
theorem modelValidate_correct {numerals : Numerals} {shown : List ValidationError → Text}
    {config : Settings} {warning : Option Text} :
  (modelValidate numerals (c.parsed numerals.toUnicode sources shown) = .returned config warning
    ↔ c.Valid sources ∧ config = c.settings ∧ warning = c.settings.warnPublicInjectionNoAuth)
    ∧ (c.Valid sources → ∃ cfg, c.Yields sources cfg)
  := by
  refine ⟨?_, fun h => h.exists_config⟩
  constructor
  · intro h
    have hvalid := valid_of_returned h
    rw [modelValidate_of_valid hvalid] at h
    obtain ⟨rfl, rfl⟩ := LoadOutcome.returned.inj h
    exact ⟨hvalid, rfl, rfl⟩
  · rintro ⟨hvalid, rfl, rfl⟩
    exact modelValidate_of_valid hvalid

end

/-- One variable is set, and there are no files. -/
def sampleSources : KeySources where
  environ name := if name = "OPS_KEY" then some "secret" else none
  readText _ := .error (.os (text "No such file or directory"))
  mode _ := none

/-- A configuration with a key from the environment, which is flagged for management, and a
listener that injects its client. -/
def sampleEntry : ConfigEntry where
  port := 11435
  maxConcurrent := 2
  proxy := ⟨false, 50⟩
  hosts := [⟨"http://a", "a", 1, 30⟩]
  authEnabled := true
  keys := [⟨none, some "OPS_KEY", none, "ops", .normal, none, true, 1⟩]
  rateLimit := ⟨10, 60⟩
  listeners := [⟨11436, "ops", "127.0.0.1"⟩]
  allowPublicInjection := false
  embeddingCache := ⟨false, 32768, "oqp:embed:"⟩
  keepAlive := ⟨"5m", false⟩
  refreshSeconds := 5

theorem valid_sampleEntry :
  sampleEntry.Valid sampleSources
  := by
  have hkey : ∀ k ∈ sampleEntry.keys, k.Accepted sampleSources ⟨"secret", "ops", .normal,
      .management, 1⟩ := by
    intro k hk
    obtain rfl := List.mem_singleton.mp hk
    exact {
      concurrency := by decide
      consistent := by simp
      source := .environ rfl rfl rfl rfl
      notBlank := by decide
      clientId := rfl
      maxPriority := rfl
      scope := rfl
      maxConcurrent := rfl }
  exact {
    port := by decide
    hosts := by decide
    keys := fun k hk => ⟨_, hkey k hk⟩
    keysRequiredWhenEnabled := fun _ => List.cons_ne_nil _ _
    listenPorts := by decide
    ports := by decide
    injectAsRefs := by simp [sampleEntry]
    clientMaxConcurrent := by simp [sampleEntry]
    publicInjectionBind := by simp [sampleEntry]
    refreshSeconds := by decide }

/-- The configuration is returned, without a warning. -/
theorem sampleEntry_correct :
  modelValidate .ascii (sampleEntry.parsed Numerals.ascii.toUnicode sampleSources fun _ => [])
      = .returned sampleEntry.settings none
    ∧ ∃ cfg, sampleEntry.Yields sampleSources cfg
  := by
  have hwarning : sampleEntry.settings.warnPublicInjectionNoAuth = none := by decide
  exact ⟨modelValidate_correct.1.mpr ⟨valid_sampleEntry, rfl, hwarning.symm⟩,
    (@modelValidate_correct sampleSources sampleEntry .ascii (fun _ => []) sampleEntry.settings
      none).2 valid_sampleEntry⟩

/-! ### What is printed -/

section

/-- The configuration with all literal keys masked. -/
def ConfigEntry.masked (c : ConfigEntry) : ConfigEntry :=
  { c with keys := c.keys.map KeyEntry.masked }

variable {sources : KeySources} {c : ConfigEntry}

/-- That all files can be decoded does not depend on the keys. -/
theorem decodable_masked :
  (∀ k ∈ c.masked.keys, k.Decodable sources.masked) ↔ ∀ k ∈ c.keys, k.Decodable sources
  := by
  rw [ConfigEntry.masked, List.forall_mem_map]
  exact forall₂_congr fun k _ => KeyEntry.decodable_masked sources k

theorem KeyEntry.errors_masked (unicode : Unicode) {k : KeyEntry} (hfile : k.Decodable sources) :
  k.masked.errors unicode sources.masked = k.errors unicode sources
  := by
  funext loc
  have htold := congrArg Prod.snd (told_validate unicode hfile)
  unfold errors
  simp only [told] at htold
  generalize (k.validate unicode sources).2 = outcome at htold
  generalize (k.masked.validate unicode sources.masked).2 = outcome' at htold
  cases outcome with
  | error e =>
      cases outcome' with
      | error e' =>
          rw [Except.error.inj htold]
      | ok key' => cases htold
  | ok key =>
      cases outcome' with
      | error e' => cases htold
      | ok key' => rfl

theorem keyErrors_masked (unicode : Unicode) (hfiles : ∀ k ∈ c.keys, k.Decodable sources) :
  c.masked.keyErrors unicode sources.masked = c.keyErrors unicode sources
  := by
  rw [ConfigEntry.keyErrors, ConfigEntry.keyErrors, listErrors, listErrors, ConfigEntry.masked,
    List.zipIdx_map, List.flatMap_map]
  apply List.flatMap_congr
  intro x hx
  exact congrFun (KeyEntry.errors_masked unicode (hfiles x.1 (List.fst_mem_of_mem_zipIdx hx))) _

/-- The errors are those of the masked configuration. -/
theorem errors_masked (unicode : Unicode) (hfiles : ∀ k ∈ c.keys, k.Decodable sources) :
  c.masked.errors unicode sources.masked = c.errors unicode sources
  := by
  rw [ConfigEntry.errors, keyErrors_masked unicode hfiles]
  rfl

theorem warnings_masked (unicode : Unicode) (hfiles : ∀ k ∈ c.keys, k.Decodable sources) :
  c.masked.warnings unicode sources.masked = c.warnings unicode sources
  := by
  rw [ConfigEntry.warnings, ConfigEntry.masked, List.filterMap_map]
  apply List.filterMap_congr
  intro k hk
  change (KeyEntry.told (k.masked.validate unicode sources.masked)).1
    = (KeyEntry.told (k.validate unicode sources)).1
  rw [KeyEntry.told_validate unicode (hfiles k hk)]

/-- Configurations that differ only in their keys, in literals, in the environment or in files, and
agree in which of these are blank, are not told apart by the warnings and the errors of the
validators, if the files can be decoded. -/
theorem validators_silent (unicode : Unicode) {sources sources' : KeySources} {c c' : ConfigEntry}
    (hsources : sources.masked = sources'.masked) (hentry : c.masked = c'.masked)
    (hfiles : ∀ k ∈ c.keys, k.Decodable sources) :
  c.warnings unicode sources = c'.warnings unicode sources'
    ∧ c.errors unicode sources = c'.errors unicode sources'
  := by
  have hfiles' : ∀ k ∈ c'.keys, k.Decodable sources' := by
    rw [← decodable_masked, ← hsources, ← hentry, decodable_masked]
    exact hfiles
  constructor
  · rw [← warnings_masked unicode hfiles, ← warnings_masked unicode hfiles', hsources, hentry]
  · rw [← errors_masked unicode hfiles, ← errors_masked unicode hfiles', hsources, hentry]

end

/-- A configuration with an entry that has a literal key and the name of a variable. -/
def ambiguousEntry (key : String) : ConfigEntry :=
  { sampleEntry with keys := [⟨some key, some "OPS_KEY", none, "ops", .normal, none, true, 1⟩] }

/-- The error does not tell which key it is. -/
theorem ambiguousEntry_silent :
  (ambiguousEntry "secret").errors .ascii sampleSources
    = (ambiguousEntry "another one").errors .ascii sampleSources
  := by
  refine (validators_silent .ascii rfl ?_ ?_).2
  · have hmask : mask "secret" = mask "another one" := by decide
    simp only [ConfigEntry.masked, ambiguousEntry, List.map_cons, List.map_nil, KeyEntry.masked,
      Option.map_some, hmask]
  · intro k hk path hpath
    obtain rfl := List.mem_singleton.mp hk
    cases hpath

end OllamaQueueProxy
