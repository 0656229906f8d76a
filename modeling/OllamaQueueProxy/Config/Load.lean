import OllamaQueueProxy.Config.Environment
import OllamaQueueProxy.Library.Quote

/-!
# Loading the configuration

`load_config` ends the process with a message where the file is missing, is no YAML, or is not
valid.  Between reading and validation it applies the overrides from the environment, and nothing
catches an exception there: exactly if the overrides apply to the document (`Applicable`), the
configuration is loaded or the process ends as it should (`settles_loadConfig_iff`).
-/

open Json (Text text)
open ObjectGraph

namespace OllamaQueueProxy

/-! ### Reading -/

/-- What opening the file and `yaml.safe_load` come to. -/
inductive ReadOutcome where
  | loaded (d : Document Key Scalar)
  | fileNotFound
  | yamlError (shown : Text)
  /-- Another exception: the file cannot be read or decoded, or a value cannot be constructed. -/
  | raised

/-- The scalar as a condition. -/
def Scalar.truthy : Scalar → Bool
  | .null => false
  | .bool b => b
  | .int n => n ≠ 0
  | .str t => !t.isEmpty
  | .other _ truthy => truthy

/-- The document `{}`. -/
def emptyDocument : Document Key Scalar :=
  .ofHeap (fun _ => .dict fun _ => none) (fun _ _ => rfl) fun {v s _ _} h => by
    cases v <;> cases s <;> cases h

/-- `yaml.safe_load(f) or {}`.  An empty dictionary may as well stay. -/
def orEmpty (d : Document Key Scalar) : Document Key Scalar :=
  match d.root with
  | .scalar s => if s.truthy then d else emptyDocument
  | .ref a =>
      match d.heap a with
      | .list [] => emptyDocument
      | _ => d

/-! ### Validation -/

/-- The section `auth`, as the validators see it. -/
structure AuthSettings where
  enabled : Bool
  /-- `client_id` and `max_concurrent` of the keys. -/
  keys : List (Text × ℤ)

/-- An entry of `client_injection.listeners`. -/
structure ListenerSettings where
  listenPort : ℤ
  injectAs : Text
  bind : Text

/-- The settings that the validators of the whole configuration see. -/
structure Settings where
  port : ℤ
  maxConcurrent : ℤ
  auth : AuthSettings
  listeners : List ListenerSettings
  allowPublicInjection : Bool

/-- What the types and the validators of the single fields make of a tree: the section `auth` if
it is valid in itself, and the settings, or the text of the exception. -/
structure Parsed where
  auth : Option AuthSettings
  settings : Except Text Settings

/-- A number in a message. -/
def shown (n : ℤ) : Text := text (toString n)

/-- A list of strings in a message. -/
def showList (unicode : Unicode) (ts : List Text) : Text :=
  text "[" ++ (text ", ").intercalate (ts.map unicode.repr) ++ text "]"

/-- `keys_required_when_enabled`. -/
def keysRequiredWhenEnabled (auth : AuthSettings) : Option Text :=
  if auth.enabled && auth.keys.isEmpty then
    some (text ("FATAL: auth.enabled is true but no API keys are configured. " ++
      "Add at least one key to auth.keys or set auth.enabled: false."))
  else none

/-- The first port that is in use by one of those before it. -/
def findConflict (seen : List ℤ) : List ListenerSettings → Option ℤ
  | [] => none
  | listener :: listeners =>
      if listener.listenPort ∈ seen then some listener.listenPort
      else findConflict (listener.listenPort :: seen) listeners

namespace Settings

variable (s : Settings)

/-- `_validate_injection_ports`. -/
def validateInjectionPorts : Option Text :=
  (findConflict [s.port] s.listeners).map fun port =>
    text "FATAL: client_injection.listeners[].listen_port " ++ shown port ++
      text " conflicts with another port (proxy.port or another injection listener)."

/-- `sorted(known_ids)`. -/
def knownIds : List Text := (s.auth.keys.map Prod.fst).dedup.insertionSort (· ≤ ·)

/-- `_validate_inject_as_refs`. -/
def validateInjectAsRefs (unicode : Unicode) : Option Text :=
  (s.listeners.find? fun l => !s.knownIds.contains l.injectAs).map fun l =>
    text "FATAL: client_injection.listeners[].inject_as '" ++ l.injectAs ++
      text "' does not match any auth.keys[].client_id. Known IDs: " ++
      showList unicode s.knownIds

/-- `_validate_client_max_concurrent`. -/
def validateClientMaxConcurrent : Option Text :=
  (s.auth.keys.find? fun key => s.maxConcurrent < key.2).map fun key =>
    text "FATAL: auth.keys[client_id=" ++ key.1 ++ text "].max_concurrent (" ++ shown key.2 ++
      text ") exceeds proxy.max_concurrent (" ++ shown s.maxConcurrent ++
      text "). Set max_concurrent <= " ++ shown s.maxConcurrent ++
      text " or increase proxy.max_concurrent."

/-- The address is a loopback address. -/
def isLoopback (bind : Text) : Bool :=
  [text "127.0.0.1", text "localhost", text "::1"].contains bind

/-- `_validate_public_injection_bind`. -/
def validatePublicInjectionBind : Option Text :=
  (s.listeners.find? fun l => !isLoopback l.bind && !s.allowPublicInjection).map fun l =>
    text "FATAL: client_injection.listeners[listen_port=" ++ shown l.listenPort ++
      text "].bind is '" ++ l.bind ++
      text ("' (non-loopback) but allow_public_injection is false. " ++
        "Set allow_public_injection: true to confirm exposing an unauthenticated " ++
        "injection port on the network, or change bind to 127.0.0.1.")

/-- `_warn_public_injection_no_auth`: the warning, if there is one. -/
def warnPublicInjectionNoAuth : Option Text :=
  if s.allowPublicInjection && !s.auth.enabled then
    some (text ("WARNING: allow_public_injection is true AND auth.enabled is false. " ++
      "Injection ports will bind on all interfaces with no credential check — " ++
      "any host on the network can consume queue slots under an injected identity. " ++
      "Set auth.enabled: true or restrict allow_public_injection: false."))
  else if s.listeners.any fun l => !isLoopback l.bind then
    some (text ("WARNING: one or more client_injection.listeners bind to a non-loopback " ++
      "address. Injection ports bypass Bearer auth by design — any host able to " ++
      "reach that port can consume queue slots under the injected client identity. " ++
      "Restrict access at the firewall / reverse proxy layer."))
  else none

/-- `validate_v2_constraints`: the message with which the process ends, if it does. -/
def validateV2Constraints (unicode : Unicode) : Option Text :=
  s.validateInjectionPorts.or
    ((s.validateInjectAsRefs unicode).or
      (s.validateClientMaxConcurrent.or s.validatePublicInjectionBind))

end Settings

/-! ### Loading -/

/-- How a call of `load_config` ends. -/
inductive LoadOutcome where
  /-- The configuration is returned, after a warning if there is one. -/
  | returned (config : Settings) (warning : Option Text)
  /-- `sys.exit`, after a message. -/
  | exited (status : ℕ) (message : Text)
  /-- An exception escapes: of reading, or of an override. -/
  | raised (exception : Option PyException)

variable (numerals : Numerals) (read : Text → ReadOutcome)
  (parse : Heap Key Scalar → Value Key Scalar → Parsed)

/-- `Config.model_validate`, with the exceptions that `load_config` catches. -/
def modelValidate (parsed : Parsed) : LoadOutcome :=
  match parsed.auth.bind keysRequiredWhenEnabled with
  | some message => .exited 1 message
  | none =>
      match parsed.settings with
      | .error shown => .exited 1 (text "FATAL: Config validation error: " ++ shown)
      | .ok settings =>
          match settings.validateV2Constraints numerals.toUnicode with
          | some message => .exited 1 message
          | none => .returned settings settings.warnPublicInjectionNoAuth

/-- The path of the configuration file. -/
def configPath (path : Option Text) (environ : List (Text × Text)) : Text :=
  match path with
  | some (c :: cs) => c :: cs
  | _ => (environ.lookup (text "OQP_CONFIG")).getD (text "./config.yml")

/-- `load_config`. -/
def loadConfig (path : Option Text) (environ : List (Text × Text)) : LoadOutcome :=
  match read (configPath path environ) with
  | .fileNotFound =>
      .exited 1 (text "FATAL: Config file not found: " ++ configPath path environ ++
        text ". Copy config.example.yml to config.yml and edit it.")
  | .yamlError shown => .exited 1 (text "FATAL: Config file parse error: " ++ shown)
  | .raised => .raised none
  | .loaded d =>
      match applyEnvOverrides numerals (orEmpty d).root (orEmpty d).heap environ with
      | .error exception => .raised (some exception)
      | .ok h => modelValidate numerals (parse h (orEmpty d).root)

/-- The message says that it is fatal. -/
def Fatal (message : Text) : Prop := text "FATAL: " <+: message

/-- A configuration is returned, or the process ends with status 1 after a fatal message. -/
def LoadOutcome.Settles : LoadOutcome → Prop
  | .returned _ _ => True
  | .exited status message => status = 1 ∧ Fatal message
  | .raised _ => False

/-! ### When overrides apply -/

/-- The value is a boolean, or is not made of digits, or is a number that `int` reads. -/
def Coercible (value : Text) : Prop :=
  (numerals.lower value = text "true" ∨ numerals.lower value = text "false")
    ∨ (numerals.allDigits value = true →
      value.length ≤ maxDigits ∧ ∀ c ∈ value, (numerals.decimal? c).isSome)

/-- The value of an override is put at an entry that another one has on its way. -/
def Blocks (d : Document Key Scalar) (o o' : Override) : Prop :=
  ∃ q a, q ++ [o.leaf] <+: o'.dir ∧ d.place? o.dir = some a ∧ d.place? q = some a

/-- The overrides of an environment apply to a document. -/
structure Applicable (environ : List (Text × Text)) (d : Document Key Scalar) : Prop where
  coercible : ∀ o ∈ overrides numerals environ, Coercible numerals o.value
  runsThrough : ∀ o ∈ overrides numerals environ, d.RunsThrough o.dir
  not_blocks : (overrides numerals environ).Pairwise fun o o' => ¬ Blocks d o o'

/-- Reading raises no exception but those that are caught, and the overrides apply to what was
read. -/
def ReadOutcome.Loadable (environ : List (Text × Text)) : ReadOutcome → Prop
  | .loaded d => Applicable numerals environ (orEmpty d)
  | .fileNotFound | .yamlError _ => True
  | .raised => False

variable {numerals} {environ : List (Text × Text)} {d : Document Key Scalar} {value : Text}
  {o o' : Override}

theorem isSome_int? :
  (numerals.int? value).isSome ↔
    value.length ≤ maxDigits ∧ ∀ c ∈ value, (numerals.decimal? c).isSome
  := by
  have hfold (t : Text) (acc : ℕ) :
      (t.foldlM (fun acc c => (numerals.decimal? c).map fun d => 10 * acc + d) acc).isSome ↔
        ∀ c ∈ t, (numerals.decimal? c).isSome := by
    induction t generalizing acc with
    | nil => simp
    | cons c t ih =>
        rw [List.foldlM_cons, List.forall_mem_cons]
        cases hdecimal : numerals.decimal? c with
        | none => simp
        | some n => simpa using ih _
  rw [Numerals.int?]
  split_ifs with hlength
  · simp [hlength]
  · rw [hfold, and_iff_right (Nat.le_of_not_lt hlength)]

theorem isSome_coerce? :
  (coerce? numerals value).isSome ↔ Coercible numerals value
  := by
  unfold coerce? Coercible
  split_ifs with hbool hdigits
  · simp [hbool]
  · rw [Option.isSome_map, isSome_int?]
    simp [hbool, hdigits]
  · simp [hbool, hdigits]

theorem isSome_assignment? :
  (o.assignment? numerals).isSome ↔ Coercible numerals o.value
  := by
  rw [← isSome_coerce?, Override.assignment?, Option.isSome_map]

/-- An override blocks another one exactly if its write is on the way of the other's. -/
theorem mem_steps_iff_blocks {x x' : Assignment Key Scalar} {w w' : Write Key Scalar}
    (hx : o.assignment? numerals = some x) (hx' : o'.assignment? numerals = some x')
    (hw : d.write? x = some w) (hw' : d.write? x' = some w') :
  w.loc ∈ w'.steps ↔ Blocks d o o'
  := by
  obtain ⟨_, hdir, hleaf⟩ := Override.assignment?_eq_some.mp hx
  obtain ⟨_, hdir', _⟩ := Override.assignment?_eq_some.mp hx'
  obtain ⟨hplace, hloc, _⟩ := Document.loc_of_write? hw
  rw [← Prod.mk.eta (p := w.loc), Document.mem_steps_of_write? hw', Blocks, ← hdir, ← hdir', hloc,
    hleaf, hplace]
  constructor
  · rintro ⟨q, hbegins, hq⟩
    exact ⟨q, w.loc.1, hbegins, rfl, hq⟩
  · rintro ⟨q, a, hbegins, ha, hq⟩
    exact ⟨q, hbegins, hq.trans ha.symm⟩

theorem isSome_write?_iff {x : Assignment Key Scalar} (hx : o.assignment? numerals = some x) :
  (d.write? x).isSome ↔ d.RunsThrough o.dir
  := by
  rw [Document.isSome_write?, Document.runsThrough_iff,
    (Override.assignment?_eq_some.mp hx).2.1]

/-- Overrides succeed exactly if they apply. -/
theorem applyEnvOverrides_ok_iff :
  (∃ h, applyEnvOverrides numerals d.root d.heap environ = .ok h) ↔
    Applicable numerals environ d
  := by
  simp only [applyEnvOverrides_eq_ok, Document.putAll?_heap_eq_some, isSome_coerce?,
    List.pairwise_filterMap, List.mem_filterMap]
  constructor
  · rintro ⟨h, hvalues, hwrites, hpairwise, _⟩
    have hwrite {o : Override} (ho : o ∈ overrides numerals environ) :
        ∃ x w, o.assignment? numerals = some x ∧ d.write? x = some w := by
      obtain ⟨x, hx⟩ := Option.isSome_iff_exists.mp (isSome_assignment?.mpr (hvalues o ho))
      obtain ⟨w, hw⟩ := Option.isSome_iff_exists.mp (hwrites x ⟨o, ho, hx⟩)
      exact ⟨x, w, hx, hw⟩
    refine ⟨hvalues, fun o ho => ?_, ?_⟩
    · obtain ⟨x, w, hx, hw⟩ := hwrite ho
      exact (isSome_write?_iff hx).mp (Option.isSome_iff_exists.mpr ⟨w, hw⟩)
    · refine hpairwise.imp_of_mem fun ho ho' happart hblocks => ?_
      obtain ⟨x, w, hx, hw⟩ := hwrite ho
      obtain ⟨x', w', hx', hw'⟩ := hwrite ho'
      exact happart x hx x' hx' w hw w' hw' ((mem_steps_iff_blocks hx hx' hw hw').mpr hblocks)
  · intro happlicable
    refine ⟨_, happlicable.coercible, ?_, ?_, rfl⟩
    · rintro x ⟨o, ho, hx⟩
      exact (isSome_write?_iff hx).mpr (happlicable.runsThrough o ho)
    · refine happlicable.not_blocks.imp fun hblocks x hx x' hx' w hw w' hw' hmem => ?_
      exact hblocks ((mem_steps_iff_blocks hx hx' hw hw').mp hmem)

/-! ### When loading settles -/

variable {read : Text → ReadOutcome} {parse : Heap Key Scalar → Value Key Scalar → Parsed}
  {path : Option Text} {message : Text}

instance (message : Text) : Decidable (Fatal message) := inferInstanceAs (Decidable (_ <+: _))

theorem Fatal.append (h : Fatal message) (rest : Text) :
  Fatal (message ++ rest)
  := h.trans (List.prefix_append _ _)

theorem fatal_keysRequiredWhenEnabled {auth : AuthSettings}
    (h : keysRequiredWhenEnabled auth = some message) :
  Fatal message
  := by
  unfold keysRequiredWhenEnabled at h
  split_ifs at h
  obtain rfl := Option.some.inj h
  decide +kernel

/-- The messages of the validators say that they are fatal. -/
theorem fatal_validateV2Constraints {s : Settings} {unicode : Unicode}
    (h : s.validateV2Constraints unicode = some message) :
  Fatal message
  := by
  simp only [Settings.validateV2Constraints, Option.or_eq_some_iff,
    Settings.validateInjectionPorts, Settings.validateInjectAsRefs,
    Settings.validateClientMaxConcurrent, Settings.validatePublicInjectionBind,
    Option.map_eq_some_iff] at h
  obtain ⟨_, _, rfl⟩ | ⟨_, ⟨_, _, rfl⟩ | ⟨_, ⟨_, _, rfl⟩ | ⟨_, _, _, rfl⟩⟩⟩ := h
  all_goals
    repeat apply Fatal.append
    decide

theorem settles_modelValidate (parsed : Parsed) :
  (modelValidate numerals parsed).Settles
  := by
  unfold modelValidate
  split
  · rename_i message hmessage
    obtain ⟨auth, _, hmessage⟩ := Option.bind_eq_some_iff.mp hmessage
    exact ⟨rfl, fatal_keysRequiredWhenEnabled hmessage⟩
  · split
    · exact ⟨rfl, Fatal.append (by decide) _⟩
    · split
      · rename_i hmessage
        exact ⟨rfl, fatal_validateV2Constraints hmessage⟩
      · trivial

/-- Loading settles exactly if what was read is loadable with the overrides. -/
theorem settles_loadConfig_iff (numerals : Numerals) (read : Text → ReadOutcome)
    (parse : Heap Key Scalar → Value Key Scalar → Parsed) (path : Option Text)
    (environ : List (Text × Text)) :
  (loadConfig numerals read parse path environ).Settles ↔
    (read (configPath path environ)).Loadable numerals environ
  := by
  unfold loadConfig
  cases read (configPath path environ) with
  | fileNotFound =>
      refine iff_of_true ⟨rfl, .append (.append ?_ _) _⟩ trivial
      decide
  | yamlError shown =>
      refine iff_of_true ⟨rfl, .append ?_ _⟩ trivial
      decide
  | raised => exact Iff.rfl
  | loaded d =>
      simp only [ReadOutcome.Loadable, ← applyEnvOverrides_ok_iff]
      cases applyEnvOverrides numerals (orEmpty d).root (orEmpty d).heap environ with
      | error exception =>
          refine iff_of_false id ?_
          rintro ⟨h, ⟨⟩⟩
      | ok h => exact iff_of_true (settles_modelValidate _) ⟨h, rfl⟩

/-- The objects of a file with the line `ollama:` only. -/
def nullHeap : Heap Key Scalar
  | .object 0 =>
      .dict fun key => if key = .str (text "ollama") then some (.scalar .null) else none
  | _ => .dict fun _ => none

/-- The document of the file. -/
def nullDocument : Document Key Scalar :=
  .ofHeap nullHeap (fun _ _ => rfl) fun {v s _ _} h => by
    match v, s with
    | .ref (.object 0), .key j =>
        simp only [child?, nullHeap] at h
        split_ifs at h
        cases h

/-- A variable that addresses a setting below a null section makes loading raise an exception. -/
theorem not_settles_loadConfig :
  ¬ (loadConfig .ascii (fun _ => .loaded nullDocument) (fun _ _ => ⟨none, .error []⟩) none
    [(text "OQP_OLLAMA__HEALTH_CHECK_INTERVAL", text "5")]).Settles
  := by
  change ¬ (LoadOutcome.raised (some .typeError)).Settles
  exact id

end OllamaQueueProxy
