import OllamaQueueProxy.Config
import OllamaQueueProxy.Library.Quote
import Mathlib.Data.List.DropRight

/-!
# The keys of a configuration

A key is given as a literal, by the name of a variable, or by the path of a file; exactly one of
these is to be used.  An entry is accepted exactly if its source can be read and does not hold
white space only, and its scope does not contradict the deprecated flag (`validate_eq_ok_iff`).
What is told of an entry depends on its key only in whether that is blank, unless the key is in a
file that is no text (`told_validate`).
-/

open Json (Text text)

namespace OllamaQueueProxy

/-! ### White space -/

/-- The characters that `str.strip` removes. -/
def isWhitespace (c : Char) : Bool :=
  let n := c.toNat
  (9 ≤ n && n ≤ 13) || (28 ≤ n && n ≤ 32) || n = 133 || n = 160 || n = 5760
    || (8192 ≤ n && n ≤ 8202) || n = 8232 || n = 8233 || n = 8239 || n = 8287 || n = 12288

/-- `str.strip`. -/
def strip (s : String) : String :=
  .ofList ((s.toList.dropWhile isWhitespace).rdropWhile isWhitespace)

/-- `not key or not key.strip()`. -/
def isBlank (s : String) : Bool := s.isEmpty || (strip s).isEmpty

/-- A string has white space only if what is left of it when it is stripped has. -/
theorem all_strip (s : String) :
  (∀ c ∈ (strip s).toList, isWhitespace c) ↔ ∀ c ∈ s.toList, isWhitespace c
  := by
  rw [strip, String.toList_ofList]
  constructor
  · intro h
    have hback : (s.toList.dropWhile isWhitespace).rdropWhile isWhitespace = [] := by
      rw [← List.rdropWhile_idempotent]
      exact List.rdropWhile_eq_nil_iff.mpr h
    have hfront : s.toList.dropWhile isWhitespace = [] := by
      rw [← List.dropWhile_idempotent]
      exact List.dropWhile_eq_nil_iff.mpr (List.rdropWhile_eq_nil_iff.mp hback)
    exact List.dropWhile_eq_nil_iff.mp hfront
  · intro h
    rw [List.dropWhile_eq_nil_iff.mpr h]
    exact fun c hc => absurd hc List.not_mem_nil

/-- A key is blank if it has white space only. -/
theorem isBlank_iff (s : String) :
  isBlank s = true ↔ ∀ c ∈ s.toList, isWhitespace c
  := by
  have hempty (t : String) (ht : t.isEmpty = true) : ∀ c ∈ t.toList, isWhitespace c := by
    rw [String.isEmpty_iff.mp ht]
    exact fun c hc => absurd hc List.not_mem_nil
  rw [isBlank, Bool.or_eq_true]
  constructor
  · rintro (hs | hstrip)
    · exact hempty s hs
    · exact (all_strip s).mp (hempty _ hstrip)
  · intro h
    right
    rw [strip, List.dropWhile_eq_nil_iff.mpr h]
    rfl

theorem isBlank_strip (s : String) :
  isBlank (strip s) = isBlank s
  := by
  rw [Bool.eq_iff_iff, isBlank_iff, isBlank_iff, all_strip]

/-! ### Numbers -/

/-- The message of a field with a number that is not as it should be. -/
def checkNumber (holds : ℤ → Bool) (message : String) (v : ℤ) : Option Text :=
  if holds v then none else some (text message ++ text (toString v))

theorem checkNumber_eq_none_iff {holds : ℤ → Bool} {message : String} {v : ℤ} :
  checkNumber holds message v = none ↔ holds v = true
  := by
  rw [checkNumber, ite_eq_left_iff]
  simp

/-- `non_negative_concurrent`. -/
def nonNegativeConcurrent : ℤ → Option Text :=
  checkNumber (fun v => 0 ≤ v) "auth.keys[].max_concurrent must be a non-negative integer, got "

/-! ### Entries -/

/-- An entry of `auth.keys`, with fields of the right types. -/
structure KeyEntry where
  key : Option String
  keyEnv : Option String
  keyFile : Option String
  clientId : String
  maxPriority : Tier
  /-- `scope`, if it is set. -/
  scope : Option Scope
  management : Bool
  maxConcurrent : ℤ

/-- What reading a file as text raises. -/
inductive ReadError where
  /-- An `OSError`, with its `strerror`. -/
  | os (strerror : Text)
  /-- A `ValueError`: the file is not in UTF-8, or the path has a null character. -/
  | value (message : Text)

/-- Where keys come from. -/
structure KeySources where
  environ : String → Option String
  readText : String → Except ReadError String
  /-- `st_mode`, unless `stat` raises an `OSError`. -/
  mode : String → Option ℕ

namespace KeyEntry

variable (unicode : Unicode) (sources : KeySources) (k : KeyEntry)

/-- How messages name an entry. -/
def shownEntry : Text := text "auth.keys[] entry for client_id=" ++ unicode.repr (text k.clientId)

/-- `reconcile_deprecated_management`: the scope of the key. -/
def reconcileDeprecatedManagement : Except Text Scope :=
  if k.management = false then .ok (k.scope.getD .inference)
  else match k.scope with
  | none | some .management => .ok .management
  | some scope => .error (k.shownEntry unicode ++ text " sets both management: true and scope: " ++
      unicode.repr (text scope.name) ++ text (", which contradict each other. `management` is " ++
        "deprecated: set scope: management on its own."))

/-- The sources that are given. -/
def given : List String :=
  [("key", k.key), ("key_env", k.keyEnv), ("key_file", k.keyFile)].filterMap
    fun (name, value) => value.map fun _ => name

/-- What the source of the entry holds. -/
def readSource : Except Text String :=
  match k.keyEnv, k.keyFile with
  | some name, _ =>
      match sources.environ name with
      | some resolved => .ok resolved
      | none => .error (k.shownEntry unicode ++ text " names key_env=" ++
          unicode.repr (text name) ++ text ", which is not set in the environment")
  | none, some path =>
      match sources.readText path with
      | .ok resolved => .ok (strip resolved)
      | .error (.os strerror) => .error (k.shownEntry unicode ++ text " names key_file=" ++
          unicode.repr (text path) ++ text ", which cannot be read: " ++ strerror)
      | .error (.value message) => .error message
  | none, none => .ok (k.key.getD "")

/-- `f"{mode:04o}"`. -/
def octal (mode : ℕ) : Text := ((Nat.toDigits 8 mode).map Char.toNat).leftpad 4 48

/-- The warning about a file that others than its owner may read. -/
def modeWarning : Option Text :=
  match k.keyEnv, k.keyFile with
  | none, some path =>
      match sources.readText path, sources.mode path with
      | .ok _, some mode =>
          if mode &&& 0o077 ≠ 0 then
            some (text "auth.keys[] key_file for client_id=" ++ unicode.repr (text k.clientId) ++
              text " is mode " ++ octal (mode &&& 0o777) ++
              text " — readable beyond its owner. Prefer 0600.")
          else none
      | _, _ => none
  | _, _ => none

/-- `resolve_key_source`: the key, and the warning that is given before anything is raised. -/
def resolveKeySource : Option Text × Except Text String :=
  match k.given with
  | [] => (none, .error (k.shownEntry unicode ++
      text " has no key: set exactly one of key, key_env or key_file"))
  | [source] =>
      (k.modeWarning unicode sources, do
        let key ← k.readSource unicode sources
        if isBlank key then
          .error (k.shownEntry unicode ++ text " resolved to an empty key from " ++ text source ++
            text ". An empty credential would authenticate no one and is never intentional")
        else .ok key)
  | sourcesGiven => (none, .error (k.shownEntry unicode ++ text " sets " ++
      (text ", ").intercalate (sourcesGiven.map text) ++
      text " — set exactly one of key, key_env or key_file"))

/-- The field of an entry that an error is about, if it is not about the entry as a whole, and the
message. -/
abbrev Error : Type := Option String × Text

/-- The validators of an entry: those of the whole entry are called if those of the fields raise
nothing, and the second one if the first one raises nothing. -/
def validate : Option Text × Except Error ApiKeyConfig :=
  match nonNegativeConcurrent k.maxConcurrent with
  | some message => (none, .error (some "max_concurrent", message))
  | none =>
      match k.reconcileDeprecatedManagement unicode with
      | .error message => (none, .error (none, message))
      | .ok scope =>
          match k.resolveKeySource unicode sources with
          | (warning, .error message) => (warning, .error (none, message))
          | (warning, .ok key) => (warning, .ok {
              key := key
              clientId := k.clientId
              maxPriority := k.maxPriority
              scope := scope
              maxConcurrent := k.maxConcurrent })

/-! ### Accepted entries -/

/-- The entry has one source, which holds the key. -/
inductive Source : String → Prop
  | literal {key : String} (hkey : k.key = some key) (henv : k.keyEnv = none)
      (hfile : k.keyFile = none) : Source key
  | environ {name key : String} (hkey : k.key = none) (henv : k.keyEnv = some name)
      (hfile : k.keyFile = none) (hset : sources.environ name = some key) : Source key
  | file {path content : String} (hkey : k.key = none) (henv : k.keyEnv = none)
      (hfile : k.keyFile = some path) (hread : sources.readText path = .ok content) :
      Source (strip content)

/-- The entry is accepted, and `c` is the key that it stands for. -/
structure Accepted (c : ApiKeyConfig) : Prop where
  concurrency : 0 ≤ k.maxConcurrent
  /-- A key that is flagged for management has no other scope. -/
  consistent : k.management = true → ∀ scope ∈ k.scope, scope = .management
  source : k.Source sources c.key
  notBlank : isBlank c.key = false
  clientId : c.clientId = k.clientId
  maxPriority : c.maxPriority = k.maxPriority
  scope : c.scope = if k.management then .management else k.scope.getD .inference
  maxConcurrent : c.maxConcurrent = k.maxConcurrent

variable {unicode sources k}

theorem reconcile_eq_ok_iff {scope : Scope} :
  k.reconcileDeprecatedManagement unicode = .ok scope ↔
    (k.management = true → ∀ scope ∈ k.scope, scope = .management)
      ∧ scope = if k.management then .management else k.scope.getD .inference
  := by
  unfold reconcileDeprecatedManagement
  cases hmanagement : k.management with
  | false => simp [eq_comm]
  | true =>
      cases hscope : k.scope with
      | none => simp [eq_comm]
      | some given => cases given <;> simp [eq_comm]

/-- A key that has a source has no other one, and it is what is read. -/
theorem readSource_of_source {key : String} (h : k.Source sources key) :
  (∃ source, k.given = [source]) ∧ k.readSource unicode sources = .ok key
  := by
  unfold given readSource
  cases h with
  | literal hkey henv hfile =>
      rw [hkey, henv, hfile]
      exact ⟨⟨"key", rfl⟩, rfl⟩
  | environ hkey henv hfile hset =>
      rw [hkey, henv, hfile]
      refine ⟨⟨"key_env", rfl⟩, ?_⟩
      dsimp only
      rw [hset]
  | file hkey henv hfile hread =>
      rw [hkey, henv, hfile]
      refine ⟨⟨"key_file", rfl⟩, ?_⟩
      dsimp only
      rw [hread]

/-- What is read of the only source that is given is a key that has a source. -/
theorem source_of_readSource {key source : String} (hgiven : k.given = [source])
    (hread : k.readSource unicode sources = .ok key) :
  k.Source sources key
  := by
  unfold given at hgiven
  unfold readSource at hread
  cases hkey : k.key <;> cases henv : k.keyEnv <;> cases hfile : k.keyFile <;>
    rw [hkey, henv, hfile] at hgiven <;> rw [henv, hfile] at hread <;>
    simp only [hkey, Option.getD_none, Option.getD_some] at hread
  case none.none.some path =>
      split at hread
      · rename_i content hcontent
        obtain rfl := Except.ok.inj hread
        exact .file hkey henv hfile hcontent
      · cases hread
      · cases hread
  case none.some.none name =>
      split at hread
      · rename_i value hset
        obtain rfl := Except.ok.inj hread
        exact .environ hkey henv hfile hset
      · cases hread
  case some.none.none value =>
      obtain rfl := Except.ok.inj hread
      exact .literal hkey henv hfile
  all_goals cases hgiven

/-- The key that is resolved is the one that the only source holds, and it is not blank. -/
theorem resolve_eq_ok_iff {key : String} :
  (k.resolveKeySource unicode sources).2 = .ok key ↔ k.Source sources key ∧ isBlank key = false
  := by
  unfold resolveKeySource
  constructor
  · intro h
    split at h
    · cases h
    · rename_i source hgiven
      cases hread : k.readSource unicode sources with
      | error message =>
          rw [hread] at h
          cases h
      | ok resolved =>
          rw [hread] at h
          change (if isBlank resolved then _ else _) = _ at h
          split_ifs at h with hblank
          obtain rfl := Except.ok.inj h
          exact ⟨source_of_readSource hgiven hread, eq_false_of_ne_true hblank⟩
    · cases h
  · rintro ⟨hsource, hblank⟩
    obtain ⟨⟨source, hgiven⟩, hread⟩ := @readSource_of_source unicode sources k key hsource
    rw [hgiven, hread]
    change (if isBlank key then _ else _) = _
    rw [if_neg (ne_true_of_eq_false hblank)]

/-- Which entries are accepted, and what they stand for. -/
theorem validate_eq_ok_iff {c : ApiKeyConfig} :
  (k.validate unicode sources).2 = .ok c ↔ k.Accepted sources c
  := by
  constructor
  · intro h
    unfold validate at h
    split at h
    · cases h
    · rename_i hconcurrency
      split at h
      · cases h
      · rename_i scope hreconcile
        split at h
        · cases h
        · rename_i warning key hresolve
          obtain rfl := Except.ok.inj h
          obtain ⟨hsource, hblank⟩ := resolve_eq_ok_iff.mp (congrArg Prod.snd hresolve)
          obtain ⟨hconsistent, hscope⟩ := reconcile_eq_ok_iff.mp hreconcile
          exact {
            concurrency := by simpa using checkNumber_eq_none_iff.mp hconcurrency
            consistent := hconsistent
            source := hsource
            notBlank := hblank
            clientId := rfl
            maxPriority := rfl
            scope := hscope
            maxConcurrent := rfl }
  · rintro ⟨hconcurrency, hconsistent, hsource, hblank, hclientId, hpriority, hscope, hmax⟩
    obtain ⟨key, clientId, maxPriority, scope, maxConcurrent⟩ := c
    dsimp only at hsource hblank hclientId hpriority hscope hmax
    subst hclientId hpriority hmax
    have hreconcile : k.reconcileDeprecatedManagement unicode = .ok scope :=
      reconcile_eq_ok_iff.mpr ⟨hconsistent, hscope⟩
    have hresolve : (k.resolveKeySource unicode sources).2 = .ok key :=
      resolve_eq_ok_iff.mpr ⟨hsource, hblank⟩
    rw [validate, nonNegativeConcurrent, checkNumber_eq_none_iff.mpr (by simpa using hconcurrency)]
    dsimp only
    rw [hreconcile]
    dsimp only
    rw [show k.resolveKeySource unicode sources
      = ((k.resolveKeySource unicode sources).1, .ok key) from Prod.ext rfl hresolve]

end KeyEntry

/-! ### What is printed -/

/-- A string that is blank if `s` is, and tells nothing else of it. -/
def mask (s : String) : String := if isBlank s then "" else "*"

theorem isBlank_mask (s : String) :
  isBlank (mask s) = isBlank s
  := by
  rw [mask]
  split_ifs with h
  · rw [h]
    rfl
  · rw [eq_false_of_ne_true h]
    rfl

/-- What reading a file comes to, with all that the file holds masked.  The message of a
`ValueError` may quote an octet of the file. -/
def maskRead : Except ReadError String → Except ReadError String
  | .ok content => .ok (mask content)
  | .error (.os strerror) => .error (.os strerror)
  | .error (.value _) => .error (.value [])

/-- The sources with all that they hold masked. -/
def KeySources.masked (sources : KeySources) : KeySources where
  environ name := (sources.environ name).map mask
  readText path := maskRead (sources.readText path)
  mode := sources.mode

def ApiKeyConfig.withoutKey (c : ApiKeyConfig) : ApiKeyConfig := { c with key := "" }

namespace KeyEntry

/-- The entry with a literal key masked. -/
def masked (k : KeyEntry) : KeyEntry := { k with key := k.key.map mask }

/-- Reading the file of the entry, if it has one, raises no `ValueError`. -/
def Decodable (sources : KeySources) (k : KeyEntry) : Prop :=
  ∀ path ∈ k.keyFile, ∀ message, sources.readText path ≠ .error (.value message)

/-- What is told of the outcome: the warning, and the error or all of the entry but the key. -/
def told (p : Option Text × Except Error ApiKeyConfig) : Option Text × Except Error ApiKeyConfig :=
  (p.1, p.2.map ApiKeyConfig.withoutKey)

variable (unicode : Unicode) (sources : KeySources) (k : KeyEntry)

/-- Masking a key does not make a difference to how its file is read. -/
theorem decodable_masked :
  k.masked.Decodable sources.masked ↔ k.Decodable sources
  := by
  have hread (outcome : Except ReadError String) :
      (∀ message, maskRead outcome ≠ .error (.value message))
        ↔ ∀ message, outcome ≠ .error (.value message) := by
    cases outcome with
    | ok content => exact iff_of_true nofun nofun
    | error e =>
        cases e with
        | os strerror => exact iff_of_true (fun _ h => by cases h) (fun _ h => by cases h)
        | value message => exact iff_of_false (fun h => h [] rfl) (fun h => h message rfl)
  exact forall₂_congr fun path _ => hread (sources.readText path)

variable {k sources}

theorem given_masked :
  k.masked.given = k.given
  := by
  unfold given masked
  cases k.key <;> rfl

theorem readSource_masked (hfile : k.Decodable sources) :
  (k.masked.readSource unicode sources.masked).map isBlank
    = (k.readSource unicode sources).map isBlank
  := by
  unfold readSource
  cases henv : k.keyEnv with
  | some name =>
      simp only [masked, KeySources.masked, henv]
      cases sources.environ name with
      | none => rfl
      | some value => exact congrArg Except.ok (isBlank_mask value)
  | none =>
      cases hpath : k.keyFile with
      | some path =>
          have hdecodable := hfile path hpath
          simp only [masked, KeySources.masked, henv, hpath]
          cases hread : sources.readText path with
          | ok content =>
              apply congrArg Except.ok
              rw [isBlank_strip, isBlank_strip, isBlank_mask]
          | error e =>
              cases e with
              | os strerror => rfl
              | value message => exact absurd hread (hdecodable message)
      | none =>
          simp only [masked, henv, hpath]
          cases k.key with
          | none => rfl
          | some key => exact congrArg Except.ok (isBlank_mask key)

theorem modeWarning_masked :
  k.masked.modeWarning unicode sources.masked = k.modeWarning unicode sources
  := by
  unfold modeWarning
  simp only [masked, KeySources.masked]
  cases k.keyEnv with
  | some name => rfl
  | none =>
      cases k.keyFile with
      | none => rfl
      | some path =>
          dsimp only
          cases sources.readText path with
          | ok content => cases sources.mode path <;> rfl
          | error e => cases e <;> rfl

/-- Whether a key is refused depends on whether it is blank only. -/
theorem resolveKeySource_masked (hfile : k.Decodable sources) :
  (k.masked.resolveKeySource unicode sources.masked).1 = (k.resolveKeySource unicode sources).1
    ∧ (k.masked.resolveKeySource unicode sources.masked).2.map (fun _ => ())
      = (k.resolveKeySource unicode sources).2.map fun _ => ()
  := by
  unfold resolveKeySource
  rw [given_masked, modeWarning_masked]
  split
  · exact ⟨rfl, rfl⟩
  · use rfl
    have hread := readSource_masked unicode hfile
    cases hresolved : k.readSource unicode sources with
    | error message =>
        cases hmasked : k.masked.readSource unicode sources.masked with
        | error message' =>
            rw [hresolved, hmasked] at hread
            rw [Except.error.inj hread]
            rfl
        | ok key' =>
            rw [hresolved, hmasked] at hread
            cases hread
    | ok key =>
        cases hmasked : k.masked.readSource unicode sources.masked with
        | error message' =>
            rw [hresolved, hmasked] at hread
            cases hread
        | ok key' =>
            rw [hresolved, hmasked] at hread
            have hblank : isBlank key' = isBlank key := Except.ok.inj hread
            change Except.map _ (if isBlank key' then _ else _)
              = Except.map _ (if isBlank key then _ else _)
            rw [hblank]
            split_ifs <;> rfl
  · exact ⟨rfl, rfl⟩

/-- What is told of an entry is what is told if its key is masked, wherever it comes from, if its
file can be decoded. -/
theorem told_validate (hfile : k.Decodable sources) :
  told (k.masked.validate unicode sources.masked) = told (k.validate unicode sources)
  := by
  have hconcurrency : k.masked.maxConcurrent = k.maxConcurrent := rfl
  have hreconcile : k.masked.reconcileDeprecatedManagement unicode
      = k.reconcileDeprecatedManagement unicode := rfl
  obtain ⟨hwarning, hkey⟩ := resolveKeySource_masked unicode hfile
  unfold validate
  rw [hconcurrency, hreconcile]
  split
  · rfl
  · split
    · rfl
    · generalize k.resolveKeySource unicode sources = p at hwarning hkey
      generalize k.masked.resolveKeySource unicode sources.masked = p' at hwarning hkey
      obtain ⟨warning, resolved⟩ := p
      obtain ⟨warning', resolved'⟩ := p'
      obtain rfl : warning' = warning := hwarning
      cases resolved <;> cases resolved' <;> cases hkey <;> rfl

end KeyEntry

end OllamaQueueProxy
