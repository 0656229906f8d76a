import OllamaQueueProxy.Handler.Enqueue
import OllamaQueueProxy.Library.JsonReader

/-!
# The injection of `keep_alive`

`_inject_keep_alive` on the octets of a body.  What is written of the document in the body is
taken to be read back as the same document (`ReadsBack`).  Then the body is returned as it is,
or a document is returned that differs from the one in the body at most in the field `keep_alive`,
and nothing more changes when this is done again, exactly when the document is not nested so
deeply that `RecursionError` is raised, which nobody catches (`injects_iff`).
-/

open Url (Octets)
open Json (Text text)

namespace OllamaQueueProxy

/-- The fields of a document with `keep_alive` injected. -/
def keepAliveFields (cfg : KeepAliveConfig) (fields : Fields) : Fields :=
  if cfg.override = true ∨ Dict.get? fields (text "keep_alive") = none then
    Dict.set fields (text "keep_alive") (.string (text cfg.default))
  else fields

/-- `json.dumps` without white space, encoded. -/
def dumpsOctets (j : Json) : Octets := Json.utf8 (j.write Json.escapeAscii)

/-- The module `json`.  Documents that are nested too deeply raise `RecursionError`, when they are
read and when they are written. -/
structure JsonModule where
  loads : Octets → Except Json.ReadError Json
  /-- How deep arrays and objects may be nested in what is written. -/
  dumpsDepth : ℕ
  loads_nil : loads [] = .error .invalid
  dumpsDepth_pos : 0 < dumpsDepth

/-- `json.dumps`, encoded; `none` if it raises `RecursionError`. -/
def JsonModule.dumps? (m : JsonModule) (j : Json) : Option Octets :=
  if j.nesting ≤ m.dumpsDepth then some (dumpsOctets j) else none

/-- The bytes that the octets are. -/
def Bytes.ofOctets (m : JsonModule) (octets : Octets) : Bytes where
  length := octets.length
  json := (m.loads octets).toOption
  json_eq_none h := by
    rw [List.eq_nil_of_length_eq_zero h, m.loads_nil]
    rfl

section

variable (m : JsonModule) (cfg : KeepAliveConfig) (maxMb : ℤ) (body : Octets)

/-- `_inject_keep_alive`; `none` if `RecursionError` leaves it. -/
def injectKeepAliveOctets : Option Octets :=
  if maxBytes maxMb < body.length then some body
  else match m.loads body with
    | .error .invalid => some body
    | .error .tooDeep => none
    | .ok (.object fields) => m.dumps? (.object (keepAliveFields cfg fields))
    | .ok _ => some body

/-- What `json.dumps` writes of the document in the body, with `keep_alive` injected, is read back
as the same document. -/
def ReadsBack : Prop :=
  ∀ fields octets, m.loads body = .ok (.object fields) →
    m.dumps? (.object (keepAliveFields cfg fields)) = some octets →
      m.loads octets = .ok (.object (keepAliveFields cfg fields))

/-- The body is longer than the limit, is no JSON, or is no object. -/
def PassesThrough : Prop :=
  maxBytes maxMb < body.length ∨ m.loads body = .error .invalid
    ∨ ∃ j, m.loads body = .ok j ∧ ∀ fields, j ≠ .object fields

/-- The body is longer than the limit, or its document is not nested too deeply to be read, and if
that is an object, none of its fields is to be written, apart from a `keep_alive` that is
overridden. -/
def Shallow : Prop :=
  maxBytes maxMb < body.length ∨ (m.loads body ≠ .error .tooDeep
    ∧ ∀ fields, m.loads body = .ok (.object fields) →
      ∀ e ∈ fields, (cfg.override = true → e.1 ≠ text "keep_alive") →
        e.2.nesting < m.dumpsDepth)

end

/-- The fields are the same, in the same order, up to `keep_alive`.  That is set to the default
if the default takes precedence or there is no other value. -/
structure KeepsFields (cfg : KeepAliveConfig) (fields fields' : Fields) : Prop where
  others : fields'.filter (fun e => e.1 ≠ text "keep_alive")
    = fields.filter fun e => e.1 ≠ text "keep_alive"
  keys : fields'.map Prod.fst = if text "keep_alive" ∈ fields.map Prod.fst
    then fields.map Prod.fst else fields.map Prod.fst ++ [text "keep_alive"]
  value : Dict.get? fields' (text "keep_alive")
    = if cfg.override = true ∨ Dict.get? fields (text "keep_alive") = none
      then some (.string (text cfg.default)) else Dict.get? fields (text "keep_alive")

/-- The body is returned as it is, or a document in its place that differs at most in the field
`keep_alive`, and doing it again changes nothing. -/
def Injects (m : JsonModule) (cfg : KeepAliveConfig) (maxMb : ℤ) (body : Octets) : Prop :=
  ∃ out, injectKeepAliveOctets m cfg maxMb body = some out
    ∧ (PassesThrough m maxMb body → out = body)
    ∧ (¬ PassesThrough m maxMb body → ∃ fields fields', m.loads body = .ok (.object fields)
      ∧ m.loads out = .ok (.object fields') ∧ KeepsFields cfg fields fields')
    ∧ injectKeepAliveOctets m cfg maxMb out = some out

variable {m : JsonModule} {cfg : KeepAliveConfig} {maxMb : ℤ} {body out : Octets}

/-! ### The fields -/

theorem keepsFields (cfg : KeepAliveConfig) (fields : Fields) :
  KeepsFields cfg fields (keepAliveFields cfg fields)
  := by
  unfold keepAliveFields
  by_cases hset : cfg.override = true ∨ Dict.get? fields (text "keep_alive") = none
  · rw [if_pos hset]
    constructor
    · apply Dict.filter_set
    · rw [Dict.keys_set]
      congr
    · rw [if_pos hset, Dict.get?_set_self]
  · rw [if_neg hset]
    constructor
    · rfl
    · obtain ⟨value, hvalue⟩ := Option.ne_none_iff_exists'.mp (not_or.mp hset).2
      rw [if_pos (List.mem_map_of_mem (Dict.mem_of_get? hvalue))]
    · rw [if_neg hset]

/-- What was injected once is not changed any more. -/
theorem keepAliveFields_idem (cfg : KeepAliveConfig) (fields : Fields) :
  keepAliveFields cfg (keepAliveFields cfg fields) = keepAliveFields cfg fields
  := by
  by_cases hset : cfg.override = true ∨ Dict.get? fields (text "keep_alive") = none
  · have hfirst : keepAliveFields cfg fields
        = Dict.set fields (text "keep_alive") (.string (text cfg.default)) := if_pos hset
    rw [hfirst, keepAliveFields]
    split
    · apply Dict.set_set
    · rfl
  · have hfirst : keepAliveFields cfg fields = fields := if_neg hset
    rw [hfirst, hfirst]

/-- The fields of the document are kept, apart from one that is overridden. -/
theorem mem_keepAliveFields {fields : Fields} {e : Json.Text × Json} :
  e ∈ keepAliveFields cfg fields
    ↔ (e ∈ fields ∧ (cfg.override = true → e.1 ≠ text "keep_alive"))
      ∨ (e = (text "keep_alive", .string (text cfg.default))
        ∧ (cfg.override = true ∨ Dict.get? fields (text "keep_alive") = none))
  := by
  unfold keepAliveFields
  split_ifs with hset
  · rw [Dict.mem_set_iff, and_iff_left hset]
    apply or_congr_left
    apply and_congr_right
    intro he
    refine ⟨fun hkey _ => hkey, fun hkey => ?_⟩
    obtain hoverride | hnone := hset
    · exact hkey hoverride
    · exact Dict.ne_of_get?_eq_none hnone he
  · have hoverride : cfg.override ≠ true := fun h => hset (.inl h)
    rw [or_iff_left fun h => hset h.2]
    simp [hoverride]

/-- The document can be written exactly if the fields that are kept can be. -/
theorem nesting_keepAliveFields {depth : ℕ} (hdepth : 0 < depth) {fields : Fields} :
  (Json.object (keepAliveFields cfg fields)).nesting ≤ depth
    ↔ ∀ e ∈ fields, (cfg.override = true → e.1 ≠ text "keep_alive") → e.2.nesting < depth
  := by
  rw [Json.nesting_object_le_iff hdepth]
  constructor
  · exact fun h e he hkept => h e (mem_keepAliveFields.mpr (.inl ⟨he, hkept⟩))
  · intro h e he
    obtain ⟨hmem, hkept⟩ | ⟨rfl, -⟩ := mem_keepAliveFields.mp he
    · exact h e hmem hkept
    · exact hdepth

/-! ### The body -/

theorem injectKeepAliveOctets_of_passesThrough (cfg : KeepAliveConfig)
    (h : PassesThrough m maxMb body) :
  injectKeepAliveOctets m cfg maxMb body = some body
  := by
  unfold injectKeepAliveOctets
  split
  · rfl
  · rename_i hfits
    obtain hlong | hinvalid | ⟨j, hj, hobject⟩ := h
    · exact absurd hlong hfits
    · rw [hinvalid]
    · rw [hj]
      cases j with
      | object fields => exact absurd rfl (hobject fields)
      | _ => rfl

theorem injectKeepAliveOctets_of_object {fields : Fields}
    (hfits : ¬ maxBytes maxMb < body.length) (hloads : m.loads body = .ok (.object fields)) :
  injectKeepAliveOctets m cfg maxMb body = m.dumps? (.object (keepAliveFields cfg fields))
  := by
  rw [injectKeepAliveOctets, if_neg hfits, hloads]

theorem injectKeepAliveOctets_of_tooDeep (hfits : ¬ maxBytes maxMb < body.length)
    (hloads : m.loads body = .error .tooDeep) :
  injectKeepAliveOctets m cfg maxMb body = none
  := by
  rw [injectKeepAliveOctets, if_neg hfits, hloads]

/-- A body passes through, is nested too deeply to be read, or is an object. -/
theorem passesThrough_cases (m : JsonModule) (maxMb : ℤ) (body : Octets) :
  PassesThrough m maxMb body ∨ (¬ PassesThrough m maxMb body ∧ ¬ maxBytes maxMb < body.length
    ∧ (m.loads body = .error .tooDeep ∨ ∃ fields, m.loads body = .ok (.object fields)))
  := by
  by_cases hpasses : PassesThrough m maxMb body
  · exact .inl hpasses
  · refine .inr ⟨hpasses, fun hlong => hpasses (.inl hlong), ?_⟩
    simp only [PassesThrough, not_or, not_exists, not_and] at hpasses
    obtain ⟨-, hvalid, hobject⟩ := hpasses
    cases hloads : m.loads body with
    | error e =>
        cases e with
        | invalid => exact absurd hloads hvalid
        | tooDeep => exact .inl rfl
    | ok j =>
        obtain ⟨fields, hfields⟩ := not_forall.mp (hobject j hloads)
        obtain rfl := not_not.mp hfields
        exact .inr ⟨fields, rfl⟩

/-- A result is there exactly when the document is not nested too deeply. -/
theorem isSome_injectKeepAliveOctets :
  (injectKeepAliveOctets m cfg maxMb body).isSome = true ↔ Shallow m cfg maxMb body
  := by
  obtain hpasses | ⟨-, hfits, htooDeep | ⟨fields, hloads⟩⟩ := passesThrough_cases m maxMb body
  · rw [injectKeepAliveOctets_of_passesThrough cfg hpasses]
    apply iff_of_true rfl
    obtain hlong | hinvalid | ⟨j, hj, hobject⟩ := hpasses
    · exact .inl hlong
    · refine .inr ⟨?_, ?_⟩
      · rw [hinvalid]
        exact nofun
      · intro fields hfields
        cases hinvalid.symm.trans hfields
    · refine .inr ⟨?_, ?_⟩
      · rw [hj]
        exact nofun
      · intro fields hfields
        exact absurd (Except.ok.inj (hj.symm.trans hfields)) (hobject fields)
  · rw [injectKeepAliveOctets_of_tooDeep hfits htooDeep]
    apply iff_of_false nofun
    rintro (hlong | ⟨hread, -⟩)
    · exact hfits hlong
    · exact hread htooDeep
  · have hwritten := @nesting_keepAliveFields cfg m.dumpsDepth m.dumpsDepth_pos fields
    rw [injectKeepAliveOctets_of_object hfits hloads, JsonModule.dumps?]
    constructor
    · intro hsome
      refine .inr ⟨?_, ?_⟩
      · rw [hloads]
        exact nofun
      · intro fields' hfields'
        obtain rfl : fields = fields' := by simpa using hloads.symm.trans hfields'
        apply hwritten.mp
        by_contra hdeep
        rw [if_neg hdeep] at hsome
        cases hsome
    · rintro (hlong | ⟨-, hfields⟩)
      · exact absurd hlong hfits
      · rw [if_pos (hwritten.mpr (hfields fields hloads))]
        rfl

/-- The injection does what it should for a body exactly when the document in it is not nested too
deeply. -/
theorem injects_iff (hback : ReadsBack m cfg body) :
  Injects m cfg maxMb body ↔ Shallow m cfg maxMb body
  := by
  rw [← isSome_injectKeepAliveOctets]
  constructor
  · rintro ⟨out, hout, -⟩
    exact Option.isSome_of_eq_some hout
  · intro hsome
    obtain ⟨out, hout⟩ := Option.isSome_iff_exists.mp hsome
    refine ⟨out, hout, ?_⟩
    obtain hpasses | ⟨hpasses, hfits, htooDeep | ⟨fields, hloads⟩⟩ :=
      passesThrough_cases m maxMb body
    · obtain rfl : body = out := by
        simpa [injectKeepAliveOctets_of_passesThrough cfg hpasses] using hout
      exact ⟨fun _ => rfl, fun h => absurd hpasses h, hout⟩
    · rw [injectKeepAliveOctets_of_tooDeep hfits htooDeep] at hout
      cases hout
    · rw [injectKeepAliveOctets_of_object hfits hloads] at hout
      have hread := hback fields out hloads hout
      refine ⟨fun h => absurd h hpasses,
        fun _ => ⟨fields, _, hloads, hread, keepsFields cfg fields⟩, ?_⟩
      -- the document may have become longer than the limit
      by_cases hlong : maxBytes maxMb < out.length
      · exact if_pos hlong
      · rw [injectKeepAliveOctets_of_object hlong hread, keepAliveFields_idem, hout]

/-! ### A module -/

/-- A module `json` for documents that are nested no deeper than the given depth. -/
def JsonModule.within (depth : ℕ) (h : 0 < depth) : JsonModule where
  loads := Json.read depth
  dumpsDepth := depth
  loads_nil := Json.read_nil depth
  dumpsDepth_pos := h

theorem keepAliveFields_readable {depth : ℕ} {fields : Fields}
    (h : Json.Readable depth (.object fields)) :
  Json.Readable depth (.object (keepAliveFields cfg fields))
  := by
  unfold keepAliveFields
  split
  · exact h.set (Json.wellFormed_text _) fun _ => .string _ (Json.wellFormed_text _)
  · exact h

/-- It reads back what it writes of any body. -/
theorem readsBack_within {depth : ℕ} (h : 0 < depth) (cfg : KeepAliveConfig) (body : Octets) :
  ReadsBack (.within depth h) cfg body
  := by
  intro fields octets hloads hwritten
  unfold JsonModule.dumps? at hwritten
  split_ifs at hwritten
  obtain rfl := Option.some.inj hwritten
  have hread : Json.read depth body = .ok (.object fields) := hloads
  exact Json.read_write (keepAliveFields_readable (Json.readable_read hread))

def modelFields : Fields := [(text "model", .string (text "m"))]

theorem readable_modelFields (depth : ℕ) :
  Json.Readable (depth + 1) (.object modelFields)
  := by
  refine .object (List.nodup_singleton _) ?_ ?_
  all_goals
    intro e he
    obtain rfl := List.mem_singleton.mp he
  · exact Json.wellFormed_text "model"
  · exact .string depth (Json.wellFormed_text "m")

/-- `json` with room for a thousand levels. -/
def sampleJson : JsonModule := .within 1000 (by decide)

/-- The field `keep_alive` is injected in a document without it. -/
theorem model_injects :
  Injects sampleJson ⟨"5m", false⟩ 50 (dumpsOctets (.object modelFields))
  := by
  have hback : ReadsBack sampleJson ⟨"5m", false⟩ (dumpsOctets (.object modelFields)) :=
    readsBack_within _ _ _
  apply (injects_iff hback).mpr
  have hloads : sampleJson.loads (dumpsOctets (.object modelFields)) = .ok (.object modelFields) :=
    Json.read_write (readable_modelFields 999)
  right
  rw [hloads]
  refine ⟨nofun, ?_⟩
  rintro fields hfields e he -
  obtain rfl : modelFields = fields := by simpa using hfields
  obtain rfl := List.mem_singleton.mp he
  exact sampleJson.dumpsDepth_pos

/-- As many arrays within each other. -/
def nestedBody (n : ℕ) : Octets := List.replicate n 91 ++ List.replicate n 93

theorem loads_nestedBody {depth n : ℕ} (hdepth : 0 < depth) (h : depth < n) :
  (JsonModule.within depth hdepth).loads (nestedBody n) = .error .tooDeep
  := by
  apply Json.read_tooDeep h
  intro b hb
  rw [List.eq_of_mem_replicate hb]
  decide

theorem length_nestedBody (n : ℕ) :
  (nestedBody n).length = n + n
  := by
  rw [nestedBody, List.length_append, List.length_replicate, List.length_replicate]

/-- Arrays that are nested too deeply are neither returned as they are nor written again. -/
theorem not_injects_nested :
  ¬ Injects sampleJson ⟨"5m", false⟩ 50 (nestedBody 100000)
  := by
  have hfits : ¬ maxBytes 50 < (nestedBody 100000).length := by
    rw [length_nestedBody]
    decide
  have hloads : sampleJson.loads (nestedBody 100000) = .error .tooDeep :=
    loads_nestedBody _ (by decide)
  rintro ⟨out, hout, -⟩
  rw [injectKeepAliveOctets_of_tooDeep hfits hloads] at hout
  cases hout

/-! ### The bytes -/

theorem ofOctets_dumpsOctets {j : Json} (h : m.loads (dumpsOctets j) = .ok j) :
  Bytes.ofOctets m (dumpsOctets j) = .dumps Json.escapeAscii j
  := by
  have hascii : ∀ c ∈ j.write Json.escapeAscii, c < 128 := fun c hc => Json.lt_of_mem_write j hc
  have hlength : (dumpsOctets j).length = Json.encodedLength (j.write Json.escapeAscii) := by
    rw [dumpsOctets, Json.length_utf8 hascii, Json.encodedLength_eq_length hascii]
  simp only [Bytes.ofOctets, Bytes.dumps, hlength, h, Except.toOption]

theorem injectKeepAlive_of_object {b : Bytes} {fields : Fields}
    (hfits : ¬ maxBytes maxMb < b.length) (hjson : b.json = some (.object fields)) :
  injectKeepAlive b cfg maxMb = .dumps Json.escapeAscii (.object (keepAliveFields cfg fields))
  := by
  rw [injectKeepAlive, if_neg hfits, hjson, keepAliveFields]
  dsimp only
  split <;> rfl

theorem injectKeepAlive_of_not_object {b : Bytes} (h : ∀ fields, b.json ≠ some (.object fields)) :
  injectKeepAlive b cfg maxMb = b
  := by
  unfold injectKeepAlive
  split
  · rfl
  · split
    · rename_i fields hjson
      exact absurd hjson (h fields)
    · rfl

/-- What the handler makes of a body is what is made of its octets, unless `RecursionError` leaves
it. -/
theorem ofOctets_injectKeepAliveOctets (hback : ReadsBack m cfg body)
    (h : injectKeepAliveOctets m cfg maxMb body = some out) :
  Bytes.ofOctets m out = injectKeepAlive (Bytes.ofOctets m body) cfg maxMb
  := by
  obtain hpasses | ⟨hpasses, hfits, htooDeep | ⟨fields, hloads⟩⟩ :=
    passesThrough_cases m maxMb body
  · rw [injectKeepAliveOctets_of_passesThrough cfg hpasses] at h
    obtain rfl := Option.some.inj h
    obtain hlong | hinvalid | ⟨j, hj, hobject⟩ := hpasses
    · exact (if_pos hlong).symm
    · symm
      apply injectKeepAlive_of_not_object
      intro fields hjson
      have hloads : (m.loads body).toOption = some (.object fields) := hjson
      rw [hinvalid] at hloads
      cases hloads
    · symm
      apply injectKeepAlive_of_not_object
      intro fields hjson
      have hloads : (m.loads body).toOption = some (.object fields) := hjson
      rw [hj] at hloads
      exact hobject fields (Option.some.inj hloads)
  · rw [injectKeepAliveOctets_of_tooDeep hfits htooDeep] at h
    cases h
  · rw [injectKeepAliveOctets_of_object hfits hloads] at h
    have hread := hback fields out hloads h
    unfold JsonModule.dumps? at h
    split_ifs at h
    obtain rfl := Option.some.inj h
    have hjson : (m.loads body).toOption = some (.object fields) := by
      rw [hloads]
      rfl
    rw [ofOctets_dumpsOctets hread, injectKeepAlive_of_object hfits hjson]

end OllamaQueueProxy
