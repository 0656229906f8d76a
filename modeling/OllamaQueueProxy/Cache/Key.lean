import OllamaQueueProxy.Handler.Operations

/-!
# The embedding cache

The keys under which `EmbeddingCache` stores the answers to embedding requests, and its
operations.  A key holds the digest of a text composed of the model and the canonical JSON
of the input.  The digest, the first 32 digits of the SHA-256 of the encoded text, is a
parameter.

The text determines the model, and the input up to the order of its fields
(`preimage?_inj`).
-/

open Url (Octets ascii)
open Json (Text text)

namespace OllamaQueueProxy

/-- `CACHEABLE_PATHS`. -/
def cacheablePaths : List Octets := [ascii "/api/embed", ascii "/api/embeddings"]

/-- The fields of a JSON object. -/
abbrev Fields : Type := Dict Text Json

/-- `extract_model`: the field `model` of a body that is a JSON object. -/
def extractModel (body : Bytes) : Option Json :=
  match body.json with
  | some (.object fields) => Dict.get? fields (text "model")
  | _ => none

/-- `extract_model(body) or ""`. -/
def cacheModel (body : Bytes) : Json :=
  match extractModel body with
  | some model => if model.truthy then model else .string []
  | none => .string []

namespace EmbeddingCache

/-- The text whose digest is part of a key.  There is none if the model is no string, or if
the text cannot be encoded. -/
def preimage? (model payload : Json) : Option Text :=
  match model with
  | .string name =>
      let preimage := name ++ 0 :: payload.canonical
      if Json.encodable preimage then some preimage else none
  | _ => none

/-- The input of a request to `/api/embed`, with a single string as a list of one. -/
def rawInput (fields : Fields) : Json :=
  match (Dict.get? fields (text "input")).getD (.string []) with
  | .string s => .array [.string s]
  | j => j

/-- The input of a request to `/api/embeddings`. -/
def prompt (fields : Fields) : Json := (Dict.get? fields (text "prompt")).getD (.string [])

/-- The input that the key of a request depends on, with the name of the endpoint. -/
def payload? (path : Octets) (fields : Fields) : Option (Text × Json) :=
  if path = ascii "/api/embed" then some (text "embed", rawInput fields)
  else if path = ascii "/api/embeddings" then some (text "embeddings", prompt fields)
  else none

variable (digest : Text → Text) (cfg : EmbeddingCacheConfig)

/-- `_cache_key`. -/
def cacheKey? (endpointNs : Text) (model payload : Json) : Option Text :=
  (preimage? model payload).map fun preimage =>
    text cfg.keyPrefix ++ text "v1:" ++ endpointNs ++ text ":" ++ digest preimage

/-- `_build_key`. -/
def buildKey? (path : Octets) (fields : Fields) (model : Json) : Option Text :=
  (payload? path fields).bind fun (endpointNs, payload) =>
    cacheKey? digest cfg endpointNs model payload

/-- `get`: the bytes stored for a request, if there are any.  An exception that the backend
raises counts as a miss. -/
def get (path : Octets) (fields : Fields) (model : Json) (clientId : Option String) :
    Handler (Option Bytes) :=
  match buildKey? digest cfg path fields model with
  | none => return none
  | some key => do
      match ← ask (.cacheGet key clientId) with
      | .ok value => return value
      | .error _ => return none

/-- `set`: the bytes of a response are stored, unless there are too many of them.  An exception
that the backend raises is ignored. -/
def set (path : Octets) (fields : Fields) (model : Json) (response : Bytes) : Handler Unit :=
  if cfg.maxEntryBytes < response.length then return ()
  else match buildKey? digest cfg path fields model with
    | none => return ()
    | some key => do
        match ← ask (.cacheSet key response) with
        | .ok _ => return ()
        | .error _ => return ()

/-! ### What a key determines -/

/-- The text determines the model and the input. -/
theorem preimage?_inj {model model' payload payload' : Json} {t : Text}
    (h : preimage? model payload = some t) (h' : preimage? model' payload' = some t) :
  model = model' ∧ payload.sort = payload'.sort
  := by
  have hmodel {model payload : Json} (h : preimage? model payload = some t) :
      ∃ name, model = .string name ∧ name ++ 0 :: payload.canonical = t := by
    unfold preimage? at h
    split at h
    · rename_i name
      simp only at h
      split_ifs at h
      exact ⟨name, rfl, Option.some.inj h⟩
    · cases h
  obtain ⟨name, rfl, ht⟩ := hmodel h
  obtain ⟨name', rfl, ht'⟩ := hmodel h'
  obtain ⟨rfl, hcanonical⟩ := Json.append_zero_inj
    (fun c hc => Json.pos_of_mem_write payload.sort hc)
    (fun c hc => Json.pos_of_mem_write payload'.sort hc) (ht.trans ht'.symm)
  exact ⟨rfl, Json.canonical_inj hcanonical⟩

theorem payload?_eq_some {path : Octets} {fields : Fields} {endpointNs : Text} {payload : Json}
    (h : payload? path fields = some (endpointNs, payload)) :
  (path = ascii "/api/embed" ∧ endpointNs = text "embed")
    ∨ (path = ascii "/api/embeddings" ∧ endpointNs = text "embeddings")
  := by
  unfold payload? at h
  split_ifs at h with hembed hembeddings
  · exact .inl ⟨hembed, (Prod.mk.inj (Option.some.inj h)).1.symm⟩
  · exact .inr ⟨hembeddings, (Prod.mk.inj (Option.some.inj h)).1.symm⟩

/-- The text whose digest is part of the key of a request. -/
def keyText? (path : Octets) (fields : Fields) (model : Json) : Option Text :=
  (payload? path fields).bind fun (_, payload) => preimage? model payload

/-- The key of a request determines its path and the digest of its text. -/
theorem buildKey?_inj {path path' : Octets} {fields fields' : Fields} {model model' : Json}
    {key : Text} (h : buildKey? digest cfg path fields model = some key)
    (h' : buildKey? digest cfg path' fields' model' = some key) :
  path = path' ∧ ∃ t t', keyText? path fields model = some t
    ∧ keyText? path' fields' model' = some t' ∧ digest t = digest t'
  := by
  have hkey {path : Octets} {fields : Fields} {model : Json}
      (h : buildKey? digest cfg path fields model = some key) :
      ∃ endpointNs t, keyText? path fields model = some t
        ∧ text cfg.keyPrefix ++ text "v1:" ++ endpointNs ++ text ":" ++ digest t = key
        ∧ ((path = ascii "/api/embed" ∧ endpointNs = text "embed")
          ∨ (path = ascii "/api/embeddings" ∧ endpointNs = text "embeddings")) := by
    obtain ⟨⟨endpointNs, payload⟩, hpayload, hbuild⟩ := Option.bind_eq_some_iff.mp h
    obtain ⟨t, ht, hdigest⟩ := Option.map_eq_some_iff.mp hbuild
    use endpointNs, t
    refine ⟨?_, hdigest, payload?_eq_some hpayload⟩
    rw [keyText?, hpayload]
    exact ht
  obtain ⟨ns, t, ht, hsame, hns⟩ := hkey h
  obtain ⟨ns', t', ht', hsame', hns'⟩ := hkey h'
  have hrest : ns ++ (text ":" ++ digest t) = ns' ++ (text ":" ++ digest t') := by
    rw [← hsame'] at hsame
    simpa only [List.append_assoc, List.append_cancel_left_eq] using hsame
  obtain ⟨hpath, rfl⟩ | ⟨hpath, rfl⟩ := hns <;> obtain ⟨hpath', rfl⟩ | ⟨hpath', rfl⟩ := hns'
  · use hpath.trans hpath'.symm, t, t', ht, ht'
    simpa using hrest
  · simp [text] at hrest
  · simp [text] at hrest
  · use hpath.trans hpath'.symm, t, t', ht, ht'
    simpa using hrest

end EmbeddingCache

end OllamaQueueProxy
