import OllamaQueueProxy.Cache.Key
import OllamaQueueProxy.Library.JsonOrder

/-!
# The octets behind a cache key

`_cache_key` hashes the octets of the model, a null byte and the octets of the canonical JSON of
the payload.  The model may hold null bytes of its own, but the canonical JSON has none, so that
the last null byte separates the two.
-/

open Url (Octets)
open Json (Text text encode?)

namespace OllamaQueueProxy

namespace EmbeddingCache

/-- `_canonical_json`. -/
def canonicalJson? (obj : Json) : Option Octets := encode? obj.canonical

/-- `preimage` of `_cache_key`, unless encoding raises an exception. -/
def preimageOctets? (model : Text) (payload : Json) : Option Octets := do
  let encoded ← encode? model
  let canonical ← canonicalJson? payload
  return encoded ++ 0 :: canonical

variable {model model' : Text} {payload payload' : Json}

/-- The octets are those of the text, with a null character between its parts. -/
theorem preimageOctets?_eq (model : Text) (payload : Json) :
  preimageOctets? model payload = encode? (model ++ 0 :: payload.canonical)
  := by
  have hzero : encode? [0] = some [0] := by decide
  rw [← List.singleton_append, Json.encode?_append, Json.encode?_append, hzero]
  rw [preimageOctets?, canonicalJson?]
  cases encode? payload.canonical <;> simp

/-- The text of a key has the octets that are hashed. -/
theorem encode?_of_preimage? {t : Text} (h : preimage? (.string model) payload = some t) :
  encode? t = preimageOctets? model payload
  := by
  simp only [preimage?] at h
  split_ifs at h
  rw [preimageOctets?_eq, ← Option.some.inj h]

/-- The octets determine the model, and the payload up to the order of fields. -/
theorem preimageOctets?_eq_iff (hdistinct : payload'.Distinct)
    (h : (preimageOctets? model payload).isSome = true)
    (h' : (preimageOctets? model' payload').isSome = true) :
  preimageOctets? model payload = preimageOctets? model' payload' ↔
    model = model' ∧ payload.Same payload'
  := by
  constructor
  · intro hsame
    obtain ⟨octets, hoctets⟩ := Option.isSome_iff_exists.mp h
    have hoctets' := hsame ▸ hoctets
    rw [preimageOctets?_eq] at hoctets hoctets'
    obtain ⟨hmodel, hcanonical⟩ := Json.append_zero_inj
      (fun _ => Json.pos_of_mem_write payload.sort) (fun _ => Json.pos_of_mem_write payload'.sort)
      (Json.encode?_inj hoctets hoctets')
    exact ⟨hmodel, (Json.canonical_eq_iff hdistinct).mp hcanonical⟩
  · rintro ⟨rfl, hsame⟩
    rw [preimageOctets?, preimageOctets?, canonicalJson?, canonicalJson?,
      (Json.canonical_eq_iff hdistinct).mpr hsame]

/-- Two orders of the fields of a payload, for a model with a null character. -/
theorem preimageOctets?_eq_iff_fields :
  (preimageOctets? (text "m" ++ [0])
      (.object [(text "a", .string (text "é")), (text "b", .array [.null])]) =
    preimageOctets? (text "m" ++ [0])
      (.object [(text "b", .array [.null]), (text "a", .string (text "é"))])) ↔
    text "m" ++ [0] = text "m" ++ [0]
      ∧ Json.Same (.object [(text "a", .string (text "é")), (text "b", .array [.null])])
        (.object [(text "b", .array [.null]), (text "a", .string (text "é"))])
  := by
  refine preimageOctets?_eq_iff ?_ (by decide) (by decide)
  simp only [Json.Distinct, Json.DistinctFields, Json.DistinctElements]
  decide

end EmbeddingCache

end OllamaQueueProxy
