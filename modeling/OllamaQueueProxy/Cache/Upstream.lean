import OllamaQueueProxy.Handler.Ports

/-!
# The answers of the upstream server

The upstream server answers a request as a function of its path and of the fields of its
body other than `keep_alive`; a single string as `input` stands for a list of one.  What a
port answers with, when the upstream server answers the request that is passed on
successfully, is then a function of the request (`answerContent?`).  The injection of
`keep_alive` changes neither that nor the key of the cache (`relevant_outgoingBody`,
`entryKey?_outgoingBody`).
-/

open Url (Octets ascii)
open Json (Text text)

namespace OllamaQueueProxy

/-- A field as the upstream server reads it. -/
def readField (field : Text × Json) : Text × Json :=
  match field with
  | (key, .string s) => if key = text "input" then (key, .array [.string s]) else (key, .string s)
  | _ => field

/-- The fields on which the answer of the upstream server depends, in a fixed order. -/
def relevantFields (fields : Fields) : Json :=
  (Json.object ((fields.filter fun f => f.1 ≠ text "keep_alive").map readField)).sort

/-- The fields on which the answer to a body depends; a body that is no object has none. -/
def relevant (body : Bytes) : Json :=
  match body.json with
  | some (.object fields) => relevantFields fields
  | _ => relevantFields []

/-- What the upstream server successfully answers to the relevant fields on a path. -/
abbrev Upstream : Type := Octets → Json → Content

/-- The successful answer to a call of `dispatch_request`. -/
def Upstream.content (up : Upstream) (c : DispatchCall) : Content := up c.path (relevant c.body)

/-- What the compatibility layer makes of a successful answer; `none` if it raises an
exception. -/
def wrapContent? : Content → Option Content
  | .json j => (wrapResponse j).map .json
  | .stream => some .stream

/-- A request that arrives on a port. -/
structure Arrival where
  port : Port
  request : Request

namespace Arrival

/-- The path that takes the place of the one of the request. -/
def pathOverride (a : Arrival) : Option Octets :=
  match a.port with
  | .main => a.request.nativePath
  | .injection _ _ => none

def path (a : Arrival) : Octets := a.pathOverride.getD a.request.urlPath

/-- What the upstream server successfully answers to the request. -/
def content (up : Upstream) (a : Arrival) : Content := up a.path (relevant a.request.body)

/-- What the port answers with when the upstream server answers successfully; `none` if an
exception is raised. -/
def answerContent? (up : Upstream) (a : Arrival) : Option Content :=
  match a.pathOverride with
  | some _ => wrapContent? (a.content up)
  | none => some (a.content up)

end Arrival

/-- The key under which the answer to a body is stored. -/
def entryKey? (digest : Text → Text) (cfg : EmbeddingCacheConfig) (path : Octets)
    (body : Bytes) : Option Text :=
  (toCache? cfg path body).bind fun e =>
    EmbeddingCache.buildKey? digest cfg e.path e.fields e.model

/-- The key under which the answer to a request is stored. -/
def Arrival.key? (digest : Text → Text) (cfg : EmbeddingCacheConfig) (a : Arrival) :
    Option Text :=
  entryKey? digest cfg a.path a.request.body

/-! ### The injection of `keep_alive` -/

/-- The body that is sent upstream is the one of the request, up to the field
`keep_alive`. -/
theorem json_outgoingBody (cfg : Config) (path : Octets) (body : Bytes) :
  (outgoingBody cfg path body).json = body.json ∨ ∃ fields value,
    body.json = some (.object fields)
      ∧ (outgoingBody cfg path body).json
        = some (.object (Dict.set fields (text "keep_alive") value))
  := by
  unfold outgoingBody injectKeepAlive
  split
  · split
    · exact .inl rfl
    · split
      · rename_i fields hfields
        split
        · exact .inr ⟨fields, _, hfields, rfl⟩
        · exact .inl hfields.symm
      · exact .inl rfl
  · exact .inl rfl

theorem relevantFields_set (fields : Fields) (value : Json) :
  relevantFields (Dict.set fields (text "keep_alive") value) = relevantFields fields
  := by
  unfold relevantFields
  rw [Dict.filter_set]

theorem relevant_outgoingBody (cfg : Config) (path : Octets) (body : Bytes) :
  relevant (outgoingBody cfg path body) = relevant body
  := by
  obtain hsame | ⟨fields, value, hbody, hsent⟩ := json_outgoingBody cfg path body
  · rw [relevant, hsame, relevant]
  · rw [relevant, relevant, hbody, hsent]
    exact relevantFields_set fields value

theorem payload?_set (path : Octets) (fields : Fields) (value : Json) :
  EmbeddingCache.payload? path (Dict.set fields (text "keep_alive") value)
    = EmbeddingCache.payload? path fields
  := by
  unfold EmbeddingCache.payload? EmbeddingCache.rawInput EmbeddingCache.prompt
  rw [Dict.get?_set_of_ne _ (by decide), Dict.get?_set_of_ne _ (by decide)]

theorem cacheModel_congr {body body' : Bytes} (h : extractModel body = extractModel body') :
  cacheModel body = cacheModel body'
  := by
  unfold cacheModel
  rw [h]

/-- The injection of `keep_alive` does not affect the key. -/
theorem entryKey?_outgoingBody (digest : Text → Text) (cfg : Config) (path : Octets)
    (body : Bytes) :
  entryKey? digest cfg.embeddingCache path (outgoingBody cfg path body)
    = entryKey? digest cfg.embeddingCache path body
  := by
  unfold entryKey? toCache?
  obtain hsame | ⟨fields, value, hbody, hsent⟩ := json_outgoingBody cfg path body
  · have hmodel : cacheModel (outgoingBody cfg path body) = cacheModel body := by
      apply cacheModel_congr
      unfold extractModel
      rw [hsame]
    rw [hsame, hmodel]
  · have hmodel : cacheModel (outgoingBody cfg path body) = cacheModel body := by
      apply cacheModel_congr
      unfold extractModel
      rw [hbody, hsent]
      exact Dict.get?_set_of_ne fields (by decide) value
    rw [hbody, hsent, hmodel]
    simp only [Option.getD_some]
    split
    · simp only [Option.bind_some, EmbeddingCache.buildKey?, payload?_set]
    · rfl

end OllamaQueueProxy
