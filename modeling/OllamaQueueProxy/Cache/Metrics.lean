import OllamaQueueProxy.Library.Cut
import OllamaQueueProxy.Library.Json
import Mathlib.Data.Set.Basic

/-!
# The metrics of the embedding cache

Hits and misses are counted by client, model and endpoint.  The three are joined by commas in
the key of a counter, and `/metrics` splits the key at its first two commas to label the
counter.  The labels are those that went in exactly when there is no comma in the client and
the model, and the client is not the empty string, which counts as missing
(`metricsAttributed_iff`).
-/

open Json (Text text)

namespace OllamaQueueProxy

/-- What a lookup in the cache is counted under. -/
structure CacheSeries where
  clientId : Option Text
  model : Text
  endpoint : Text

namespace CacheSeries

/-- The separator of the parts of a key. -/
def comma : ℕ := 44

/-- `client_id or 'anon'`. -/
def shownClient (x : CacheSeries) : Text :=
  match x.clientId with
  | some clientId => if clientId.isEmpty then text "anon" else clientId
  | none => text "anon"

/-- `_metric_key`. -/
def metricKey (x : CacheSeries) : Text :=
  x.shownClient ++ comma :: (x.model ++ comma :: x.endpoint)

/-- `label.split(",", 2)`, unpacked into the labels of the client, the model and the endpoint;
`none` when there are not three parts. -/
def splitLabel (label : Text) : Option (Text × Text × Text) :=
  match Cut.splitMax comma 2 label with
  | [clientId, model, endpoint] => some (clientId, model, endpoint)
  | _ => none

/-- The client, the model and the endpoint, with a missing client shown as `anon`. -/
def labels (x : CacheSeries) : Text × Text × Text :=
  (x.clientId.getD (text "anon"), x.model, x.endpoint)

/-- `/metrics` recovers from the keys what went into them, and no two of the series share a
counter. -/
structure MetricsAttributed (series : Set CacheSeries) : Prop where
  recovered : ∀ x ∈ series, splitLabel x.metricKey = some x.labels
  apart : ∀ x ∈ series, ∀ y ∈ series, x.metricKey = y.metricKey → x.labels = y.labels

/-- The client is not empty, and there is no comma in the client and the model. -/
structure Separable (x : CacheSeries) : Prop where
  client : ∀ clientId ∈ x.clientId, clientId ≠ [] ∧ comma ∉ clientId
  model : comma ∉ x.model

variable {x : CacheSeries}

theorem splitLabel_eq_some {label clientId model endpoint : Text} :
  splitLabel label = some (clientId, model, endpoint)
    ↔ Cut.splitMax comma 2 label = [clientId, model, endpoint]
  := by
  unfold splitLabel
  split
  · rename_i hsplit
    rw [hsplit]
    simp
  · rename_i hother
    apply iff_of_false
    · simp
    · exact hother clientId model endpoint

/-- The labels are recovered from the key of a separable series only. -/
theorem splitLabel_metricKey_iff :
  splitLabel x.metricKey = some x.labels ↔ x.Separable
  := by
  rw [labels, splitLabel_eq_some, metricKey]
  constructor
  · intro h
    obtain ⟨hnew, rest, hrest, hsplit⟩ := Cut.splitMax_eq_cons h
    obtain ⟨hmodel, -⟩ := Cut.splitMax_eq_cons hsplit
    refine ⟨?_, hmodel⟩
    intro clientId hsome
    rw [Option.mem_def.mp hsome, Option.getD_some] at hnew hrest
    refine ⟨?_, hnew⟩
    rintro rfl
    -- an empty client is shown as `anon`, which does not begin with a comma
    rw [shownClient, Option.mem_def.mp hsome] at hrest
    cases hrest
  · rintro ⟨hclient, hmodel⟩
    have hshown : x.shownClient = x.clientId.getD (text "anon") := by
      unfold shownClient
      cases hid : x.clientId with
      | none => rfl
      | some clientId =>
          have hne : clientId.isEmpty = false :=
            List.isEmpty_eq_false_iff.mpr (hclient clientId hid).1
          simp [hne]
    rw [hshown]
    apply Cut.splitMax_append_iff.mpr
    refine ⟨?_, hmodel⟩
    cases hid : x.clientId with
    | none => decide
    | some clientId => exact (hclient clientId hid).2

/-- The counters of some series are attributed to them exactly when the series are all
separable. -/
theorem metricsAttributed_iff (series : Set CacheSeries) :
  MetricsAttributed series ↔ ∀ x ∈ series, x.Separable
  := by
  constructor
  · intro h x hx
    exact splitLabel_metricKey_iff.mp (h.recovered x hx)
  · intro h
    constructor
    · intro x hx
      exact splitLabel_metricKey_iff.mpr (h x hx)
    · intro x hx y hy hsame
      have hlabels := splitLabel_metricKey_iff.mpr (h x hx)
      rw [hsame, splitLabel_metricKey_iff.mpr (h y hy)] at hlabels
      exact (Option.some.inj hlabels).symm

/-- The series of a client with a comma in its name. -/
def commaClient : CacheSeries := ⟨some (text "team,a"), text "m", text "/api/embed"⟩

/-- The series of another client and another model. -/
def commaModel : CacheSeries := ⟨some (text "team"), text "a,m", text "/api/embed"⟩

/-- The two series share a counter, whose labels are those of neither. -/
theorem not_metricsAttributed :
  commaClient.metricKey = commaModel.metricKey
    ∧ splitLabel commaClient.metricKey = some (text "team", text "a", text "m,/api/embed")
    ∧ ¬ MetricsAttributed Set.univ
  := by
  refine ⟨by decide, by decide, ?_⟩
  intro h
  have hseparable := (metricsAttributed_iff _).mp h commaModel (Set.mem_univ _)
  exact hseparable.model (by decide)

end CacheSeries

end OllamaQueueProxy
