import OllamaQueueProxy.Cache.Key
import OllamaQueueProxy.Cache.Metrics

/-!
# The counters of the embedding cache

What the cache counts for `/metrics`: hits and misses by client, model and endpoint, and
exceptions by their types.  The counters carry what `/metrics` relies on: a lookup is counted
only if a key of the cache can be built for it, and then what it is counted under can be encoded
(`isSeriesKey_of_buildKey`).
-/

open Url (Octets)
open Json (Text text)

namespace OllamaQueueProxy

/-! ### Counters -/

/-- Counters by keys. -/
structure Counter where
  entries : Dict Text ℕ
  nodup : (entries.map Prod.fst).Nodup

namespace Counter

def keys (c : Counter) : List Text := c.entries.map Prod.fst

/-- The count of a key; a key that was never counted has the count zero. -/
def value (c : Counter) (key : Text) : ℕ := (Dict.get? c.entries key).getD 0

/-- No key was counted. -/
def empty : Counter := ⟨[], List.nodup_nil⟩

/-- The key is counted. -/
def count (c : Counter) (key : Text) : Counter where
  entries := Dict.set c.entries key (c.value key + 1)
  nodup := Dict.nodup_keys_set c.nodup key _

theorem mem_keys_count {c : Counter} {key other : Text} :
  other ∈ (c.count key).keys ↔ other ∈ c.keys ∨ other = key
  := by
  rw [keys, count, Dict.keys_set]
  split_ifs with hkey
  · constructor
    · exact .inl
    · rintro (hother | rfl)
      · exact hother
      · exact hkey
  · simp [keys]

end Counter

/-! ### The keys of lookups -/

/-- A key under which lookups are counted: that of a series, and it can be encoded. -/
structure IsSeriesKey (key : Text) : Prop where
  encodable : Json.encodable key = true
  series : ∃ s : CacheSeries, s.metricKey = key

/-- What a lookup is counted under. -/
def countedSeries (path : Octets) (model : Json) (clientId : Option String) : CacheSeries where
  clientId := clientId.map text
  model := match model with
    | .string name => name
    | _ => []
  endpoint := path.map UInt8.toNat

/-- A key of the cache is built for a series that can be encoded only. -/
theorem isSeriesKey_of_buildKey {digest : Text → Text} {cfg : EmbeddingCacheConfig}
    {path : Octets} {fields : Fields} {model : Json} (clientId : Option String)
    (hkey : (EmbeddingCache.buildKey? digest cfg path fields model).isSome) :
  IsSeriesKey (countedSeries path model clientId).metricKey
  := by
  refine ⟨?_, _, rfl⟩
  obtain ⟨key, hkey⟩ := Option.isSome_iff_exists.mp hkey
  obtain ⟨⟨endpointNs, payload⟩, hpayload, hcache⟩ := Option.bind_eq_some_iff.mp hkey
  obtain ⟨preimage, hpreimage, -⟩ := Option.map_eq_some_iff.mp hcache
  have hmodel : Json.encodable (countedSeries path model clientId).model = true := by
    cases model with
    | string name =>
        rw [EmbeddingCache.preimage?] at hpreimage
        split_ifs at hpreimage with hencodable
        rw [Json.encodable, List.all_append] at hencodable
        exact (Bool.and_eq_true_iff.mp hencodable).1
    | null | bool | number | array | object => rfl
  have hendpoint : Json.encodable (countedSeries path model clientId).endpoint = true := by
    have hpaths : ∀ path ∈ cacheablePaths, Json.encodable (path.map UInt8.toNat) = true := by
      decide
    apply hpaths
    obtain ⟨rfl, -⟩ | ⟨rfl, -⟩ := EmbeddingCache.payload?_eq_some hpayload
    · exact List.mem_cons_self
    · exact List.mem_cons_of_mem _ List.mem_cons_self
  have hclient : Json.encodable (countedSeries path model clientId).shownClient = true := by
    unfold CacheSeries.shownClient
    cases clientId with
    | none => exact Json.encodable_text "anon"
    | some client =>
        change Json.encodable (if (text client).isEmpty then text "anon" else text client) = true
        split_ifs <;> apply Json.encodable_text
  have hcomma : Json.encodable [CacheSeries.comma] = true := rfl
  rw [Json.encodable] at hmodel hendpoint hclient ⊢
  rw [CacheSeries.metricKey, List.all_append, List.all_cons, List.all_append, List.all_cons, hmodel,
    hendpoint, hclient]
  rfl

/-! ### What is counted -/

/-- `hits`, `misses` and `errors`. -/
structure CacheCounters where
  hits : Counter
  misses : Counter
  errors : Counter
  series : ∀ key ∈ hits.keys ++ misses.keys, IsSeriesKey key
  kinds : ∀ kind ∈ errors.keys, Json.encodable kind = true

namespace CacheCounters

def empty : CacheCounters where
  hits := .empty
  misses := .empty
  errors := .empty
  series _ hkey := by cases hkey
  kinds _ hkind := by cases hkind

/-- A hit is counted. -/
def hit (c : CacheCounters) {key : Text} (h : IsSeriesKey key) : CacheCounters :=
  { c with
    hits := c.hits.count key
    series := by
      intro other hother
      obtain hhit | hmiss := List.mem_append.mp hother
      · obtain hold | rfl := Counter.mem_keys_count.mp hhit
        · exact c.series other (List.mem_append_left _ hold)
        · exact h
      · exact c.series other (List.mem_append_right _ hmiss) }

/-- A miss is counted. -/
def miss (c : CacheCounters) {key : Text} (h : IsSeriesKey key) : CacheCounters :=
  { c with
    misses := c.misses.count key
    series := by
      intro other hother
      obtain hhit | hmiss := List.mem_append.mp hother
      · exact c.series other (List.mem_append_left _ hhit)
      · obtain hold | rfl := Counter.mem_keys_count.mp hmiss
        · exact c.series other (List.mem_append_right _ hold)
        · exact h }

/-- An exception is counted in `_log_error`, by the name of its type. -/
def logError (c : CacheCounters) (kind : String) : CacheCounters :=
  { c with
    errors := c.errors.count (text kind)
    kinds := by
      intro other hother
      obtain hold | rfl := Counter.mem_keys_count.mp hother
      · exact c.kinds other hold
      · exact Json.encodable_text kind }

/-- What `get` counts, if the backend answers so. -/
def get (digest : Text → Text) (cfg : EmbeddingCacheConfig) (c : CacheCounters) (path : Octets)
    (fields : Fields) (model : Json) (clientId : Option String)
    (answer : Except String (Option Bytes)) : CacheCounters :=
  if hkey : (EmbeddingCache.buildKey? digest cfg path fields model).isSome then
    match answer with
    | .ok (some _) => c.hit (isSeriesKey_of_buildKey clientId hkey)
    | .ok none => c.miss (isSeriesKey_of_buildKey clientId hkey)
    | .error kind => c.logError kind
  else c

end CacheCounters

end OllamaQueueProxy
