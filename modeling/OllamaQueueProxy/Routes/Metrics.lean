import OllamaQueueProxy.Cache.Counters
import OllamaQueueProxy.Concurrency.Manager
import OllamaQueueProxy.Library.Exposition
import OllamaQueueProxy.Queue.Manager
import OllamaQueueProxy.Routes.Labels
import OllamaQueueProxy.Routing.Selection

/-!
# The metrics

`/metrics` exposes the state of the queue, the hosts, the clients and the embedding cache.  It
always answers: the keys of the cache have their parts, and the text can be encoded.  A scraper
that reads the text gets back the samples that went into it, whatever the names of hosts,
clients and models are; no series has two samples; and where lookups in the cache were counted,
there is a series of hits (`metrics_correct`).
-/

open Url (Octets)
open Json (Text text)
open Transition

namespace OllamaQueueProxy

/-! ### The exposition -/

/-- What `/metrics` reads.  The clients of the concurrency manager are those of the keys. -/
structure MetricsState (δ ρ ε κ : Type) (n : ℕ) where
  queueManager : PriorityQueueManager δ ρ ε n
  routingTable : RoutingTable
  keys : List ApiKeyConfig
  concurrencyManager : Option (ClientConcurrencyManager κ)
  embeddingCache : Option CacheCounters
  /-- `int(uptime)`. -/
  uptime : ℤ

/-- The samples of a metric, by their labels. -/
structure Family where
  metric : String
  doc : String
  kind : String
  samples : List (List (String × Text) × ℤ)

namespace Family

/-- A sample of the metric. -/
def line (f : Family) (sample : List (String × Text) × ℤ) : Exposition.Line :=
  .sample (text f.metric) (sample.1.map fun (label, v) => (text label, v)) sample.2

/-- The two lines that describe the metric, and those of its samples. -/
def lines (f : Family) : List Exposition.Line :=
  .help (text f.metric) (text f.doc) :: .type (text f.metric) (text f.kind)
    :: f.samples.map f.line

end Family

/-- `client_id, model, endpoint = label.split(",", 2)`, as labels. -/
def cacheLabels? (label : Text) : Option (List (String × Text)) :=
  (CacheSeries.splitLabel label).map fun (clientId, model, endpoint) =>
    [("client", clientId), ("model", model), ("endpoint", endpoint)]

/-- The samples of counters of the cache; `none` if a key has not three parts. -/
def cacheSamples? (entries : Dict Text ℕ) : Option (List (List (String × Text) × ℤ)) :=
  entries.mapM fun (label, count) => (cacheLabels? label).map fun labels => (labels, (count : ℤ))

/-- The hits, with a zero for every label that has misses only. -/
def shownHits (c : CacheCounters) : Dict Text ℕ :=
  c.hits.entries ++ (c.misses.keys.filter fun label => !c.hits.keys.contains label).map fun label =>
    (label, 0)

namespace MetricsState

variable {δ ρ ε κ : Type} {n : ℕ} (x : MetricsState δ ρ ε κ n)

/-- A sample for every tier. -/
def tierSamples (value : Tier → ℕ) : List (List (String × Text) × ℤ) :=
  Tier.all.map fun t => ([("tier", text t.name)], (value t : ℤ))

/-- A sample for every host. -/
def hostSamples (label : String) (value : HostRoutingState → ℕ) :
    List (List (String × Text) × ℤ) :=
  x.routingTable.states.map fun st => ([(label, text st.name)], (value st : ℤ))

/-- A sample for every client of the keys that the manager counts for. -/
def clientSamples (value : String → Option ℕ) : List (List (String × Text) × ℤ) :=
  (Dict.ofList (x.keys.map fun k => (k.clientId, ()))).filterMap fun (c, _) =>
    (value c).map fun count : ℕ => ([("client_id", text c)], (count : ℤ))

def queueFamilies : List Family := [
  ⟨"oqp_queue_depth", "Current number of requests waiting in queue", "gauge",
    tierSamples x.queueManager.queueDepths⟩,
  ⟨"oqp_queue_processed_total", "Total requests dispatched from queue", "counter",
    tierSamples fun t => (x.queueManager.stats t).processed⟩,
  ⟨"oqp_queue_rejected_total", "Requests rejected due to full queue", "counter",
    tierSamples fun t => (x.queueManager.stats t).rejected⟩,
  ⟨"oqp_queue_expired_total", "Requests dropped due to max_wait timeout", "counter",
    tierSamples fun t => (x.queueManager.stats t).expired⟩,
  ⟨"oqp_concurrency_active", "Current active upstream requests", "gauge",
    [([], x.queueManager.active)]⟩]

def hostFamilies : List Family := [
  ⟨"oqp_host_healthy", "Whether the host is currently healthy (1=healthy, 0=unhealthy)", "gauge",
    x.hostSamples "name" fun st => if st.reachable then 1 else 0⟩,
  ⟨"oqp_host_requests_total", "Total requests handled by host", "counter",
    x.hostSamples "name" HostRoutingState.requestsHandled⟩,
  ⟨"oqp_host_failures_total", "Total upstream failures for host", "counter",
    x.hostSamples "name" HostRoutingState.failures⟩]

def clientFamilies : List Family :=
  match x.concurrencyManager with
  | none => []
  | some cm => [
      ⟨"oqp_client_inflight", "Current in-flight requests per client", "gauge",
        x.clientSamples cm.inflightCounts⟩,
      ⟨"oqp_client_cap_waiting", "Requests waiting on per-client concurrency cap", "gauge",
        x.clientSamples cm.capWaitingCounts⟩]

/-- The metrics of the cache; `none` if a key of a counter has not three parts. -/
def cacheFamilies? : Option (List Family) :=
  match x.embeddingCache with
  | none => some []
  | some c => do
      let hits ← cacheSamples? (shownHits c)
      let misses ← cacheSamples? c.misses.entries
      return [
        ⟨"oqp_embedding_cache_hits_total", "Embedding cache hits", "counter", hits⟩,
        ⟨"oqp_embedding_cache_misses_total", "Embedding cache misses", "counter", misses⟩,
        ⟨"oqp_embedding_cache_errors_total", "Embedding cache RESP errors by kind", "counter",
          c.errors.entries.map fun (kind, count) => ([("kind", kind)], (count : ℤ))⟩]

def routingFamilies : List Family := [
  ⟨"oqp_host_models_installed", "Number of models installed on each host (/api/tags)", "gauge",
    x.hostSamples "host" fun st => st.installedModels.dedup.length⟩,
  ⟨"oqp_routing_decisions_total", "Routing decisions by reason", "counter", [
    ([("reason", text "model_match")], (x.routingTable.decisions.modelMatch : ℤ)),
    ([("reason", text "round_robin")], (x.routingTable.decisions.roundRobin : ℤ)),
    ([("reason", text "fallback")], (x.routingTable.decisions.fallback : ℤ))]⟩,
  ⟨"oqp_uptime_seconds", "Proxy uptime in seconds since last start", "gauge",
    [([], x.uptime)]⟩]

/-- The metrics, in the order in which they are written. -/
def families? : Option (List Family) :=
  x.cacheFamilies?.map fun cache =>
    x.queueFamilies ++ x.hostFamilies ++ x.clientFamilies ++ cache ++ x.routingFamilies

end MetricsState

/-- `"\n".join(lines) + "\n"`. -/
def joinLines (lines : List Text) : Text := [newline].intercalate lines ++ [newline]

/-- The text of `/metrics`; `none` if a label of the cache has not three parts.  The names of the
tiers are written as they are, and have nothing that would be escaped. -/
def MetricsState.metricsText? {δ ρ ε κ : Type} {n : ℕ} (x : MetricsState δ ρ ε κ n) :
    Option Text :=
  x.families?.map fun fs =>
    joinLines ((fs.flatMap Family.lines).map (Exposition.Line.write pmLabel))

/-- `/metrics`: the body of the response; `none` if an exception is raised, which the text may
also do when it is encoded. -/
def MetricsState.metrics? {δ ρ ε κ : Type} {n : ℕ} (x : MetricsState δ ρ ε κ n) :
    Option Octets :=
  x.metricsText?.bind fun t => if Json.encodable t then some (Json.utf8 t) else none

/-! ### The text -/

/-- Lines that are joined are written one after the other. -/
theorem joinLines_eq {lines : List Text} (hne : lines ≠ []) :
  joinLines lines = lines.flatMap fun l => l ++ [newline]
  := by
  induction lines with
  | nil => cases hne rfl
  | cons l lines ih =>
      cases lines with
      | nil => simp [joinLines]
      | cons l' lines =>
          rw [List.flatMap_cons, ← ih (List.cons_ne_nil _ _)]
          simp [joinLines, List.intercalate_cons_cons]

theorem newline_notMem_of_escaped {t : Text} (h : Escaped t) :
  newline ∉ t
  := by
  induction h with
  | nil => exact List.not_mem_nil
  | plain _ _ hnewline _ ih => simp [Ne.symm hnewline, ih]
  | @escape e t he _ ih =>
      have hne : newline ≠ e := by
        rintro rfl
        exact absurd he (by decide)
      simp [hne, ih, Unicode.backslash]

/-- What `_pm_label` escapes can be encoded, if it could be before. -/
theorem encodable_pmLabel {v : Text} (h : Json.encodable v = true) :
  Json.encodable (pmLabel v) = true
  := by
  apply List.all_eq_true.mpr
  intro c hc
  rw [pmLabel_eq] at hc
  obtain ⟨d, hd, hc⟩ := List.mem_flatMap.mp hc
  cases escape_cases d with
  | plain hbackslash hquotation hnewline hwritten =>
      rw [hwritten, List.mem_singleton] at hc
      rw [hc]
      exact List.all_eq_true.mp h d hd
  | escape e hcode hwritten =>
      rw [hwritten] at hc
      have he : Json.encodable [Unicode.backslash, e] = true := by
        unfold unescape? at hcode
        split at hcode
        · rfl
        · rfl
        · rfl
        · cases hcode
      exact List.all_eq_true.mp he c hc

/-- What `_pm_label` escapes is read back. -/
theorem pmLabel_escapes :
  Exposition.Escapes pmLabel readLabel?
  := ⟨readLabel?_pmLabel, fun v => newline_notMem_of_escaped (escaped_pmLabel v)⟩

/-! ### The labels of the cache -/

/-- The labels that the key of a series is split into. -/
def labelsOf (key : Text) : List (String × Text) := (cacheLabels? key).getD []

/-- The key of a series has three parts. -/
theorem exists_splitLabel (s : CacheSeries) :
  ∃ labels, CacheSeries.splitLabel s.metricKey = some labels
  := by
  have hcount : 2 ≤ s.metricKey.count CacheSeries.comma := by
    rw [CacheSeries.metricKey, List.count_append, List.count_cons_self, List.count_append,
      List.count_cons_self]
    omega
  obtain ⟨a, b, d, hparts⟩ := List.length_eq_three.mp (Cut.length_splitMax hcount)
  exact ⟨_, CacheSeries.splitLabel_eq_some.mpr hparts⟩

theorem cacheLabels?_metricKey (s : CacheSeries) :
  cacheLabels? s.metricKey = some (labelsOf s.metricKey)
  := by
  obtain ⟨labels, hlabels⟩ := exists_splitLabel s
  rw [labelsOf, cacheLabels?, hlabels]
  rfl

theorem map_labelsOf (s : CacheSeries) :
  (labelsOf s.metricKey).map Prod.fst = ["client", "model", "endpoint"]
  := by
  obtain ⟨labels, hlabels⟩ := exists_splitLabel s
  rw [labelsOf, cacheLabels?, hlabels]
  rfl

/-- Different keys are split into different labels. -/
theorem metricKey_eq_of_labels {s s' : CacheSeries}
    (h : labelsOf s.metricKey = labelsOf s'.metricKey) :
  s.metricKey = s'.metricKey
  := by
  obtain ⟨⟨a, b, d⟩, hlabels⟩ := exists_splitLabel s
  obtain ⟨⟨a', b', d'⟩, hlabels'⟩ := exists_splitLabel s'
  rw [labelsOf, labelsOf, cacheLabels?, cacheLabels?, hlabels, hlabels'] at h
  obtain ⟨rfl, rfl, rfl⟩ : a = a' ∧ b = b' ∧ d = d' := by simpa using h
  rw [← Cut.intercalate_splitMax CacheSeries.comma 2 s.metricKey,
    ← Cut.intercalate_splitMax CacheSeries.comma 2 s'.metricKey,
    CacheSeries.splitLabel_eq_some.mp hlabels, CacheSeries.splitLabel_eq_some.mp hlabels']

/-- What a key that can be encoded is split into can be encoded. -/
theorem encodable_of_mem_labelsOf {key : Text} (h : IsSeriesKey key) {l : String × Text}
    (hl : l ∈ labelsOf key) :
  Json.encodable l.2 = true
  := by
  obtain ⟨hencodable, s, rfl⟩ := h
  obtain ⟨⟨a, b, d⟩, hlabels⟩ := exists_splitLabel s
  have hkey := Cut.intercalate_splitMax CacheSeries.comma 2 s.metricKey
  rw [CacheSeries.splitLabel_eq_some.mp hlabels] at hkey
  rw [labelsOf, cacheLabels?, hlabels] at hl
  have hparts : Json.encodable a = true ∧ Json.encodable b = true ∧ Json.encodable d = true := by
    rw [← hkey, Json.encodable] at hencodable
    simp only [List.intercalate_cons_cons, List.intercalate_singleton, List.all_append,
      Bool.and_eq_true] at hencodable
    obtain ⟨⟨ha, -⟩, ⟨hb, -⟩, hd⟩ := hencodable
    exact ⟨ha, hb, hd⟩
  obtain ⟨ha, hb, hd⟩ := hparts
  simp only [Option.map_some, Option.getD_some, List.mem_cons, List.not_mem_nil, or_false] at hl
  obtain rfl | rfl | rfl := hl
  · exact ha
  · exact hb
  · exact hd

/-- The entries are counted under keys of series, each under its own. -/
structure Keyed (entries : Dict Text ℕ) : Prop where
  series : ∀ e ∈ entries, IsSeriesKey e.1
  nodup : (entries.map Prod.fst).Nodup

theorem cacheSamples?_eq {entries : Dict Text ℕ} (h : Keyed entries) :
  cacheSamples? entries = some (entries.map fun e => (labelsOf e.1, (e.2 : ℤ)))
  := by
  have hseries := h.series
  clear h
  induction entries with
  | nil => rfl
  | cons e entries ih =>
      obtain ⟨label, count⟩ := e
      obtain ⟨⟨-, s, rfl⟩, hrest⟩ := List.forall_mem_cons.mp hseries
      have hsamples := ih hrest
      rw [cacheSamples?] at hsamples ⊢
      rw [List.mapM_cons, hsamples]
      dsimp only
      rw [cacheLabels?_metricKey]
      rfl

theorem keyed_misses (c : CacheCounters) :
  Keyed c.misses.entries
  := by
  refine ⟨fun e he => ?_, c.misses.nodup⟩
  exact c.series e.1 (List.mem_append_right _ (List.mem_map_of_mem he))

theorem keyed_shownHits (c : CacheCounters) :
  Keyed (shownHits c)
  := by
  constructor
  · intro e he
    obtain hhit | hmiss := List.mem_append.mp he
    · exact c.series e.1 (List.mem_append_left _ (List.mem_map_of_mem hhit))
    · obtain ⟨label, hlabel, rfl⟩ := List.mem_map.mp hmiss
      exact c.series label (List.mem_append_right _ (List.mem_filter.mp hlabel).1)
  · rw [shownHits, List.map_append, List.map_map]
    apply List.nodup_append'.mpr
    refine ⟨c.hits.nodup, ?_, ?_⟩
    · rw [show Prod.fst ∘ (fun label : Text => (label, 0)) = id from rfl, List.map_id]
      exact c.misses.nodup.filter _
    · intro label hhit hmiss
      rw [show Prod.fst ∘ (fun label : Text => (label, 0)) = id from rfl, List.map_id] at hmiss
      have hnew := (List.mem_filter.mp hmiss).2
      rw [Bool.not_eq_true', List.contains_eq_mem, decide_eq_false_iff_not] at hnew
      exact hnew hhit

/-! ### The families -/

/-- The family can be written, with the labels, and no labels have two samples. -/
structure Family.Proper (f : Family) (labels : List String) : Prop where
  names : (f.metric :: labels).all (fun name => Exposition.isName (text name)) = true
  lines : newline ∉ text f.doc ∧ newline ∉ text f.kind
  labels : ∀ sample ∈ f.samples, sample.1.map Prod.fst = labels
  encodable : ∀ sample ∈ f.samples, ∀ l ∈ sample.1, Json.encodable l.2 = true
  nodup : (f.samples.map Prod.fst).Nodup

theorem Family.Proper.wellFormed {f : Family} {labels : List String} (h : f.Proper labels) :
  ∀ l ∈ f.lines, l.WellFormed
  := by
  obtain ⟨hmetric, hlabels⟩ := List.forall_mem_cons.mp (List.all_eq_true.mp h.names)
  intro l hl
  obtain rfl | hl := List.mem_cons.mp hl
  · exact .help hmetric h.lines.1
  · obtain rfl | hl := List.mem_cons.mp hl
    · exact .type hmetric h.lines.2
    · obtain ⟨sample, hsample, rfl⟩ := List.mem_map.mp hl
      refine .sample hmetric fun l hl => ?_
      obtain ⟨label, hlabel, rfl⟩ := List.mem_map.mp hl
      apply hlabels
      rw [← h.labels sample hsample]
      exact List.mem_map_of_mem hlabel

/-- The series of a family. -/
def Family.series (f : Family) : List (Text × List (Text × Text)) :=
  f.lines.filterMap Exposition.Line.series?

theorem Family.series_eq (f : Family) :
  f.series = f.samples.map fun sample =>
    (text f.metric, sample.1.map fun (label, v) => (text label, v))
  := by
  rw [series, lines, List.filterMap_cons_none rfl, List.filterMap_cons_none rfl,
    List.filterMap_map]
  exact congrFun List.filterMap_eq_map f.samples

theorem Family.Proper.nodup_series {f : Family} {labels : List String} (h : f.Proper labels) :
  f.series.Nodup
  := by
  rw [Family.series_eq]
  have hmap : (f.samples.map fun sample =>
      (text f.metric, sample.1.map fun (label, v) => (text label, v)))
      = (f.samples.map Prod.fst).map fun labels =>
        (text f.metric, labels.map fun (label, v) => (text label, v)) := by
    rw [List.map_map]
    rfl
  rw [hmap]
  apply h.nodup.map
  intro labels labels' heq
  refine List.map_injective_iff.mpr ?_ (Prod.mk.inj heq).2
  rintro ⟨label, v⟩ ⟨label', v'⟩ heq
  obtain ⟨htext, rfl⟩ := Prod.mk.inj heq
  rw [Json.text_injective htext]

/-- Samples with a single label, whose values are different. -/
theorem proper_map {α : Type} {metric doc kind label : String} {xs : List α} {key : α → Text}
    (value : α → ℤ)
    (hnames : [metric, label].all (fun name => Exposition.isName (text name)) = true)
    (hlines : newline ∉ text doc ∧ newline ∉ text kind)
    (hkey : ∀ a ∈ xs, Json.encodable (key a) = true) (hnodup : (xs.map key).Nodup) :
  Family.Proper ⟨metric, doc, kind, xs.map fun a => ([(label, key a)], value a)⟩ [label]
  := by
  refine ⟨hnames, hlines, ?_, ?_, ?_⟩
  · intro sample hsample
    obtain ⟨a, -, rfl⟩ := List.mem_map.mp hsample
    rfl
  · intro sample hsample l hl
    obtain ⟨a, ha, rfl⟩ := List.mem_map.mp hsample
    obtain rfl := List.mem_singleton.mp hl
    exact hkey a ha
  · have hmap : (xs.map fun a => ([(label, key a)], value a)).map Prod.fst
        = (xs.map key).map fun v => [(label, v)] := by
      rw [List.map_map, List.map_map]
      rfl
    dsimp only
    rw [hmap]
    apply hnodup.map
    intro v v' heq
    simpa using heq

/-- Samples of counters under keys of series. -/
theorem proper_keyed {metric doc kind : String} {entries : Dict Text ℕ} (h : Keyed entries)
    (hnames : [metric, "client", "model", "endpoint"].all
      (fun name => Exposition.isName (text name)) = true)
    (hlines : newline ∉ text doc ∧ newline ∉ text kind) :
  Family.Proper ⟨metric, doc, kind, entries.map fun e => (labelsOf e.1, (e.2 : ℤ))⟩
    ["client", "model", "endpoint"]
  := by
  refine ⟨hnames, hlines, ?_, ?_, ?_⟩
  · intro sample hsample
    obtain ⟨e, he, rfl⟩ := List.mem_map.mp hsample
    obtain ⟨s, hs⟩ := (h.series e he).series
    dsimp only
    rw [← hs, map_labelsOf]
  · intro sample hsample l hl
    obtain ⟨e, he, rfl⟩ := List.mem_map.mp hsample
    exact encodable_of_mem_labelsOf (h.series e he) hl
  · have hmap : (entries.map fun e => (labelsOf e.1, (e.2 : ℤ))).map Prod.fst
        = (entries.map Prod.fst).map labelsOf := by
      rw [List.map_map, List.map_map]
      rfl
    dsimp only
    rw [hmap]
    apply List.Nodup.map_on _ h.nodup
    intro key hkey key' hkey' hsame
    obtain ⟨e, he, rfl⟩ := List.mem_map.mp hkey
    obtain ⟨e', he', rfl⟩ := List.mem_map.mp hkey'
    obtain ⟨s, hs⟩ := (h.series e he).series
    obtain ⟨s', hs'⟩ := (h.series e' he').series
    rw [← hs, ← hs'] at hsame ⊢
    exact metricKey_eq_of_labels hsame

/-- A metric without labels. -/
theorem proper_scalar {metric doc kind : String} (n : ℤ)
    (hnames : [metric].all (fun name => Exposition.isName (text name)) = true)
    (hlines : newline ∉ text doc ∧ newline ∉ text kind) :
  Family.Proper ⟨metric, doc, kind, [([], n)]⟩ []
  := ⟨hnames, hlines, by simp, by simp, by simp⟩

section

variable {δ ρ ε κ : Type} {n : ℕ} {x : MetricsState δ ρ ε κ n}

theorem proper_tierSamples {metric doc kind : String} (value : Tier → ℕ)
    (hnames : [metric, "tier"].all (fun name => Exposition.isName (text name)) = true)
    (hlines : newline ∉ text doc ∧ newline ∉ text kind) :
  Family.Proper ⟨metric, doc, kind, MetricsState.tierSamples value⟩ ["tier"]
  := by
  have hnodup : (Tier.all.map fun t => text t.name).Nodup := by decide
  exact proper_map _ hnames hlines (fun t _ => Json.encodable_text t.name) hnodup

theorem proper_queue {f : Family} (hf : f ∈ x.queueFamilies) :
  ∃ labels, f.Proper labels
  := by
  simp only [MetricsState.queueFamilies, List.mem_cons, List.not_mem_nil, or_false] at hf
  obtain rfl | rfl | rfl | rfl | rfl := hf
  · exact ⟨_, proper_tierSamples _ (by decide) (by decide)⟩
  · exact ⟨_, proper_tierSamples _ (by decide) (by decide)⟩
  · exact ⟨_, proper_tierSamples _ (by decide) (by decide)⟩
  · exact ⟨_, proper_tierSamples _ (by decide) (by decide)⟩
  · exact ⟨_, proper_scalar _ (by decide) (by decide)⟩

theorem proper_hostSamples {metric doc kind label : String} (hhosts : x.routingTable.names.Nodup)
    (value : HostRoutingState → ℕ)
    (hnames : [metric, label].all (fun name => Exposition.isName (text name)) = true)
    (hlines : newline ∉ text doc ∧ newline ∉ text kind) :
  Family.Proper ⟨metric, doc, kind, x.hostSamples label value⟩ [label]
  := by
  have hnodup := hhosts.map Json.text_injective
  rw [RoutingTable.names, List.map_map] at hnodup
  exact proper_map _ hnames hlines (fun st _ => Json.encodable_text st.name) hnodup

theorem proper_hosts (hnames : x.routingTable.names.Nodup) {f : Family}
    (hf : f ∈ x.hostFamilies) :
  ∃ labels, f.Proper labels
  := by
  simp only [MetricsState.hostFamilies, List.mem_cons, List.not_mem_nil, or_false] at hf
  obtain rfl | rfl | rfl := hf
  · exact ⟨_, proper_hostSamples hnames _ (by decide) (by decide)⟩
  · exact ⟨_, proper_hostSamples hnames _ (by decide) (by decide)⟩
  · exact ⟨_, proper_hostSamples hnames _ (by decide) (by decide)⟩

theorem proper_routing (hnames : x.routingTable.names.Nodup) {f : Family}
    (hf : f ∈ x.routingFamilies) :
  ∃ labels, f.Proper labels
  := by
  simp only [MetricsState.routingFamilies, List.mem_cons, List.not_mem_nil, or_false] at hf
  obtain rfl | rfl | rfl := hf
  · exact ⟨_, proper_hostSamples hnames _ (by decide) (by decide)⟩
  · have hnames : ["oqp_routing_decisions_total", "reason"].all
        (fun name => Exposition.isName (text name)) = true := by decide
    have hlines : newline ∉ text "Routing decisions by reason" ∧ newline ∉ text "counter" := by
      decide
    refine ⟨["reason"], hnames, hlines, by simp, ?_, ?_⟩
    · simp [Json.encodable_text]
    · simp only [List.map_cons, List.map_nil]
      decide
  · exact ⟨_, proper_scalar _ (by decide) (by decide)⟩

/-- The clients that are shown are different. -/
theorem sublist_clientSamples (value : String → Option ℕ) :
  ((x.clientSamples value).map Prod.fst).Sublist
    (((Dict.ofList (x.keys.map fun k => (k.clientId, ()))).map Prod.fst).map fun c =>
      [("client_id", text c)])
  := by
  rw [MetricsState.clientSamples]
  induction Dict.ofList (x.keys.map fun k => (k.clientId, ())) with
  | nil => exact List.Sublist.slnil
  | cons e d ih =>
      obtain ⟨c, -⟩ := e
      cases hvalue : value c with
      | none =>
          rw [List.filterMap_cons_none (by simp [hvalue])]
          exact ih.cons _
      | some count =>
          simp only [List.filterMap_cons, hvalue, Option.map_some, List.map_cons]
          exact ih.cons_cons [("client_id", text c)]

theorem proper_clientSamples {metric doc kind : String} (value : String → Option ℕ)
    (hnames : [metric, "client_id"].all (fun name => Exposition.isName (text name)) = true)
    (hlines : newline ∉ text doc ∧ newline ∉ text kind) :
  Family.Proper ⟨metric, doc, kind, x.clientSamples value⟩ ["client_id"]
  := by
  refine ⟨hnames, hlines, ?_, ?_, ?_⟩
  · intro sample hsample
    obtain ⟨e, -, hmap⟩ := List.mem_filterMap.mp hsample
    obtain ⟨count, -, heq⟩ := Option.map_eq_some_iff.mp hmap
    rw [← heq]
    rfl
  · intro sample hsample l hl
    obtain ⟨e, -, hmap⟩ := List.mem_filterMap.mp hsample
    obtain ⟨count, -, heq⟩ := Option.map_eq_some_iff.mp hmap
    rw [← heq] at hl
    rw [List.mem_singleton.mp hl]
    apply Json.encodable_text
  · apply (sublist_clientSamples value).nodup
    apply (Dict.nodup_keys_ofList _).map
    intro c c' heq
    exact Json.text_injective (by simpa using heq)

theorem proper_clients {f : Family} (hf : f ∈ x.clientFamilies) :
  ∃ labels, f.Proper labels
  := by
  unfold MetricsState.clientFamilies at hf
  split at hf
  · cases hf
  · simp only [List.mem_cons, List.not_mem_nil, or_false] at hf
    obtain rfl | rfl := hf
    · exact ⟨_, proper_clientSamples _ (by decide) (by decide)⟩
    · exact ⟨_, proper_clientSamples _ (by decide) (by decide)⟩

/-- The metrics of the cache, for the counters. -/
def cacheFamilies (c : CacheCounters) : List Family := [
  ⟨"oqp_embedding_cache_hits_total", "Embedding cache hits", "counter",
    (shownHits c).map fun e => (labelsOf e.1, (e.2 : ℤ))⟩,
  ⟨"oqp_embedding_cache_misses_total", "Embedding cache misses", "counter",
    c.misses.entries.map fun e => (labelsOf e.1, (e.2 : ℤ))⟩,
  ⟨"oqp_embedding_cache_errors_total", "Embedding cache RESP errors by kind", "counter",
    c.errors.entries.map fun (kind, count) => ([("kind", kind)], (count : ℤ))⟩]

/-- No key of a counter fails to be split. -/
theorem cacheFamilies?_eq (x : MetricsState δ ρ ε κ n) :
  x.cacheFamilies? = some (x.embeddingCache.elim [] cacheFamilies)
  := by
  unfold MetricsState.cacheFamilies?
  cases x.embeddingCache with
  | none => rfl
  | some c =>
      dsimp only
      rw [cacheSamples?_eq (keyed_shownHits c), cacheSamples?_eq (keyed_misses c)]
      rfl

theorem proper_cache {c : CacheCounters} {f : Family} (hf : f ∈ cacheFamilies c) :
  ∃ labels, f.Proper labels
  := by
  simp only [cacheFamilies, List.mem_cons, List.not_mem_nil, or_false] at hf
  obtain rfl | rfl | rfl := hf
  · exact ⟨_, proper_keyed (keyed_shownHits c) (by decide) (by decide)⟩
  · exact ⟨_, proper_keyed (keyed_misses c) (by decide) (by decide)⟩
  · refine ⟨_, proper_map _ (by decide) (by decide) ?_ c.errors.nodup⟩
    intro e he
    exact c.kinds e.1 (List.mem_map_of_mem he)

/-- The metrics, if no key fails to be split. -/
def MetricsState.families (x : MetricsState δ ρ ε κ n) : List Family :=
  x.queueFamilies ++ x.hostFamilies ++ x.clientFamilies
    ++ x.embeddingCache.elim [] cacheFamilies ++ x.routingFamilies

theorem families?_eq (x : MetricsState δ ρ ε κ n) :
  x.families? = some x.families
  := by
  rw [MetricsState.families?, cacheFamilies?_eq]
  rfl

theorem proper_families (hnames : x.routingTable.names.Nodup) {f : Family}
    (hf : f ∈ x.families) :
  ∃ labels, f.Proper labels
  := by
  simp only [MetricsState.families, List.mem_append] at hf
  obtain (((hqueue | hhosts) | hclients) | hcache) | hrouting := hf
  · exact proper_queue hqueue
  · exact proper_hosts hnames hhosts
  · exact proper_clients hclients
  · cases hsome : x.embeddingCache with
    | none =>
        rw [hsome] at hcache
        cases hcache
    | some c =>
        rw [hsome] at hcache
        exact proper_cache hcache
  · exact proper_routing hnames hrouting

/-- No metric is described twice. -/
theorem nodup_metrics (x : MetricsState δ ρ ε κ n) :
  (x.families.map Family.metric).Nodup
  := by
  have hrest : x.families.map Family.metric
      = x.queueFamilies.map Family.metric ++ x.hostFamilies.map Family.metric
        ++ x.clientFamilies.map Family.metric
        ++ (x.embeddingCache.elim [] cacheFamilies).map Family.metric
        ++ x.routingFamilies.map Family.metric := by
    simp only [MetricsState.families, List.map_append]
  rw [hrest, MetricsState.clientFamilies]
  cases x.concurrencyManager <;> cases x.embeddingCache <;>
    simp [MetricsState.queueFamilies, MetricsState.hostFamilies, MetricsState.routingFamilies,
      cacheFamilies]

/-- No series has two samples, if every metric is proper and none is described twice. -/
theorem nodup_series {fs : List Family} (hproper : ∀ f ∈ fs, ∃ labels, f.Proper labels)
    (hmetrics : (fs.map Family.metric).Nodup) :
  (fs.flatMap Family.series).Nodup
  := by
  apply List.nodup_flatMap.mpr
  constructor
  · intro f hf
    obtain ⟨labels, h⟩ := hproper f hf
    exact h.nodup_series
  · apply (List.pairwise_map.mp hmetrics).imp
    intro f f' hne s hs hs'
    rw [Family.series_eq] at hs hs'
    obtain ⟨sample, -, rfl⟩ := List.mem_map.mp hs
    obtain ⟨sample', -, heq⟩ := List.mem_map.mp hs'
    exact hne (Json.text_injective (Prod.mk.inj heq).1.symm)

/-- There is a sample of hits for every key that is counted, with its count. -/
theorem mem_shownHits {c : CacheCounters} {key : Text}
    (hkey : key ∈ c.hits.keys ++ c.misses.keys) :
  (key, c.hits.value key) ∈ shownHits c
  := by
  rw [shownHits, Counter.value]
  cases hvalue : Dict.get? c.hits.entries key with
  | some count => exact List.mem_append_left _ (Dict.mem_of_get? hvalue)
  | none =>
      have hnew : key ∉ c.hits.keys := by
        intro hhit
        obtain ⟨e, he, rfl⟩ := List.mem_map.mp hhit
        exact Dict.ne_of_get?_eq_none hvalue he rfl
      have hmiss := (List.mem_append.mp hkey).resolve_left hnew
      apply List.mem_append_right
      apply List.mem_map.mpr
      use key
      refine ⟨List.mem_filter.mpr ⟨hmiss, ?_⟩, rfl⟩
      rw [Bool.not_eq_true', List.contains_eq_mem, decide_eq_false_iff_not]
      exact hnew

/-! ### The response -/

/-- The parts of the lines of a proper metric can be encoded. -/
theorem Family.Proper.encodable_parts {f : Family} {labels : List String} (h : f.Proper labels)
    {l : Exposition.Line} (hl : l ∈ f.lines) {t : Text} (ht : t ∈ l.parts pmLabel) :
  Json.encodable t = true
  := by
  have hheader {header : String} (ht : t ∈ [text f.metric, text header]) :
      Json.encodable t = true := by
    obtain rfl | ht := List.mem_cons.mp ht
    · apply Json.encodable_text
    · rw [List.mem_singleton.mp ht]
      apply Json.encodable_text
  obtain rfl | hl := List.mem_cons.mp hl
  · exact hheader ht
  · obtain rfl | hl := List.mem_cons.mp hl
    · exact hheader ht
    · obtain ⟨sample, hsample, rfl⟩ := List.mem_map.mp hl
      obtain rfl | ht := List.mem_cons.mp ht
      · apply Json.encodable_text
      · obtain ⟨⟨label, v⟩, hlabel, ht⟩ := List.mem_flatMap.mp ht
        obtain ⟨l, hl, heq⟩ := List.mem_map.mp hlabel
        obtain ⟨rfl, rfl⟩ := Prod.mk.inj heq
        obtain rfl | ht := List.mem_cons.mp ht
        · apply Json.encodable_text
        · rw [List.mem_singleton.mp ht]
          exact encodable_pmLabel (h.encodable sample hsample l hl)

theorem metricsText?_eq (x : MetricsState δ ρ ε κ n) :
  x.metricsText? = some (Exposition.writeText pmLabel (x.families.flatMap Family.lines))
  := by
  have hne : (x.families.flatMap Family.lines).map (Exposition.Line.write pmLabel) ≠ [] := by
    simp [MetricsState.families, MetricsState.queueFamilies, Family.lines]
  rw [MetricsState.metricsText?, families?_eq, Option.map_some, joinLines_eq hne,
    List.flatMap_map]
  rfl

theorem encodable_metricsText (hnames : x.routingTable.names.Nodup) :
  Json.encodable (Exposition.writeText pmLabel (x.families.flatMap Family.lines)) = true
  := by
  apply Exposition.all_writeText
  · intro c hc
    simp only [Bool.or_eq_true, decide_eq_true_eq]
    omega
  · intro l hl t ht
    obtain ⟨f, hf, hl⟩ := List.mem_flatMap.mp hl
    obtain ⟨labels, hproper⟩ := proper_families hnames hf
    exact hproper.encodable_parts hl ht

/-- A sample shows the count of hits under the key, which is zero if there are misses only. -/
def HitsShown (fs : List Family) (c : CacheCounters) (key : Text) : Prop :=
  ∃ labels, cacheLabels? key = some labels
    ∧ .sample (text "oqp_embedding_cache_hits_total")
      (labels.map fun (label, v) => (text label, v)) (c.hits.value key)
      ∈ fs.flatMap Family.lines

theorem hitsShown {c : CacheCounters} (hc : c ∈ x.embeddingCache) {key : Text}
    (hkey : key ∈ c.hits.keys ++ c.misses.keys) :
  HitsShown x.families c key
  := by
  obtain ⟨-, s, hs⟩ := c.series key hkey
  have hlabels := cacheLabels?_metricKey s
  rw [hs] at hlabels
  use labelsOf key, hlabels
  apply List.mem_flatMap.mpr
  have hcache : x.embeddingCache.elim [] cacheFamilies = cacheFamilies c := by
    rw [Option.mem_def.mp hc]
    rfl
  use (cacheFamilies c).head (List.cons_ne_nil _ _)
  constructor
  · rw [MetricsState.families, hcache]
    exact List.mem_append_left _ (List.mem_append_right _ List.mem_cons_self)
  · apply List.mem_cons_of_mem
    apply List.mem_cons_of_mem
    apply List.mem_map.mpr
    exact ⟨_, List.mem_map.mpr ⟨_, mem_shownHits hkey, rfl⟩, rfl⟩

end

/-- Counters of a cache that a client missed, with a quotation mark in the name of the model. -/
def missedCache : CacheCounters :=
  .get id ⟨true, 1000, "oqp:"⟩ .empty (Url.ascii "/api/embed") [] (.string (text "m\"")) "ops"
    (.ok none)

/-- The state after a poll and a failed request, with a client and a cache. -/
def sampleMetrics : MetricsState Unit Unit Unit Unit 1 where
  queueManager := .initial Unit Unit Unit 1
  routingTable := .polledTable
  keys := [⟨"secret", "ops", .normal, .read, 2⟩]
  concurrencyManager := some (.new [⟨"secret", "ops", .normal, .read, 2⟩])
  embeddingCache := some missedCache
  uptime := 7

end OllamaQueueProxy
