import OllamaQueueProxy.Cache.Run

/-!
# Transparency of the embedding cache

A request may be answered from the cache with what the upstream server answered to another
one.  Both have the same path, the same model and the same input, since the key determines
these, but they may differ in the other fields on which the answer depends.  In runs in which
no request does so with an earlier one, every answer with the status 200 has the content that
the request would be answered with if the cache were disabled (`always_transparent`).
-/

open Program (Event Reaches Sat)
open Transition
open Json (Text text)

namespace OllamaQueueProxy

/-- The configuration with the cache disabled. -/
def Config.uncached (cfg : Config) : Config :=
  { cfg with embeddingCache := { cfg.embeddingCache with enabled := false } }

namespace Arrival

/-- With the cache disabled, the request may be answered with the content: a run of its
handler ends with it and the status 200 when the upstream server answers as `up` says. -/
def UncachedAnswer (digest : Text → Text) (cfg : Config) (up : Upstream) (a : Arrival)
    (content : Content) : Prop :=
  ∃ es headers, Reaches (UpstreamAnswers up) (handle digest cfg.uncached a.port a.request) es
    (.pure (.response ⟨200, content, headers⟩))

/-- What the cache keeps of the request. -/
def cached? (cfg : Config) (a : Arrival) : Option CacheEntry :=
  toCache? cfg.embeddingCache a.path a.request.body

/-- The text whose digest is part of the key of the request. -/
def keyText? (cfg : Config) (a : Arrival) : Option Text :=
  (a.cached? cfg).bind fun e => EmbeddingCache.keyText? e.path e.fields e.model

end Arrival

/-- The requests are cached with the same path, the same model and the same input, up to the
order of fields. -/
def SameInput (cfg : Config) (a b : Arrival) : Prop :=
  ∃ e f p q, a.cached? cfg = some e ∧ b.cached? cfg = some f ∧ e.path = f.path
    ∧ e.model = f.model ∧ EmbeddingCache.payload? e.path e.fields = some p
    ∧ EmbeddingCache.payload? f.path f.fields = some q ∧ p.2.sort = q.2.sort

namespace CachingProxy

/-- A request that arrives agrees with all earlier ones of the same path, model and input on
the fields on which the upstream answer depends. -/
def AgreesWithEarlier (cfg : Config) (s : CachingProxy) : CachingAction → Prop
  | .arrive a => ∀ b ∈ s.arrivals, SameInput cfg a b →
      relevant a.request.body = relevant b.request.body
  | _ => True

/-- The digest of the text of a request that arrives is not the one of another text. -/
def NoCollision (digest : Text → Text) (cfg : Config) (s : CachingProxy) : CachingAction → Prop
  | .arrive a => ∀ b ∈ s.arrivals, ∀ t u, a.keyText? cfg = some t → b.keyText? cfg = some u →
      digest t = digest u → t = u
  | _ => True

/-- Every answer with the status 200 has the content that the request would be answered with
if the cache were disabled. -/
def Transparent (digest : Text → Text) (cfg : Config) (up : Upstream) (s : CachingProxy) :
    Prop :=
  ∀ x ∈ s.exchanges, ∀ r, x.rest = .pure (.response r) → r.statusCode = 200 →
    ∀ content, x.arrival.UncachedAnswer digest cfg up content → r.content = content

end CachingProxy

variable {digest : Text → Text} {cfg : Config} {up : Upstream}

/-- With the cache disabled, a request is answered with the content of its upstream
answer. -/
theorem Arrival.UncachedAnswer.eq {a : Arrival} {content : Content}
    (h : a.UncachedAnswer digest cfg up content) :
  some content = a.answerContent? up
  := by
  obtain ⟨es, headers, hreaches⟩ := h
  apply (handle_answers digest cfg.uncached up a).returned hreaches
  · intro h op r huses hanswers
    use hanswers
    cases op with
    | cacheGet key clientId => cases huses
    | _ => trivial
  · rfl

theorem path_of_toCache? {cfg : EmbeddingCacheConfig} {path : Url.Octets} {body : Bytes}
    {e : CacheEntry} (h : toCache? cfg path body = some e) :
  e.path = path
  := by
  unfold toCache? at h
  split at h
  · split at h
    · obtain rfl := Option.some.inj h
      rfl
    · cases h
  · cases h

/-- Requests with the same key have the same path, and the digests of their texts agree. -/
theorem Arrival.key?_inj {a b : Arrival} {key : Text}
    (ha : a.key? digest cfg.embeddingCache = some key)
    (hb : b.key? digest cfg.embeddingCache = some key) :
  a.path = b.path ∧ ∃ t u, a.keyText? cfg = some t ∧ b.keyText? cfg = some u
    ∧ digest t = digest u
  := by
  obtain ⟨e, he, hae⟩ := Option.bind_eq_some_iff.mp ha
  obtain ⟨f, hf, hbf⟩ := Option.bind_eq_some_iff.mp hb
  obtain ⟨hpath, t, u, ht, hu, hdigest⟩ := EmbeddingCache.buildKey?_inj digest _ hae hbf
  constructor
  · rw [← path_of_toCache? he, ← path_of_toCache? hf, hpath]
  · exact ⟨t, u, Option.bind_eq_some_iff.mpr ⟨e, he, ht⟩, Option.bind_eq_some_iff.mpr ⟨f, hf, hu⟩,
      hdigest⟩

/-- Requests of the same path with the same text have the same input. -/
theorem sameInput_of_keyText? {a b : Arrival} {t : Text} (hpath : a.path = b.path)
    (ha : a.keyText? cfg = some t) (hb : b.keyText? cfg = some t) :
  SameInput cfg a b
  := by
  obtain ⟨e, he, hae⟩ := Option.bind_eq_some_iff.mp ha
  obtain ⟨f, hf, hbf⟩ := Option.bind_eq_some_iff.mp hb
  obtain ⟨p, hp, ht⟩ := Option.bind_eq_some_iff.mp hae
  obtain ⟨q, hq, ht'⟩ := Option.bind_eq_some_iff.mp hbf
  obtain ⟨hmodel, hpayload⟩ := EmbeddingCache.preimage?_inj ht ht'
  refine ⟨e, f, p, q, he, hf, ?_, hmodel, hp, hq, hpayload⟩
  rw [path_of_toCache? he, path_of_toCache? hf, hpath]

/-! ### The invariant -/

/-- The handler goes on to use the cache rightly and to answer with its upstream answer. -/
def Exchange.Sound (digest : Text → Text) (cfg : Config) (up : Upstream) (x : Exchange) :
    Prop :=
  ∃ h, Sat (Admits up (x.arrival.content up))
    (fun _ op => UsesCache (x.arrival.key? digest cfg.embeddingCache) (x.arrival.content up) op)
    (fun _ outcome => Answers (x.arrival.answerContent? up) outcome) h x.rest

namespace CachingProxy

/-- What is stored under a key is the upstream answer to all requests of the key. -/
structure Sound (digest : Text → Text) (cfg : Config) (up : Upstream) (s : CachingProxy) :
    Prop where
  arrived : ∀ x ∈ s.exchanges, x.arrival ∈ s.arrivals
  exchanges : ∀ x ∈ s.exchanges, x.Sound digest cfg up
  stored : ∀ key b, s.stored key = some b → ∃ a ∈ s.arrivals,
    a.key? digest cfg.embeddingCache = some key ∧ ∃ j, b.json = some j ∧ a.content up = .json j
  agree : ∀ a ∈ s.arrivals, ∀ b ∈ s.arrivals, ∀ key,
    a.key? digest cfg.embeddingCache = some key → b.key? digest cfg.embeddingCache = some key →
    a.content up = b.content up

variable {s s' : CachingProxy}

theorem Sound.initial :
  initial.Sound digest cfg up
  where
  arrived _ hx := absurd hx List.not_mem_nil
  exchanges _ hx := absurd hx List.not_mem_nil
  stored _ _ hb := by cases hb
  agree _ ha := absurd ha List.not_mem_nil

/-- A request that arrives and agrees with an earlier one of the same key has the same
upstream answer. -/
theorem content_eq_of_key? {a b : Arrival} {key : Text}
    (hagrees : AgreesWithEarlier cfg s (.arrive a))
    (hdigest : NoCollision digest cfg s (.arrive a)) (hb : b ∈ s.arrivals)
    (hka : a.key? digest cfg.embeddingCache = some key)
    (hkb : b.key? digest cfg.embeddingCache = some key) :
  a.content up = b.content up
  := by
  obtain ⟨hpath, t, u, ht, hu, hsame⟩ := Arrival.key?_inj hka hkb
  obtain rfl := hdigest b hb t u ht hu hsame
  rw [Arrival.content, Arrival.content, hpath, hagrees b hb (sameInput_of_keyText? hpath ht hu)]

theorem Sound.arrive {a : Arrival} (h : s.Sound digest cfg up)
    (hagrees : AgreesWithEarlier cfg s (.arrive a))
    (hdigest : NoCollision digest cfg s (.arrive a)) :
  Sound digest cfg up { s with
    arrivals := s.arrivals ++ [a]
    exchanges := s.exchanges ++ [⟨a, handle digest cfg a.port a.request⟩] }
  where
  arrived x hx := by
    obtain hold | hnew := List.mem_append.mp hx
    · exact List.mem_append_left _ (h.arrived x hold)
    · obtain rfl := List.mem_singleton.mp hnew
      exact List.mem_append_right _ (List.mem_singleton_self a)
  exchanges x hx := by
    obtain hold | hnew := List.mem_append.mp hx
    · exact h.exchanges x hold
    · obtain rfl := List.mem_singleton.mp hnew
      exact ⟨[], handle_answers digest cfg up a⟩
  stored key b hb := by
    obtain ⟨c, hc, hkey⟩ := h.stored key b hb
    exact ⟨c, List.mem_append_left _ hc, hkey⟩
  agree b hb c hc key hkb hkc := by
    obtain hbold | hbnew := List.mem_append.mp hb <;> obtain hcold | hcnew := List.mem_append.mp hc
    · exact h.agree b hbold c hcold key hkb hkc
    · obtain rfl := List.mem_singleton.mp hcnew
      exact (content_eq_of_key? hagrees hdigest hbold hkc hkb).symm
    · obtain rfl := List.mem_singleton.mp hbnew
      exact content_eq_of_key? hagrees hdigest hcold hkb hkc
    · rw [List.mem_singleton.mp hbnew, List.mem_singleton.mp hcnew]

/-- The answer to an operation is admitted: what the cache holds is the upstream answer. -/
theorem Sound.admits {x : Exchange} (h : s.Sound digest cfg up) (hx : x ∈ s.exchanges) {op : Op}
    {e : Environment} {r : op.Answer} (hanswer : answer? up s.stored op e = some r)
    (huses : UsesCache (x.arrival.key? digest cfg.embeddingCache) (x.arrival.content up) op) :
  Admits up (x.arrival.content up) op r
  := by
  use upstreamAnswers_of_answer? hanswer
  cases op with
  | cacheGet key clientId =>
      cases r with
      | error _ => trivial
      | ok value =>
          cases value with
          | none => trivial
          | some b =>
              obtain ⟨a, ha, hkey, j, hb, hcontent⟩ := h.stored key b (stored_of_answer? hanswer)
              use j, hb
              rw [← hcontent]
              exact h.agree _ (h.arrived x hx) a ha key huses hkey
  | _ => trivial

theorem Sound.answer {i : ℕ} {e : Environment} {a : Arrival} {op : Op}
    {next : op.Answer → Handler Outcome} {r : op.Answer} (h : s.Sound digest cfg up)
    (hexchange : s.exchanges[i]? = some ⟨a, .call op next⟩)
    (hanswer : answer? up s.stored op e = some r) :
  Sound digest cfg up { s with
    stored := contentsAfter s.stored op e
    exchanges := s.exchanges.set i ⟨a, next r⟩ }
  := by
  have hx : (⟨a, .call op next⟩ : Exchange) ∈ s.exchanges := List.mem_of_getElem? hexchange
  obtain ⟨hist, huses, hnext⟩ := h.exchanges _ hx
  constructor
  · intro y hy
    obtain hold | rfl := List.mem_or_eq_of_mem_set hy
    · exact h.arrived y hold
    · exact h.arrived ⟨a, .call op next⟩ hx
  · intro y hy
    obtain hold | rfl := List.mem_or_eq_of_mem_set hy
    · exact h.exchanges y hold
    · exact ⟨_, hnext r (h.admits hx hanswer huses)⟩
  · intro key b hb
    dsimp only at hb ⊢
    obtain hsame | ⟨key', value, rfl, hset⟩ := contentsAfter_eq s.stored op e
    · rw [hsame] at hb
      exact h.stored key b hb
    · rw [hset] at hb
      by_cases hkey : key = key'
      · subst hkey
        rw [Function.update_self] at hb
        obtain rfl := Option.some.inj hb
        obtain ⟨hka, hjson⟩ := huses
        exact ⟨a, h.arrived _ hx, hka, hjson⟩
      · rw [Function.update_of_ne hkey] at hb
        exact h.stored key b hb
  · exact h.agree

theorem Sound.expire (h : s.Sound digest cfg up) (key : Text) :
  Sound digest cfg up { s with stored := Function.update s.stored key none }
  where
  arrived := h.arrived
  exchanges := h.exchanges
  stored key' b hb := by
    dsimp only at hb
    by_cases hkey : key' = key
    · rw [hkey, Function.update_self] at hb
      cases hb
    · rw [Function.update_of_ne hkey] at hb
      exact h.stored key' b hb
  agree := h.agree

theorem Sound.step {act : CachingAction} (h : s.Sound digest cfg up)
    (hagrees : AgreesWithEarlier cfg s act) (hdigest : NoCollision digest cfg s act)
    (hstep : Step digest cfg up s act s') :
  s'.Sound digest cfg up
  := by
  cases act with
  | arrive a =>
      rw [step_arrive hstep]
      exact h.arrive hagrees hdigest
  | answer i e =>
      obtain ⟨a, op, next, r, hexchange, hanswer, rfl⟩ := step_answer hstep
      exact h.answer hexchange hanswer
  | expire key =>
      rw [step_expire hstep]
      exact h.expire key

theorem Sound.transparent (h : s.Sound digest cfg up) :
  s.Transparent digest cfg up
  := by
  intro x hx r hrest hsuccess content huncached
  obtain ⟨hist, hanswers⟩ := h.exchanges x hx
  rw [hrest] at hanswers
  apply Option.some.inj
  rw [huncached.eq]
  exact hanswers hsuccess

/-- In a run in which every request agrees with the earlier ones of the same path, model and
input on the other fields, the cache is transparent, as long as no digests collide. -/
theorem always_transparent {as : List CachingAction}
    (hdigest : AllSteps (Step digest cfg up) initial as (NoCollision digest cfg))
    (hagrees : AllSteps (Step digest cfg up) initial as (AgreesWithEarlier cfg)) :
  Always (Step digest cfg up) initial as (Transparent digest cfg up)
  := by
  have hsound : Always (Step digest cfg up) initial as (Sound digest cfg up) := by
    apply (hdigest.and hagrees).always Sound.initial
    rintro t act u ht ⟨hno, hagree⟩ hstep
    exact ht.step hagree hno hstep
  intro bs t hbs hrun
  exact (hsound bs t hbs hrun).transparent

/-! ### Requests for the same input -/

/-- A configuration with the cache and without authentication. -/
def sampleConfig : Config :=
  .withoutListeners ⟨false, 50⟩ .default ⟨true, 32768, "oqp:embed:"⟩ ⟨"5m", false⟩

/-- A request to `/api/embed` on the main port. -/
def sampleArrival (fields : Fields) : Arrival where
  port := .main
  request := {
    method := "POST"
    target := Url.ascii "/api/embed"
    queryString := []
    headers := []
    clientHost := none
    requestId := "r"
    chunks := [(Bytes.dumps Json.escape (.object fields)).length]
    body := .dumps Json.escape (.object fields)
    sum_chunks := by simp }

/-- The model and the input of the requests. -/
def sampleFields : Fields :=
  [(text "model", .string (text "m")), (text "input", .string (text "x"))]

/-- The digest of the text of the requests. -/
def sampleDigest (t : Text) : Text :=
  if t = text "m" ++ 0 :: text "[\"x\"]" then text "ae801afeed1193cb6479000848f160de" else []

/-- The upstream server answers with the fields of the request. -/
def sampleUpstream : Upstream := fun _ fields => .json fields

/-- The environment while the first request is answered by the upstream server. -/
def sampleAnswers : List Environment :=
  [.other (.flag false), .backend true, .other (.time 0), .other (.future 0), .queue (.ok 1),
    .success [], .other (.time 1), .backend true]

/-- The environment while a request is answered with the cache disabled. -/
def uncachedAnswers : List Environment :=
  [.other (.flag false), .other (.time 0), .other (.future 0), .queue (.ok 1), .success [],
    .other (.time 1)]

/-- The first request is answered by the upstream server, and the second one, with the given
fields, from the cache. -/
def sampleRun (fields : Fields) : List CachingAction :=
  .arrive (sampleArrival sampleFields) :: sampleAnswers.map (.answer 0)
    ++ .arrive (sampleArrival fields) ::
      [.answer 1 (.other (.flag false)), .answer 1 (.backend true)]

/-- The input of the first request, as a list, with another field to keep the model alive. -/
def agreeingFields : Fields :=
  [(text "input", .array [.string (text "x")]), (text "keep_alive", .string (text "1h")),
    (text "model", .string (text "m"))]

/-- The model and the input of the first request, with a field that asks for shorter
vectors. -/
def shorterFields : Fields := sampleFields ++ [(text "dimensions", .number (.ofNat 256))]

/-- The content of an answer with the status 200, if a handler has ended with one. -/
def jsonAnswer? : Handler Outcome → Option Json
  | .pure (.response ⟨200, .json j, _⟩) => some j
  | _ => none

theorem eq_of_jsonAnswer? {q : Handler Outcome} {j : Json} (h : jsonAnswer? q = some j) :
  ∃ headers, q = .pure (.response ⟨200, .json j, headers⟩)
  := by
  unfold jsonAnswer? at h
  split at h
  · rename_i j' headers
    obtain rfl := Option.some.inj h
    exact ⟨headers, rfl⟩
  · cases h

/-- With the cache disabled, the handler of a request can answer with the status 200. -/
theorem exists_uncachedAnswer (fields : Fields)
    (h : (Program.run (answer? sampleUpstream fun _ => none)
      (handle sampleDigest sampleConfig.uncached .main (sampleArrival fields).request)
      uncachedAnswers).any (fun result => (jsonAnswer? result.2).isSome) = true) :
  ∃ content, (sampleArrival fields).UncachedAnswer sampleDigest sampleConfig sampleUpstream content
  := by
  obtain ⟨⟨es, q⟩, hrun, hanswer⟩ := (Option.any_eq_true _ _).mp h
  obtain ⟨j, hj⟩ := Option.isSome_iff_exists.mp hanswer
  obtain ⟨headers, rfl⟩ := eq_of_jsonAnswer? hj
  exact ⟨.json j, es, headers, Program.reaches_of_run hrun upstreamAnswers_of_answer?⟩

/-- The texts of both requests are the same, so their digests do not collide. -/
theorem noCollision_sampleRun (fields : Fields)
    (h : checkSteps (step sampleDigest sampleConfig sampleUpstream)
      (fun s act => (arrival? act).all fun a =>
        s.arrivals.all fun b => a.keyText? sampleConfig == b.keyText? sampleConfig)
      initial (sampleRun fields) = true) :
  AllSteps (Step sampleDigest sampleConfig sampleUpstream) initial (sampleRun fields)
    (NoCollision sampleDigest sampleConfig)
  := by
  refine allSteps_of_checkSteps h ?_
  intro s act hcheck
  cases act with
  | arrive a =>
      intro b hb t u ht hu _
      have hsame := List.all_eq_true.mp hcheck b hb
      rw [ht, hu] at hsame
      simpa using hsame
  | answer | expire => trivial

/-- The cache is transparent in a run in which the second request differs from the first one
only in `keep_alive` and in the form of its input. -/
theorem agreeing_transparent :
  Always (Step sampleDigest sampleConfig sampleUpstream) initial (sampleRun agreeingFields)
    (Transparent sampleDigest sampleConfig sampleUpstream)
  := by
  apply always_transparent
  · exact noCollision_sampleRun agreeingFields (by decide)
  · refine allSteps_of_checkSteps (b := fun s act => (arrival? act).all fun a =>
      s.arrivals.all fun b => (relevant a.request.body).write Json.escape
        == (relevant b.request.body).write Json.escape) ?_ ?_
    · decide
    · intro s act hcheck
      cases act with
      | arrive a =>
          intro b hb _
          have hsame := List.all_eq_true.mp hcheck b hb
          exact Json.write_injective Json.isEscaping_escape (beq_iff_eq.mp hsame)
      | answer | expire => trivial

/-- The second request, which asks for shorter vectors, is answered with the vectors of the
first one, although no digests collide. -/
theorem not_always_transparent :
  AllSteps (Step sampleDigest sampleConfig sampleUpstream) initial (sampleRun shorterFields)
      (NoCollision sampleDigest sampleConfig)
    ∧ ¬ Always (Step sampleDigest sampleConfig sampleUpstream) initial (sampleRun shorterFields)
      (Transparent sampleDigest sampleConfig sampleUpstream)
  := by
  use noCollision_sampleRun shorterFields (by decide)
  have hexec : (exec (step sampleDigest sampleConfig sampleUpstream) initial
      (sampleRun shorterFields)).any (fun s =>
        (s.exchanges[1]?.bind fun x => jsonAnswer? x.rest).any fun j =>
          j.write Json.escape != (relevantFields shorterFields).write Json.escape) = true := by
    decide +kernel
  obtain ⟨t, ht, hother⟩ := (Option.any_eq_true _ _).mp hexec
  obtain ⟨j, hj, hne⟩ := (Option.any_eq_true _ _).mp hother
  obtain ⟨x, hx, hxj⟩ := Option.bind_eq_some_iff.mp hj
  have hrun := run_of_exec ht
  have harrival : x.arrival = sampleArrival shorterFields := by
    have hmap : t.exchanges.map Exchange.arrival
        = [sampleArrival sampleFields, sampleArrival shorterFields] := map_arrival_run hrun
    have hsecond : (t.exchanges.map Exchange.arrival)[1]? = some x.arrival := by
      rw [List.getElem?_map, hx]
      rfl
    rw [hmap] at hsecond
    exact (Option.some.inj hsecond).symm
  obtain ⟨content, hcontent⟩ := exists_uncachedAnswer shorterFields (by decide +kernel)
  obtain rfl : content = .json (relevantFields shorterFields) := Option.some.inj hcontent.eq
  obtain ⟨headers, hrest⟩ := eq_of_jsonAnswer? hxj
  intro halways
  have htransparent := halways (sampleRun shorterFields) t List.prefix_rfl hrun x
    (List.mem_of_getElem? hx) _ hrest rfl
  rw [harrival] at htransparent
  obtain rfl := Content.json.inj (htransparent _ hcontent)
  exact absurd hne (by simp)

end CachingProxy

end OllamaQueueProxy
