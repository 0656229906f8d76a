import OllamaQueueProxy.Proxy.Messages

/-!
# The response that is passed on

What `dispatch_request` makes of the response of a host.  A stream is passed on as it
comes, with all its headers.  Any other response becomes a `JSONResponse`: of what
`resp.json()` reads if the content type begins with `application/json`, and of `null`
otherwise.

So the payload is that of the host only if it is JSON and its content type says so, if it
is `null`, or if there is none (`transparent_iff`).  The HTTP client has removed the content
codings from the body, but not the headers that belong to them, and the length of a stream
is the one before (`describes_iff`).
-/

open Url (Octets ascii)

namespace OllamaQueueProxy

/-- A response with the status has no content. -/
def hasNoContent (statusCode : ℕ) : Bool :=
  decide (statusCode < 200) || statusCode == 204 || statusCode == 304

/-- A response with the status to a request with the method is sent without a body. -/
def isBodiless (method : String) (statusCode : ℕ) : Bool :=
  method == "HEAD" || hasNoContent statusCode

/-- The response of a host, as the HTTP client sees it. -/
structure UpstreamResponse where
  /-- The method of the request that is answered. -/
  method : String
  statusCode : ℕ
  /-- `resp.headers.items()`. -/
  headers : Dict String String
  /-- `resp.content`, without content codings. -/
  content : Octets
  names_lower : ∀ e ∈ headers, e.1.toLower = e.1
  content_eq_nil : isBodiless method statusCode = true → content = []

/-- A response with its raw headers and the octets of its body. -/
structure RelayedResponse extends Response where
  body : Octets

/-- `_STRIP_RESPONSE_HEADERS`. -/
def stripResponseHeaders : List String := ["content-length", "transfer-encoding"]

/-- All characters of the string are in Latin-1. -/
def isLatin1 (s : String) : Bool := s.toList.all (·.toNat < 256)

/-- The headers as they are sent, which have to be in Latin-1. -/
def rawHeaders? (headers : Dict String String) : Option (Dict String String) :=
  if headers.all fun e => isLatin1 e.2 then some (headers.map fun e => (e.1.toLower, e.2))
  else none

/-- The `Content-Length` header that a `JSONResponse` sets, if any. -/
def lengthHeader (statusCode : ℕ) (body : Octets) (raw : Dict String String) :
    Dict String String :=
  if (raw.any fun e => e.1 == "content-length") || hasNoContent statusCode then []
  else [("content-length", toString body.length)]

/-- The `Content-Type` header that a `JSONResponse` sets, if any. -/
def typeHeader (raw : Dict String String) : Dict String String :=
  if raw.any fun e => e.1 == "content-type" then [] else [("content-type", "application/json")]

/-- The headers of a `JSONResponse`, with those it sets itself. -/
def populate (statusCode : ℕ) (body : Octets) (raw : Dict String String) : Dict String String :=
  raw ++ lengthHeader statusCode body raw ++ typeHeader raw

theorem eq_of_mem_lengthHeader {statusCode : ℕ} {body : Octets} {raw : Dict String String}
    {e : String × String} (h : e ∈ lengthHeader statusCode body raw) :
  e = ("content-length", toString body.length)
  := by
  unfold lengthHeader at h
  split at h
  · cases h
  · exact List.mem_singleton.mp h

theorem eq_of_mem_typeHeader {raw : Dict String String} {e : String × String}
    (h : e ∈ typeHeader raw) :
  e = ("content-type", "application/json")
  := by
  unfold typeHeader at h
  split at h
  · cases h
  · exact List.mem_singleton.mp h

namespace UpstreamResponse

def contentType (u : UpstreamResponse) : String := (Dict.get? u.headers "content-type").getD ""

/-- `is_streaming`. -/
def isStreaming (u : UpstreamResponse) : Bool :=
  decide ("text/event-stream".toList <:+: u.contentType.toList)
    || decide ("application/x-ndjson".toList <:+: u.contentType.toList)

/-- The content type begins with `application/json`. -/
def isJson (u : UpstreamResponse) : Bool :=
  "application/json".toList.isPrefixOf u.contentType.toList

/-- The headers with the name of the host. -/
def withHost (hostName : String) (headers : Dict String String) : Dict String String :=
  Dict.set headers "X-Failover-Host" hostName

/-- `passthrough_headers`. -/
def passthroughHeaders (u : UpstreamResponse) : Dict String String :=
  u.headers.filter fun e => !stripResponseHeaders.contains e.1.toLower

/-- The content of the `JSONResponse`; `none` if `resp.json()` raises. -/
def jsonContent? (reader : Json.Reader) (u : UpstreamResponse) : Option Json :=
  if u.isJson then reader.loads u.content else some .null

/-- The response that is passed on; `none` if an exception is raised. -/
def relay (reader : Json.Reader) (hostName : String) (u : UpstreamResponse) :
    Option RelayedResponse :=
  if u.isStreaming then do
    let raw ← rawHeaders? (withHost hostName u.headers)
    return ⟨⟨u.statusCode, .stream, raw⟩, u.content⟩
  else do
    let content ← u.jsonContent? reader
    let body ← content.render?
    let raw ← rawHeaders? (withHost hostName u.passthroughHeaders)
    return ⟨⟨u.statusCode, .json content, populate u.statusCode body raw⟩, body⟩

end UpstreamResponse

/-- The octets of the body that the client receives. -/
def RelayedResponse.delivered (method : String) (r : RelayedResponse) : Octets :=
  if isBodiless method r.statusCode then [] else r.body

/-- The same JSON value is received if one was sent, and the same octets otherwise. -/
def SamePayload (reader : Json.Reader) (sent received : Octets) : Prop :=
  match reader.loads sent with
  | some j => reader.loads received = some j
  | none => received = sent

/-- The client receives the status and the payload of the response. -/
def Transparent (reader : Json.Reader) (hostName : String) (u : UpstreamResponse) : Prop :=
  ∃ r, u.relay reader hostName = some r ∧ r.statusCode = u.statusCode
    ∧ SamePayload reader u.content (r.delivered u.method)

namespace UpstreamResponse

variable {reader : Json.Reader} {hostName : String} {u : UpstreamResponse} {r : RelayedResponse}

/-! ### The response -/

/-- The headers that are passed on can be sent. -/
def Sendable (hostName : String) (headers : Dict String String) : Prop :=
  ∀ e ∈ withHost hostName headers, isLatin1 e.2 = true

theorem rawHeaders?_eq_some_iff {headers raw : Dict String String} :
  rawHeaders? headers = some raw
    ↔ (∀ e ∈ headers, isLatin1 e.2 = true) ∧ raw = headers.map fun e => (e.1.toLower, e.2)
  := by
  unfold rawHeaders?
  split_ifs with hlatin
  · rw [Option.some.injEq, eq_comm]
    exact (and_iff_right (List.all_eq_true.mp hlatin)).symm
  · apply iff_of_false id
    rintro ⟨h, -⟩
    exact hlatin (List.all_eq_true.mpr h)

theorem relay_of_streaming (hstream : u.isStreaming = true) :
  u.relay reader hostName = some r ↔ Sendable hostName u.headers ∧ r = ⟨⟨u.statusCode, .stream,
    (withHost hostName u.headers).map fun e => (e.1.toLower, e.2)⟩, u.content⟩
  := by
  rw [relay, if_pos hstream]
  change Option.bind _ _ = _ ↔ _
  rw [Option.bind_eq_some_iff]
  constructor
  · rintro ⟨raw, hraw, hr⟩
    obtain ⟨hsendable, rfl⟩ := rawHeaders?_eq_some_iff.mp hraw
    exact ⟨hsendable, (Option.some.inj hr).symm⟩
  · rintro ⟨hsendable, rfl⟩
    exact ⟨_, rawHeaders?_eq_some_iff.mpr ⟨hsendable, rfl⟩, rfl⟩

theorem relay_of_not_streaming (hstream : u.isStreaming = false) :
  u.relay reader hostName = some r ↔ Sendable hostName u.passthroughHeaders
    ∧ ∃ content body, u.jsonContent? reader = some content ∧ content.render? = some body
      ∧ r = ⟨⟨u.statusCode, .json content, populate u.statusCode body
          ((withHost hostName u.passthroughHeaders).map fun e => (e.1.toLower, e.2))⟩, body⟩
  := by
  rw [relay, if_neg (by simp [hstream])]
  change Option.bind _ _ = _ ↔ _
  rw [Option.bind_eq_some_iff]
  constructor
  · rintro ⟨content, hcontent, hrest⟩
    obtain ⟨body, hbody, hrest⟩ := Option.bind_eq_some_iff.mp hrest
    obtain ⟨raw, hraw, hr⟩ := Option.bind_eq_some_iff.mp hrest
    obtain ⟨hsendable, rfl⟩ := rawHeaders?_eq_some_iff.mp hraw
    exact ⟨hsendable, content, body, hcontent, hbody, (Option.some.inj hr).symm⟩
  · rintro ⟨hsendable, content, body, hcontent, hbody, rfl⟩
    use content, hcontent
    apply Option.bind_eq_some_iff.mpr
    use body, hbody
    apply Option.bind_eq_some_iff.mpr
    exact ⟨_, rawHeaders?_eq_some_iff.mpr ⟨hsendable, rfl⟩, rfl⟩

/-! ### The payload -/

theorem render?_null :
  Json.null.render? = some (Json.utf8 (Json.text "null"))
  := rfl

/-- What a value that was read is written as is the payload that was read. -/
theorem samePayload_render? {octets written : Octets} {j : Json}
    (hread : reader.loads octets = some j) (hwritten : j.render? = some written) :
  SamePayload reader octets written
  := by
  rw [SamePayload, hread]
  exact reader.loads_render hread hwritten

/-- The text `null` is the payload of the value null only. -/
theorem samePayload_null_iff {octets : Octets} :
  SamePayload reader octets (Json.utf8 (Json.text "null")) ↔ reader.loads octets = some .null
  := by
  unfold SamePayload
  split
  · rename_i j hread
    rw [reader.loads_null, hread, eq_comm]
  · rename_i hread
    rw [hread]
    apply iff_of_false
    · rintro rfl
      rw [reader.loads_null] at hread
      cases hread
    · exact (Option.some_ne_none _).symm

theorem transparent_iff_exists (hstream : u.isStreaming = false) :
  Transparent reader hostName u ↔ Sendable hostName u.passthroughHeaders
    ∧ ∃ content body, u.jsonContent? reader = some content ∧ content.render? = some body
      ∧ SamePayload reader u.content (if isBodiless u.method u.statusCode then [] else body)
  := by
  constructor
  · rintro ⟨r, hrelay, -, hpayload⟩
    obtain ⟨hsendable, content, body, hcontent, hbody, rfl⟩ :=
      (relay_of_not_streaming hstream).mp hrelay
    exact ⟨hsendable, content, body, hcontent, hbody, hpayload⟩
  · rintro ⟨hsendable, content, body, hcontent, hbody, hpayload⟩
    have hrelay := (relay_of_not_streaming hstream).mpr
      ⟨hsendable, content, body, hcontent, hbody, rfl⟩
    exact ⟨_, hrelay, rfl, hpayload⟩

/-- The payload survives: it is JSON and its content type says so, or the content type says
something else and there is none, or it is `null`. -/
def PayloadKept (reader : Json.Reader) (u : UpstreamResponse) : Prop :=
  if u.isJson then ∃ j, reader.loads u.content = some j ∧ j.render?.isSome = true
  else isBodiless u.method u.statusCode = true ∨ reader.loads u.content = some .null

/-- A response that is no stream is passed on transparently exactly when its headers can be
sent and either it is JSON, of a value that can be written, and its content type says so, or
its content type says something else and it has no body or is `null`. -/
theorem transparent_iff (hstream : u.isStreaming = false) :
  Transparent reader hostName u ↔ Sendable hostName u.passthroughHeaders ∧ PayloadKept reader u
  := by
  rw [transparent_iff_exists hstream]
  apply and_congr_right'
  unfold PayloadKept jsonContent?
  split_ifs with hjson hbodiless hbodiless
  · have hnil : u.content = [] := u.content_eq_nil hbodiless
    rw [hnil, reader.loads_nil]
    apply iff_of_false
    · rintro ⟨content, body, hcontent, -⟩
      cases hcontent
    · rintro ⟨j, hread, -⟩
      cases hread
  · constructor
    · rintro ⟨content, body, hcontent, hbody, -⟩
      exact ⟨content, hcontent, Option.isSome_of_eq_some hbody⟩
    · rintro ⟨j, hread, hsome⟩
      obtain ⟨body, hbody⟩ := Option.isSome_iff_exists.mp hsome
      exact ⟨j, body, hread, hbody, samePayload_render? hread hbody⟩
  · apply iff_of_true
    · refine ⟨.null, _, rfl, render?_null, ?_⟩
      rw [u.content_eq_nil hbodiless, SamePayload, reader.loads_nil]
    · exact .inl hbodiless
  · rw [or_iff_right hbodiless, ← samePayload_null_iff]
    constructor
    · rintro ⟨content, body, hcontent, hbody, hpayload⟩
      obtain rfl := Option.some.inj hcontent
      obtain rfl := Option.some.inj (render?_null.symm.trans hbody)
      exact hpayload
    · intro hpayload
      exact ⟨.null, _, rfl, render?_null, hpayload⟩

end UpstreamResponse

/-! ### The headers -/

/-- The number that a `Content-Length` header states. -/
def contentLength? (value : String) : Option ℕ :=
  if value.toList ≠ [] ∧ value.toList.all Char.isDigit = true then
    some (Nat.ofDigitChars 10 value.toList 0)
  else none

/-- The content codings that a `Content-Encoding` header lists; `identity` is none. -/
def contentCodings (value : String) : List String :=
  ((value.toList.splitOn ',').map fun token =>
    String.ofList ((token.filter fun c => !c.isWhitespace).map Char.toLower)).filter
      fun coding => coding ≠ "" ∧ coding ≠ "identity"

/-- The content codings that the headers list. -/
def codings (headers : Dict String String) : List String :=
  headers.flatMap fun e => if e.1 = "content-encoding" then contentCodings e.2 else []

/-- The headers state the length of the body, if any, and no content coding: the octets have
none. -/
structure RelayedResponse.Describes (r : RelayedResponse) : Prop where
  length : ∀ value, ("content-length", value) ∈ r.headers →
    contentLength? value = some r.body.length
  codings : codings r.headers = []

theorem contentLength?_toString (n : ℕ) :
  contentLength? (toString n) = some n
  := by
  change contentLength? n.repr = some n
  rw [contentLength?, Nat.toList_repr, if_pos, Nat.ofDigitChars_ten_toDigits]
  use Nat.toDigits_ne_nil
  apply List.all_eq_true.mpr
  intro c hc
  exact Nat.isDigit_of_mem_toDigits (by decide) le_rfl hc

theorem codings_append (headers headers' : Dict String String) :
  codings (headers ++ headers') = codings headers ++ codings headers'
  := List.flatMap_append

/-- The headers of other names list no codings. -/
theorem codings_eq_nil {headers : Dict String String}
    (h : ∀ e ∈ headers, e.1 ≠ "content-encoding") :
  codings headers = []
  := by
  apply List.flatMap_eq_nil_iff.mpr
  intro e he
  exact if_neg (h e he)

theorem codings_filter (headers : Dict String String) {p : String × String → Bool}
    (h : ∀ e : String × String, e.1 = "content-encoding" → p e = true) :
  codings (headers.filter p) = codings headers
  := by
  induction headers with
  | nil => rfl
  | cons e headers ih =>
      by_cases hp : p e = true
      · rw [List.filter_cons_of_pos hp]
        exact congrArg (_ ++ ·) ih
      · have hnone : codings [e] = [] := by
          apply codings_eq_nil
          intro f hf hname
          rw [List.mem_singleton.mp hf] at hname
          exact hp (h e hname)
        rw [List.filter_cons_of_neg hp, ih, ← List.singleton_append, codings_append, hnone,
          List.nil_append]

namespace UpstreamResponse

variable {reader : Json.Reader} {hostName : String} {u : UpstreamResponse} {r : RelayedResponse}

/-- The raw headers are the headers, whose names are in lower case, and that of the host. -/
theorem raw_eq {headers : Dict String String} (hlower : ∀ e ∈ headers, e.1.toLower = e.1)
    (hostName : String) :
  ((withHost hostName headers).map fun e => (e.1.toLower, e.2))
    = headers ++ [("x-failover-host", hostName)]
  := by
  have hname : "X-Failover-Host".toLower = "x-failover-host" := by decide +kernel
  have habsent : headers.any (fun e => e.1 == "X-Failover-Host") = false := by
    apply List.any_eq_false.mpr
    intro e he hsame
    have hlow := hlower e he
    rw [beq_iff_eq.mp hsame, hname] at hlow
    revert hlow
    decide
  have hset : withHost hostName headers = headers ++ [("X-Failover-Host", hostName)] := by
    rw [withHost, Dict.set, if_neg (by simp [habsent])]
  rw [hset, List.map_append, List.map_singleton, hname]
  congr 1
  rw [List.map_congr_left, List.map_id]
  intro e he
  rw [hlower e he]
  rfl

theorem codings_withHost (headers : Dict String String) (hostName : String) :
  codings (headers ++ [("x-failover-host", hostName)]) = codings headers
  := by
  have hhost : codings [("x-failover-host", hostName)] = [] := by
    apply codings_eq_nil
    intro e he
    rw [List.mem_singleton.mp he]
    change "x-failover-host" ≠ "content-encoding"
    decide
  rw [codings_append, hhost, List.append_nil]

theorem length_mem_withHost {headers : Dict String String} {hostName value : String} :
  ("content-length", value) ∈ headers ++ [("x-failover-host", hostName)]
    ↔ ("content-length", value) ∈ headers
  := by
  rw [List.mem_append, List.mem_singleton]
  apply or_iff_left
  intro hsame
  have hname : "content-length" = "x-failover-host" := congrArg Prod.fst hsame
  revert hname
  decide

/-- The headers that are set afterwards state the length of the body, and no coding. -/
theorem describes_populate (statusCode : ℕ) (content : Content) (body : Octets)
    {raw : Dict String String} (hlength : ∀ value, ("content-length", value) ∉ raw) :
  RelayedResponse.Describes ⟨⟨statusCode, content, populate statusCode body raw⟩, body⟩
    ↔ codings raw = []
  := by
  have hlengthCodings : codings (lengthHeader statusCode body raw) = [] := by
    apply codings_eq_nil
    intro e he
    rw [eq_of_mem_lengthHeader he]
    change "content-length" ≠ "content-encoding"
    decide
  have htypeCodings : codings (typeHeader raw) = [] := by
    apply codings_eq_nil
    intro e he
    rw [eq_of_mem_typeHeader he]
    change "content-type" ≠ "content-encoding"
    decide
  constructor
  · rintro ⟨-, hcodings⟩
    rwa [populate, codings_append, codings_append, hlengthCodings, htypeCodings,
      List.append_nil, List.append_nil] at hcodings
  · intro hcodings
    constructor
    · intro value hvalue
      obtain hset | htype := List.mem_append.mp hvalue
      · obtain hraw | hlen := List.mem_append.mp hset
        · cases hlength value hraw
        · obtain rfl : value = toString body.length :=
            congrArg Prod.snd (eq_of_mem_lengthHeader hlen)
          apply contentLength?_toString
      · have hname : "content-length" = "content-type" :=
          congrArg Prod.fst (eq_of_mem_typeHeader htype)
        exact absurd hname (by decide)
    · rw [populate, codings_append, codings_append, hlengthCodings, htypeCodings, hcodings]
      rfl

/-- The headers of the response that is passed on describe its body exactly when those of the
host list no content coding, and state the length of a stream as it is without. -/
theorem describes_iff (h : u.relay reader hostName = some r) :
  r.Describes ↔ codings u.headers = [] ∧ (u.isStreaming = true →
    ∀ value, ("content-length", value) ∈ u.headers →
      contentLength? value = some u.content.length)
  := by
  cases hstream : u.isStreaming with
  | true =>
      obtain ⟨-, rfl⟩ := (relay_of_streaming hstream).mp h
      rw [raw_eq u.names_lower]
      constructor
      · rintro ⟨hlength, hcodings⟩
        rw [codings_withHost] at hcodings
        use hcodings
        intro _ value hvalue
        exact hlength value (length_mem_withHost.mpr hvalue)
      · rintro ⟨hcodings, hlength⟩
        constructor
        · intro value hvalue
          exact hlength rfl value (length_mem_withHost.mp hvalue)
        · rw [codings_withHost, hcodings]
  | false =>
      obtain ⟨-, content, body, -, -, rfl⟩ := (relay_of_not_streaming hstream).mp h
      have hlower : ∀ e ∈ u.passthroughHeaders, e.1.toLower = e.1 :=
        fun e he => u.names_lower e (List.mem_of_mem_filter he)
      have hstripped (value : String) : ("content-length", value) ∉ u.passthroughHeaders := by
        intro hmem
        have hkept : (!stripResponseHeaders.contains "content-length".toLower) = true :=
          (List.mem_filter.mp hmem).2
        revert hkept
        decide +kernel
      have hcodings : codings u.passthroughHeaders = codings u.headers := by
        apply codings_filter
        intro e hname
        rw [hname]
        decide +kernel
      rw [raw_eq hlower, describes_populate, codings_withHost, hcodings]
      · exact (and_iff_left (fun h => absurd h Bool.false_ne_true)).symm
      · intro value hvalue
        exact hstripped value (length_mem_withHost.mp hvalue)

end UpstreamResponse

/-! ### Three responses -/

/-- A reader of `null` and of the empty object. -/
def sampleReader : Json.Reader where
  loads octets :=
    if octets = ascii "null" then some .null
    else if octets = ascii "\x7b\x7d" then some (.object [])
    else none
  loads_nil := by decide
  loads_null := if_pos (by decide)
  loads_render := by
    intro octets j written hread hwritten
    split_ifs at hread
    · obtain rfl := Option.some.inj hread
      obtain rfl := Option.some.inj hwritten
      rfl
    · obtain rfl := Option.some.inj hread
      obtain rfl := Option.some.inj hwritten
      rfl

/-- A response to `GET` with the body. -/
def sampleResponse (headers : Dict String String) (body : String)
    (hlower : ∀ e ∈ headers, e.1.toLower = e.1) : UpstreamResponse where
  method := "GET"
  statusCode := 200
  headers := headers
  content := ascii body
  names_lower := hlower
  content_eq_nil := by
    intro h
    cases h

/-- The response of `GET /`. -/
def running : UpstreamResponse :=
  sampleResponse [("content-type", "text/plain; charset=utf-8")] "Ollama is running"
    (by decide +kernel)

def emptyObject : UpstreamResponse :=
  sampleResponse [("content-type", "application/json")] "\x7b\x7d" (by decide +kernel)

/-- The response with the empty object that was compressed. -/
def compressed : UpstreamResponse :=
  sampleResponse [("content-type", "application/json"), ("content-encoding", "gzip")]
    "\x7b\x7d" (by decide +kernel)

theorem loads_emptyObject :
  sampleReader.loads emptyObject.content = some (.object [])
  := by
  have hnull : emptyObject.content ≠ ascii "null" := by decide
  have hempty : emptyObject.content = ascii "\x7b\x7d" := rfl
  simp only [sampleReader, if_neg hnull, if_pos hempty]

/-- JSON is passed on. -/
theorem emptyObject_transparent :
  Transparent sampleReader "a" emptyObject
  := by
  apply (UpstreamResponse.transparent_iff (by decide)).mpr
  constructor
  · exact List.all_eq_true.mp (by decide +kernel)
  · rw [UpstreamResponse.PayloadKept, if_pos (by decide)]
    exact ⟨.object [], loads_emptyObject, by decide⟩

/-- A text is replaced by `null`. -/
theorem not_transparent :
  ¬ Transparent sampleReader "a" running
  := by
  have hnone : sampleReader.loads running.content = none := by
    have hnull : running.content ≠ ascii "null" := by decide
    have hempty : running.content ≠ ascii "\x7b\x7d" := by decide
    simp only [sampleReader, if_neg hnull, if_neg hempty]
  rw [UpstreamResponse.transparent_iff (by decide), UpstreamResponse.PayloadKept,
    if_neg (by decide), hnone]
  rintro ⟨-, hbodiless | hnull⟩
  · revert hbodiless
    decide
  · cases hnull

/-- The headers of JSON describe it. -/
theorem emptyObject_describes :
  ∃ r, emptyObject.relay sampleReader "a" = some r ∧ r.Describes
  := by
  have hsome : (emptyObject.relay sampleReader "a").isSome = true := by decide +kernel
  obtain ⟨r, hr⟩ := Option.isSome_iff_exists.mp hsome
  use r, hr
  apply (UpstreamResponse.describes_iff hr).mpr
  constructor
  · decide
  · have hstream : emptyObject.isStreaming ≠ true := by decide
    exact fun h => absurd h hstream

/-- The headers of compressed JSON say that it is compressed. -/
theorem not_describes :
  ∃ r, compressed.relay sampleReader "a" = some r ∧ ¬ r.Describes
  := by
  have hsome : (compressed.relay sampleReader "a").isSome = true := by decide +kernel
  obtain ⟨r, hr⟩ := Option.isSome_iff_exists.mp hsome
  use r, hr
  rw [UpstreamResponse.describes_iff hr]
  rintro ⟨hcodings, -⟩
  revert hcodings
  decide

end OllamaQueueProxy
