import OllamaQueueProxy.Proxy.Dispatch

/-!
# The headers that are forwarded

No header whose name is in `_STRIP_REQUEST_HEADERS`, in any letter case, is sent to a host, and
what is sent does not depend on such headers (`forwardHeaders_stripped`,
`forwardHeaders_withHeaders`).  The header `X-Client-ID` is the one of the client in whose name
the call is made, unless that is empty (`get?_forwardHeaders_withHeaders`).
-/

namespace OllamaQueueProxy

/-! ### Letter case -/

theorem toLower_char_toLower (c : Char) :
  c.toLower.toLower = c.toLower
  := by
  by_cases h : c.val ≥ 'A'.val ∧ c.val ≤ 'Z'.val
  · have hlower : ¬ (c.toLower.val ≥ 'A'.val ∧ c.toLower.val ≤ 'Z'.val) := by
      have hge := UInt32.le_iff_toNat_le.mp h.1
      have hle := UInt32.le_iff_toNat_le.mp h.2
      have hlowered : c.toLower = _ := dif_pos h
      rw [hlowered]
      intro h'
      have hle' := UInt32.le_iff_toNat_le.mp h'.2
      simp at hge hle hle'
      omega
    exact dif_neg hlower
  · have hsame : c.toLower = c := dif_neg h
    rw [hsame, hsame]

theorem toLower_toLower (s : String) :
  s.toLower.toLower = s.toLower
  := by
  unfold String.toLower
  rw [String.map_map]
  congr 1
  funext c
  apply toLower_char_toLower

/-! ### Requests that differ in a header -/

/-- The headers that do not have the name in any letter case. -/
def headersExcept (name : String) (headers : Dict String String) : Dict String String :=
  headers.filter fun h => h.1.toLower ≠ name

/-- The request with other headers. -/
def Request.withHeaders (r : Request) (headers : Dict String String) : Request :=
  { r with headers := headers }

variable {name key : String} {headers headers' : Dict String String}

/-- Headers of other names do not depend on those of the name. -/
theorem get?_headersExcept (hkey : key.toLower ≠ name) :
  Dict.get? (headersExcept name headers) key = Dict.get? headers key
  := by
  unfold Dict.get? headersExcept
  rw [List.find?_filter]
  congr 2
  funext h
  by_cases hsame : h.1 = key
  · simp [hsame, hkey]
  · simp [hsame]

theorem header?_withHeaders {r : Request}
    (h : headersExcept name headers = headersExcept name r.headers) (hkey : key.toLower ≠ name) :
  (r.withHeaders headers).header? key = r.header? key
  := by
  calc
    Dict.get? headers key = Dict.get? (headersExcept name headers) key :=
      (get?_headersExcept hkey).symm
    _ = Dict.get? (headersExcept name r.headers) key := by rw [h]
    _ = Dict.get? r.headers key := get?_headersExcept hkey

/-! ### The headers of a call -/

/-- The headers of a request that are forwarded, with their names in lower case. -/
def keptHeaders (headers : Dict String String) : List (String × String) :=
  (headers.filter fun h => !stripRequestHeaders.contains h.1.toLower).map
    fun h => (h.1.toLower, h.2)

theorem keptHeaders_headersExcept (name : String) (headers : Dict String String) :
  keptHeaders (headersExcept name headers) = (keptHeaders headers).filter fun e => e.1 ≠ name
  := by
  unfold keptHeaders headersExcept
  rw [List.filter_map, List.filter_filter, List.filter_filter]
  congr 2
  funext h
  exact Bool.and_comm _ _

theorem keptHeaders_stripped {e : String × String} (h : e ∈ keptHeaders headers) :
  e.1.toLower = e.1 ∧ e.1 ∉ stripRequestHeaders
  := by
  obtain ⟨f, hf, rfl⟩ := List.mem_map.mp h
  use toLower_toLower f.1
  simpa using (List.mem_filter.mp hf).2

/-- The value of a header that is forwarded does not depend on those of another name. -/
theorem get?_keptHeaders (h : headersExcept name headers = headersExcept name headers')
    (hkey : key ≠ name) :
  (Dict.ofList (keptHeaders headers)).get? key = (Dict.ofList (keptHeaders headers')).get? key
  := by
  have hexcept (headers : Dict String String) :
      (Dict.ofList (keptHeaders (headersExcept name headers))).get? key
        = (Dict.ofList (keptHeaders headers)).get? key := by
    rw [keptHeaders_headersExcept]
    apply Dict.get?_ofList_filter
    rintro e rfl
    simpa using hkey
  rw [← hexcept headers, h, hexcept]

/-- Some header `X-Client-ID` added to the request changes the one that is forwarded. -/
theorem exists_otherHeaders (headers : Dict String String) :
  ∃ headers', headersExcept "x-client-id" headers' = headersExcept "x-client-id" headers
    ∧ (Dict.ofList (keptHeaders headers')).get? "x-client-id"
      ≠ (Dict.ofList (keptHeaders headers)).get? "x-client-id"
  := by
  obtain ⟨value, hvalue⟩ : ∃ value : String,
      some value ≠ (Dict.ofList (keptHeaders headers)).get? "x-client-id" := by
    by_cases hempty : some "" = (Dict.ofList (keptHeaders headers)).get? "x-client-id"
    · use "a"
      rw [← hempty]
      decide
    · exact ⟨"", hempty⟩
  have hlower : "x-client-id".toLower = "x-client-id" := by decide +kernel
  have hkept : keptHeaders (headers ++ [("x-client-id", value)])
      = keptHeaders headers ++ [("x-client-id", value)] := by
    have hnew : keptHeaders [("x-client-id", value)] = [("x-client-id", value)] := by
      simp [keptHeaders, hlower, stripRequestHeaders]
    rw [keptHeaders, List.filter_append, List.map_append]
    exact congrArg (keptHeaders headers ++ ·) hnew
  use headers ++ [("x-client-id", value)]
  constructor
  · simp [headersExcept, hlower]
  · have hset : Dict.ofList (keptHeaders headers ++ [("x-client-id", value)])
        = (Dict.ofList (keptHeaders headers)).set "x-client-id" value := by
      rw [Dict.ofList, List.foldl_append]
      rfl
    rwa [hkept, hset, Dict.get?_set_self]

namespace DispatchCall

/-- The call for the request with other headers. -/
def withHeaders (c : DispatchCall) (headers : Dict String String) : DispatchCall :=
  { c with request := c.request.withHeaders headers }

variable {c : DispatchCall}

theorem clientId_cases (c : DispatchCall) :
  c.clientId.all String.isEmpty = true
    ∨ ∃ clientId, c.clientId = some clientId ∧ clientId.isEmpty = false
  := by
  cases c.clientId with
  | none => exact .inl rfl
  | some clientId =>
      cases hempty : clientId.isEmpty with
      | true => exact .inl hempty
      | false => exact .inr ⟨clientId, rfl, hempty⟩

/-- Without a client, the headers of the request are forwarded as they are. -/
theorem forwardHeaders_of_empty (h : c.clientId.all String.isEmpty = true) :
  c.forwardHeaders = Dict.ofList (keptHeaders c.request.headers)
  := by
  unfold forwardHeaders
  cases hclient : c.clientId with
  | none => rfl
  | some clientId =>
      rw [hclient] at h
      have hempty : clientId.isEmpty = true := h
      dsimp only
      rw [if_pos hempty]
      rfl

theorem forwardHeaders_of_client {clientId : String} (hclient : c.clientId = some clientId)
    (hne : clientId.isEmpty = false) :
  c.forwardHeaders = Dict.set (.ofList (keptHeaders c.request.headers)) "x-client-id" clientId
  := by
  unfold forwardHeaders
  rw [hclient]
  dsimp only
  rw [if_neg (by simp [hne])]
  rfl

/-- No header in the strip set is forwarded, in any letter case. -/
theorem forwardHeaders_stripped {e : String × String} (he : e ∈ c.forwardHeaders) :
  e.1.toLower ∉ stripRequestHeaders
  := by
  have hkept (he : e ∈ Dict.ofList (keptHeaders c.request.headers)) :
      e.1.toLower ∉ stripRequestHeaders := by
    obtain ⟨hlower, hstripped⟩ := keptHeaders_stripped (Dict.mem_of_mem_ofList he)
    rwa [hlower]
  obtain hempty | ⟨clientId, hclient, hne⟩ := c.clientId_cases
  · rw [forwardHeaders_of_empty hempty] at he
    exact hkept he
  · rw [forwardHeaders_of_client hclient hne] at he
    obtain hold | rfl := Dict.mem_set he
    · exact hkept hold
    · change "x-client-id".toLower ∉ stripRequestHeaders
      decide +kernel

/-- The headers in the strip set have no influence on those that are forwarded. -/
theorem forwardHeaders_withHeaders (hname : name ∈ stripRequestHeaders)
    (h : headersExcept name headers = headersExcept name c.request.headers) :
  (c.withHeaders headers).forwardHeaders = c.forwardHeaders
  := by
  have hexcept (headers : Dict String String) :
      keptHeaders (headersExcept name headers) = keptHeaders headers := by
    rw [keptHeaders_headersExcept, List.filter_eq_self]
    intro e he
    apply decide_eq_true
    rintro rfl
    exact (keptHeaders_stripped he).2 hname
  have hkept : keptHeaders headers = keptHeaders c.request.headers := by
    rw [← hexcept headers, h, hexcept]
  obtain hempty | ⟨clientId, hclient, hne⟩ := c.clientId_cases
  · rw [forwardHeaders_of_empty hempty, ← hkept]
    exact forwardHeaders_of_empty hempty
  · rw [forwardHeaders_of_client hclient hne, ← hkept]
    exact forwardHeaders_of_client hclient hne

/-- In the name of a client, the header `X-Client-ID` of the request has no influence on the
headers that are forwarded. -/
theorem get?_forwardHeaders_withHeaders {clientId : String}
    (hclient : c.clientId = some clientId) (hne : clientId.isEmpty = false)
    (h : headersExcept "x-client-id" headers = headersExcept "x-client-id" c.request.headers) :
  Dict.get? (c.withHeaders headers).forwardHeaders key = Dict.get? c.forwardHeaders key
  := by
  have hother : (c.withHeaders headers).forwardHeaders
      = Dict.set (.ofList (keptHeaders headers)) "x-client-id" clientId :=
    forwardHeaders_of_client hclient hne
  rw [hother, forwardHeaders_of_client hclient hne]
  by_cases hkey : key = "x-client-id"
  · rw [hkey, Dict.get?_set_self, Dict.get?_set_self]
  · rw [Dict.get?_set_of_ne _ hkey, Dict.get?_set_of_ne _ hkey]
    exact get?_keptHeaders h hkey

end DispatchCall

end OllamaQueueProxy
