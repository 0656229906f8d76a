import OllamaQueueProxy.Proxy.Dispatch

/-!
# The protection of the model management

With `allow_model_management` off, `dispatch_request` compares the path of a request with
the paths of the model management.  The path that the upstream server sees in the end is
another one: it begins with the path in the URL of the host, the HTTP client removes its dot
segments, and the server decodes its escapes.  No request reaches the model management exactly
when every path that becomes one of it is left as it is by all this (`protected_iff`).
-/

open Url (Octets ascii)

namespace OllamaQueueProxy

namespace DispatchCall

/-- The path for which the path of the call is another spelling, at a host with the given path in
its URL. -/
def plainPath (base : Octets) (c : DispatchCall) : Octets :=
  Url.decode (Url.requestPath (base ++ c.path))

/-- The upstream server does not see a path of the model management. -/
def Protected (cfg : ProxyConfig) (client : HttpClient) (base : Octets) (c : DispatchCall) :
    Prop :=
  ∀ o, c.outgoing cfg = .ok o → ∀ p, o.receivedPath? client base = some p →
    p ∉ modelManagementPaths

variable {cfg : ProxyConfig} {client : HttpClient} {base : Octets} {c : DispatchCall}
  {o : Outgoing}

/-- A call is refused exactly when its path is one of the model management. -/
theorem path_of_outgoing (hcfg : cfg.allowModelManagement = false) (h : c.outgoing cfg = .ok o) :
  c.path ∉ modelManagementPaths ∧ o.path = c.path
  := by
  unfold outgoing at h
  split at h
  · cases h
  · rename_i hrefused
    obtain rfl := Except.ok.inj h
    constructor
    · intro hmem
      apply hrefused
      exact ⟨List.contains_iff_mem.mpr hmem, hcfg⟩
    · rfl

theorem exists_outgoing (cfg : ProxyConfig) (h : c.path ∉ modelManagementPaths) :
  ∃ o, c.outgoing cfg = .ok o
  := by
  unfold outgoing
  rw [if_neg]
  · exact ⟨_, rfl⟩
  · rintro ⟨hmem, _⟩
    exact h (List.contains_iff_mem.mp hmem)

/-! ### The paths of the model management -/

/-- They are spelled out: the part after the slash has neither escapes nor dot segments. -/
theorem spelledOut_of_mem {p : Octets} (h : p ∈ modelManagementPaths) :
  ∃ q, p = Url.slash :: q ∧ q ≠ [] ∧ Url.percent ∉ p ∧ Url.NoDotSegments q
  := by
  have hall : ∀ p ∈ modelManagementPaths, p = Url.slash :: p.tail ∧ p.tail ≠ []
      ∧ Url.percent ∉ p ∧ Url.NoDotSegments p.tail := by
    decide
  exact ⟨p.tail, hall p h⟩

theorem lt_of_mem {p : Octets} (h : p ∈ modelManagementPaths) :
  ∀ c ∈ p, c < 128
  := by
  revert p
  decide +kernel

/-- None of them ends with another one. -/
theorem eq_of_suffix {p p' : Octets} (h : p ∈ modelManagementPaths)
    (h' : p' ∈ modelManagementPaths) (hsuffix : p <:+ p') :
  p' = p
  := by
  have hall : ∀ p ∈ modelManagementPaths, ∀ p' ∈ modelManagementPaths, p <:+ p' → p' = p := by
    decide
  exact hall p h p' h' hsuffix

theorem tail_notMem {p : Octets} (h : p ∈ modelManagementPaths) :
  p.tail ∉ modelManagementPaths
  := by
  revert p
  decide

/-- A path of the model management remains at the end, whatever the path in the URL of the host
is, so it becomes no other one. -/
theorem plainPath_eq_path (hpath : c.path ∈ modelManagementPaths)
    (hplain : c.plainPath base ∈ modelManagementPaths) :
  c.plainPath base = c.path
  := by
  obtain ⟨q, hslash, hne, hescapes, hdots⟩ := spelledOut_of_mem hpath
  have hself : Url.decode (Url.slash :: q) = Url.slash :: q :=
    Url.decode_eq_self (hslash ▸ hescapes)
  rw [plainPath, hslash] at hplain ⊢
  obtain hwhole | hlonger := Url.requestPath_append hdots hne base
  · rw [hwhole, Url.decode_eq_self fun hmem => hescapes (hslash ▸ List.mem_cons_of_mem _ hmem)]
      at hplain
    apply absurd hplain
    obtain rfl : c.path.tail = q := by rw [hslash, List.tail_cons]
    exact tail_notMem hpath
  · rw [hlonger, Url.decode_append_cons rfl, hself] at hplain ⊢
    exact eq_of_suffix (hslash ▸ hpath) hplain (List.suffix_append _ _)

/-! ### The protection -/

/-- The upstream server sees a path of the model management if and only if the path of the call
is a spelling of it. -/
theorem receivedPath_iff (hclient : client.Normalizes (base ++ c.path)) (h : o.path = c.path)
    {p : Octets} (hp : p ∈ modelManagementPaths) :
  o.receivedPath? client base = some p
    ↔ (client (base ++ c.path)).isSome = true ∧ c.plainPath base = p
  := by
  rw [Outgoing.receivedPath?, h, Option.map_eq_some_iff, plainPath]
  constructor
  · rintro ⟨sent, hsent, hdecoded⟩
    exact ⟨Option.isSome_of_eq_some hsent, (hclient sent hsent p (lt_of_mem hp)).mp hdecoded⟩
  · rintro ⟨hsome, hplain⟩
    obtain ⟨sent, hsent⟩ := Option.isSome_iff_exists.mp hsome
    exact ⟨sent, hsent, (hclient sent hsent p (lt_of_mem hp)).mpr hplain⟩

/-- The upstream server sees no path of the model management exactly when the path of the call
becomes no other one than itself, unless the client refuses the URL. -/
theorem protected_iff (hcfg : cfg.allowModelManagement = false)
    (hclient : client.Normalizes (base ++ c.path)) :
  c.Protected cfg client base ↔ ((client (base ++ c.path)).isSome = true →
    c.plainPath base ∈ modelManagementPaths → c.plainPath base = c.path)
  := by
  constructor
  · intro hprotected hsome hplain
    by_cases hpath : c.path ∈ modelManagementPaths
    · exact plainPath_eq_path hpath hplain
    · obtain ⟨o, ho⟩ := exists_outgoing cfg hpath
      have hsame := (path_of_outgoing hcfg ho).2
      exact absurd hplain
        (hprotected o ho _ ((receivedPath_iff hclient hsame hplain).mpr ⟨hsome, rfl⟩))
  · intro hkept o ho p hreceived hp
    obtain ⟨hpath, hsame⟩ := path_of_outgoing hcfg ho
    obtain ⟨hsome, rfl⟩ := (receivedPath_iff hclient hsame hp).mp hreceived
    apply hpath
    rwa [← hkept hsome hp]

/-- The default values of the section `proxy`. -/
def defaultProxy : ProxyConfig := ⟨false, 50⟩

/-- The octets that are left as they are in a path. -/
def pathSafe (c : UInt8) : Bool :=
  (33 ≤ c && c ≤ 126) && !([34, 35, 60, 62, 63, 96, 123, 125] : Octets).contains c

/-- A client that refuses URLs with control characters. -/
def strictClient : HttpClient := fun p =>
  if p.any fun c => c < 32 || c == 127 then none
  else some (Url.quote pathSafe (Url.requestPath p))

theorem strictClient_normalizes (p : Octets) :
  strictClient.Normalizes p
  := by
  intro sent hsent ascii _
  unfold strictClient at hsent
  split_ifs at hsent
  obtain rfl := Option.some.inj hsent
  rw [Url.decode_quote]

/-- A request without a body, as `proxy_handler` dispatches it. -/
def ofTarget (target : String) : DispatchCall :=
  let r : Request := {
    method := "POST"
    target := ascii target
    queryString := []
    headers := []
    clientHost := none
    requestId := "r"
    chunks := []
    body := .empty
    sum_chunks := Bytes.sum_nil_eq_length_empty }
  ⟨r, r.body, none, r.nativePath⟩

/-- A path that becomes none of the model management cannot reach it. -/
theorem chat_protected :
  (ofTarget "/api/chat").Protected defaultProxy strictClient []
  := by
  rw [protected_iff rfl (strictClient_normalizes _)]
  intro _
  decide

/-- A request for `/api/./pull` is passed on, and the upstream server sees `/api/pull`. -/
theorem not_protected_of_dotSegment :
  ¬ (ofTarget "/api/./pull").Protected defaultProxy strictClient []
  := by
  intro h
  have hpath : (ofTarget "/api/./pull").path ∉ modelManagementPaths := by decide
  obtain ⟨o, ho⟩ := exists_outgoing defaultProxy hpath
  have hsame := (path_of_outgoing rfl ho).2
  apply h o ho (ascii "/api/pull") _ (by decide)
  rw [Outgoing.receivedPath?, hsame]
  decide

/-- So are a dot segment at the end, an escape that is escaped itself, and the end of a path that
begins in the URL of the host. -/
example : (ofTarget "/api/pull/.").plainPath [] ∈ modelManagementPaths
    ∧ (ofTarget "/api/%2570ull").plainPath [] ∈ modelManagementPaths
    ∧ (ofTarget "/pull").plainPath (ascii "/api") ∈ modelManagementPaths := by decide

end DispatchCall

end OllamaQueueProxy
