import OllamaQueueProxy.Library.UrlSplit

/-!
# The check of the webhook URL

At the start the URL of the webhook is refused if its host is, or is resolved to, an address of
an internal network.  The refusal of an internal address is told from the failure to read an
address by words of its message, which also stand in the names of hosts, and IPv4-mapped
addresses are in none of the networks (`guardsUrl_iff`).
-/

open Json (Text text)
open Ascii UrlSplit

namespace OllamaQueueProxy

/-! ### Internal networks -/

/-- The IPv6 address with a first part and zeros after it. -/
def leading (part : ℕ) : BitVec 128 := BitVec.ofNat 128 (part * 2 ^ 112)

/-- The first part of an IPv6 address. -/
def firstPart (ip : BitVec 128) : ℕ := ip.toNat / 2 ^ 112

/-- `_PRIVATE_NETWORKS`. -/
def privateNetworks : List IpNetwork :=
  [.v4 ⟨IpAddress.quad 10 0 0 0, 8, by decide⟩,
    .v4 ⟨IpAddress.quad 172 16 0 0, 12, by decide⟩,
    .v4 ⟨IpAddress.quad 192 168 0 0, 16, by decide⟩,
    .v4 ⟨IpAddress.quad 127 0 0 0, 8, by decide⟩,
    .v4 ⟨IpAddress.quad 169 254 0 0, 16, by decide⟩,
    .v6 ⟨1, 128, by decide⟩,
    .v6 ⟨leading 0xfc00, 7, by decide⟩,
    .v6 ⟨leading 0xfe80, 10, by decide⟩]

/-- An address for private use, of the loopback or of the link: those of RFC 1918, `127.x.x.x`,
`169.254.x.x`, `::1`, and the unique local and the link-local addresses of IPv6. -/
def Internal : IpAddress → Prop
  | .v4 ip =>
      IpAddress.quad 10 0 0 0 ≤ ip ∧ ip ≤ IpAddress.quad 10 255 255 255
        ∨ IpAddress.quad 172 16 0 0 ≤ ip ∧ ip ≤ IpAddress.quad 172 31 255 255
        ∨ IpAddress.quad 192 168 0 0 ≤ ip ∧ ip ≤ IpAddress.quad 192 168 255 255
        ∨ IpAddress.quad 127 0 0 0 ≤ ip ∧ ip ≤ IpAddress.quad 127 255 255 255
        ∨ IpAddress.quad 169 254 0 0 ≤ ip ∧ ip ≤ IpAddress.quad 169 254 255 255
  | .v6 ip _ =>
      ip = 1
        ∨ 0xfc00 ≤ firstPart ip ∧ firstPart ip ≤ 0xfdff
        ∨ 0xfe80 ≤ firstPart ip ∧ firstPart ip ≤ 0xfebf

instance : DecidablePred Internal
  | .v4 _ => inferInstanceAs (Decidable (_ ∨ _))
  | .v6 _ _ => inferInstanceAs (Decidable (_ ∨ _))

/-- `_check_private`. -/
def checkPrivate (addr : IpAddress) (label : Text) : Except Text Unit :=
  privateNetworks.forM fun net =>
    if net.contains addr then
      .error (text "Webhook URL resolves to a private/loopback address "
        ++ text "(" ++ label ++ text " -> " ++ addr.str
        ++ text "). This is an SSRF risk. Use a public URL.")
    else .ok ()

/-! ### The check -/

/-- The text of an address, as the resolver gives it. -/
structure SockAddr where
  host : Text
  address : IpAddress
  parse?_host : IpAddress.parse? host = some address

/-- The addresses of a host, or what went wrong. -/
abbrev Resolver := Text → Except Text (List SockAddr)

/-- The check of a host that is the text of an address. -/
def checkLiteral (unicode : Unicode) (host : Text) : Except Text Unit := do
  let addr ← ipAddress unicode host
  checkPrivate addr host

/-- The check of the addresses that a host is resolved to. -/
def checkResolved (unicode : Unicode) (resolve : Resolver) (host : Text) : Except Text Unit :=
  match resolve host with
  | .error e =>
      .error (text "Webhook URL hostname cannot be resolved: " ++ host
        ++ text " (" ++ e ++ text ")")
  | .ok results =>
      if results = [] then
        .error (text "Webhook URL hostname resolved to no addresses: " ++ host)
      else
        results.forM fun sockaddr => do
          let addr ← ipAddress unicode sockaddr.host
          checkPrivate addr host

/-- The message is taken for that of an internal address. -/
def SaysPrivate (message : Text) : Prop := text "private" <:+: message ∨ text "SSRF" <:+: message

instance (message : Text) : Decidable (SaysPrivate message) := inferInstanceAs (Decidable (_ ∨ _))

/-- What is checked of a host. -/
def checkHost (unicode : Unicode) (resolve : Resolver) (host : Text) : Except Text Unit :=
  match checkLiteral unicode host with
  | .ok () => .ok ()
  | .error e => if SaysPrivate e then .error e else checkResolved unicode resolve host

/-- `validate_webhook_url`. -/
def validateWebhookUrl (unicode : Unicode) (resolve : Resolver) (url : Text)
    (allowedHosts : Option (List Text)) : Except Text Unit :=
  if url = [] then .ok ()
  else do
    let parsed ← urlsplit unicode url
    let host := (parsed.hostname unicode).getD []
    if parsed.scheme ∉ [text "http", text "https"] then
      .error (text "Webhook URL must use http or https scheme, got: " ++ unicode.repr parsed.scheme)
    else if host = [] then .error (text "Webhook URL has no hostname")
    else if host ∈ allowedHosts.getD [] then .ok ()
    else checkHost unicode resolve host

/-! ### What the guard is for -/

/-- The addresses that a host stands for. -/
def concerned (host : Text) (results : List SockAddr) : List IpAddress :=
  match IpAddress.parse? host with
  | some addr => [addr]
  | none => results.map SockAddr.address

/-- An HTTP URL with a host that is not exempt. -/
structure IsChecked (unicode : Unicode) (url : Text) (allowedHosts : Option (List Text))
    (host : Text) : Prop where
  parts : ∃ parsed, urlsplit unicode url = .ok parsed
    ∧ parsed.scheme ∈ [text "http", text "https"] ∧ parsed.hostname unicode = some host
  host_ne_nil : host ≠ []
  notMem_allowedHosts : host ∉ allowedHosts.getD []

/-- The URL is accepted exactly if no address that its host stands for is internal. -/
def GuardsUrl (unicode : Unicode) (resolve : Resolver) (url : Text)
    (allowedHosts : Option (List Text)) (host : Text) (results : List SockAddr) : Prop :=
  validateWebhookUrl unicode resolve url allowedHosts = .ok ()
    ↔ ∀ addr ∈ concerned host results, ¬ Internal addr.unmapped

/-- The IPv4-mapped address of an internal one. -/
def Disguised (addr : IpAddress) : Prop := addr.unmapped ≠ addr ∧ Internal addr.unmapped

instance (addr : IpAddress) : Decidable (Disguised addr) := inferInstanceAs (Decidable (_ ∧ _))

/-- The addresses that a host stands for are judged rightly. -/
def JudgedRightly (host : Text) (results : List SockAddr) : Prop :=
  match IpAddress.parse? host with
  | some addr => ¬ Disguised addr
  | none =>
      if SaysPrivate host then ∃ sockaddr ∈ results, Internal sockaddr.address.unmapped
      else (∃ sockaddr ∈ results, Internal sockaddr.address)
        ∨ ∀ sockaddr ∈ results, ¬ Disguised sockaddr.address

variable {α ε : Type} {unicode : Unicode} {resolve : Resolver} {url host : Text}
  {allowedHosts : Option (List Text)} {results : List SockAddr} {addr : IpAddress}

/-! ### Loops of checks -/

theorem forM_eq_ok {f : α → Except ε Unit} {l : List α} :
  l.forM f = .ok () ↔ ∀ x ∈ l, f x = .ok ()
  := by
  induction l with
  | nil => simp [pure, Except.pure]
  | cons x l ih =>
      rw [List.forM_eq_forM] at ih ⊢
      rw [List.forM_cons, List.forall_mem_cons]
      cases hx : f x with
      | error e => simp [bind, Except.bind]
      | ok => simpa [bind, Except.bind] using ih

theorem exists_of_forM_eq_error {f : α → Except ε Unit} {l : List α} {e : ε}
    (h : l.forM f = .error e) :
  ∃ x ∈ l, f x = .error e
  := by
  induction l with
  | nil => cases h
  | cons x l ih =>
      rw [List.forM_eq_forM] at ih h
      rw [List.forM_cons] at h
      cases hx : f x with
      | error e' =>
          rw [hx] at h
          obtain rfl : e' = e := Except.error.inj h
          exact ⟨x, List.mem_cons_self, hx⟩
      | ok =>
          rw [hx] at h
          obtain ⟨y, hy, hfailed⟩ := ih h
          exact ⟨y, List.mem_cons_of_mem x hy, hfailed⟩

/-! ### Internal addresses -/

theorem contains_iff :
  (∃ net ∈ privateNetworks, net.contains addr = true) ↔ Internal addr
  := by
  cases addr with
  | v4 ip =>
      simp only [privateNetworks, List.mem_cons, List.not_mem_nil, or_false, exists_eq_or_imp,
        ↓existsAndEq, IpNetwork.contains, Prefix.covers_iff, IpAddress.quad, BitVec.toNat_ofNat,
        Bool.false_eq_true, and_false, or_self, Internal, BitVec.le_def]
      omega
  | v6 ip scopeId =>
      simp only [privateNetworks, List.mem_cons, List.not_mem_nil, or_false, exists_eq_or_imp,
        ↓existsAndEq, true_and, IpNetwork.contains, Prefix.covers_iff, leading,
        BitVec.ofNat_eq_ofNat, BitVec.toNat_ofNat, Bool.false_eq_true, false_or, Internal,
        ← BitVec.toNat_inj, firstPart]
      omega

theorem checkPrivate_eq_ok {label : Text} :
  checkPrivate addr label = .ok () ↔ ¬ Internal addr
  := by
  rw [checkPrivate, forM_eq_ok, ← contains_iff]
  constructor
  · rintro hall ⟨net, hnet, hcontains⟩
    have h := hall net hnet
    rw [if_pos hcontains] at h
    cases h
  · intro hnone net hnet
    apply if_neg
    intro hcontains
    exact hnone ⟨net, hnet, hcontains⟩

/-- The message of an internal address is taken for one. -/
theorem saysPrivate_of_checkPrivate {label e : Text} (h : checkPrivate addr label = .error e) :
  SaysPrivate e
  := by
  obtain ⟨net, -, hfailed⟩ := exists_of_forM_eq_error h
  split_ifs at hfailed
  obtain rfl := Except.error.inj hfailed
  exact .inr (List.infix_append_of_infix_right (by decide +kernel))

/-- An IPv4-mapped address is not internal itself. -/
theorem unmapped_of_internal (h : Internal addr) :
  addr.unmapped = addr
  := by
  cases addr with
  | v4 ip => rfl
  | v6 ip scopeId =>
      apply if_neg
      simp only [Internal, ← BitVec.toNat_inj, BitVec.ofNat_eq_ofNat, BitVec.toNat_ofNat,
        firstPart] at h
      omega

theorem not_disguised (h : Internal addr) :
  ¬ Disguised addr
  := by
  intro hdisguised
  exact hdisguised.1 (unmapped_of_internal h)

theorem internal_unmapped_iff :
  Internal addr.unmapped ↔ Internal addr ∨ Disguised addr
  := by
  constructor
  · intro h
    by_cases hmapped : addr.unmapped = addr
    · rw [hmapped] at h
      exact .inl h
    · exact .inr ⟨hmapped, h⟩
  · rintro (h | h)
    · rw [unmapped_of_internal h]
      exact h
    · exact h.2

/-! ### Hosts -/

theorem ipAddress_sockaddr (sockaddr : SockAddr) :
  ipAddress unicode sockaddr.host = .ok sockaddr.address
  := by
  rw [ipAddress, sockaddr.parse?_host]

theorem checkResolved_eq_ok (hresolve : resolve host = .ok results) (hne : results ≠ []) :
  checkResolved unicode resolve host = .ok ()
    ↔ ∀ sockaddr ∈ results, ¬ Internal sockaddr.address
  := by
  simp only [checkResolved, hresolve, hne, if_false, forM_eq_ok, ipAddress_sockaddr]
  apply forall₂_congr
  intro sockaddr _
  exact checkPrivate_eq_ok

/-- The message for a host that is no address has a word of the other message if and only if the
host has it. -/
theorem saysPrivate_notAnAddress :
  SaysPrivate (notAnAddress unicode host) ↔ SaysPrivate host
  := by
  have hinfix {word : Text} (hne : word ≠ []) (hword : ∀ c ∈ word, isAsciiLetter c = true)
      (hstart : ∀ c ∈ word.head?, c ∉ text "tnrxuUabcdef")
      (hnew : ¬ word <:+: text "does not appear to be an IPv4 or IPv6 address") :
      word <:+: notAnAddress unicode host ↔ word <:+: host := by
    have hspace : 32 ∉ word := by
      intro hmem
      exact absurd (hword 32 hmem) (by decide)
    have hsides := @Quote.infix_append_cons_iff _ 32 word (unicode.repr host)
      (text "does not appear to be an IPv4 or IPv6 address") hspace
    rw [Unicode.infix_repr_iff hne hword hstart, or_iff_left hnew] at hsides
    exact hsides
  apply or_congr
  · exact hinfix (by decide) (by decide) (by decide) (by decide +kernel)
  · exact hinfix (by decide) (by decide) (by decide) (by decide +kernel)

theorem checkHost_of_literal (h : IpAddress.parse? host = some addr) :
  checkHost unicode resolve host = .ok () ↔ ¬ Internal addr
  := by
  have hliteral : checkLiteral unicode host = checkPrivate addr host := by
    rw [checkLiteral, ipAddress, h]
    rfl
  rw [← @checkPrivate_eq_ok addr host, checkHost, hliteral]
  cases hcheck : checkPrivate addr host with
  | ok => rfl
  | error e => simp only [saysPrivate_of_checkPrivate hcheck, if_true]

theorem checkHost_of_name (h : IpAddress.parse? host = none) :
  checkHost unicode resolve host
    = if SaysPrivate host then .error (notAnAddress unicode host)
      else checkResolved unicode resolve host
  := by
  have hliteral : checkLiteral unicode host = .error (notAnAddress unicode host) := by
    rw [checkLiteral, ipAddress, h]
    rfl
  rw [checkHost, hliteral]
  simp only [saysPrivate_notAnAddress]

theorem validateWebhookUrl_of_isChecked (h : IsChecked unicode url allowedHosts host) :
  validateWebhookUrl unicode resolve url allowedHosts = checkHost unicode resolve host
  := by
  obtain ⟨⟨parsed, hparsed, hscheme, hhost⟩, hne, hnotMem⟩ := h
  have hurl : url ≠ [] := by
    rintro rfl
    obtain rfl := Except.ok.inj hparsed
    exact absurd hscheme (by decide)
  rw [validateWebhookUrl, if_neg hurl, hparsed]
  simp only [bind, Except.bind, hhost, Option.getD_some, hscheme, not_true, if_false, hne, hnotMem]

theorem isChecked_of_urlsplit {parsed : SplitResult} (hparsed : urlsplit unicode url = .ok parsed)
    (hscheme : parsed.scheme ∈ [text "http", text "https"])
    (hhost : parsed.hostname unicode = some host) (hne : host ≠ []) :
  IsChecked unicode url none host
  := ⟨⟨parsed, hparsed, hscheme, hhost⟩, hne, List.not_mem_nil⟩

/-! ### What the check guards against -/

theorem guardsUrl_of_literal (hchecked : IsChecked unicode url allowedHosts host)
    (hliteral : IpAddress.parse? host = some addr) :
  GuardsUrl unicode resolve url allowedHosts host results ↔ ¬ Disguised addr
  := by
  rw [GuardsUrl, validateWebhookUrl_of_isChecked hchecked, checkHost_of_literal hliteral, concerned,
    hliteral]
  simp only [List.mem_singleton, forall_eq, internal_unmapped_iff, not_or]
  constructor
  · intro hsame hdisguised
    have hinternal : ¬ Internal addr := fun h => not_disguised h hdisguised
    exact (hsame.mp hinternal).2 hdisguised
  · intro hplain
    exact ⟨fun h => ⟨h, hplain⟩, And.left⟩

/-- A name with a word of the refusal is refused. -/
theorem guardsUrl_of_saysPrivate (hchecked : IsChecked unicode url allowedHosts host)
    (hname : IpAddress.parse? host = none) (hword : SaysPrivate host) :
  GuardsUrl unicode resolve url allowedHosts host results
    ↔ ∃ sockaddr ∈ results, Internal sockaddr.address.unmapped
  := by
  rw [GuardsUrl, validateWebhookUrl_of_isChecked hchecked, checkHost_of_name hname, if_pos hword,
    concerned, hname]
  simp

/-- Of other names all addresses are checked, as they are. -/
theorem guardsUrl_of_name (hchecked : IsChecked unicode url allowedHosts host)
    (hname : IpAddress.parse? host = none) (hword : ¬ SaysPrivate host)
    (hresolve : resolve host = .ok results) (hne : results ≠ []) :
  GuardsUrl unicode resolve url allowedHosts host results
    ↔ (∃ sockaddr ∈ results, Internal sockaddr.address)
      ∨ ∀ sockaddr ∈ results, ¬ Disguised sockaddr.address
  := by
  rw [GuardsUrl, validateWebhookUrl_of_isChecked hchecked, checkHost_of_name hname, if_neg hword,
    checkResolved_eq_ok hresolve hne, concerned, hname]
  simp only [List.forall_mem_map, internal_unmapped_iff, not_or]
  constructor
  · intro hsame
    by_cases hinternal : ∃ sockaddr ∈ results, Internal sockaddr.address
    · exact .inl hinternal
    · right
      intro sockaddr hmem
      refine (hsame.mp ?_ sockaddr hmem).2
      intro other hother h
      exact hinternal ⟨other, hother, h⟩
  · rintro (⟨sockaddr, hmem, hinternal⟩ | hplain)
    · apply iff_of_false
      · intro hall
        exact hall sockaddr hmem hinternal
      · intro hall
        exact (hall sockaddr hmem).1 hinternal
    · constructor
      · intro hall sockaddr hmem
        exact ⟨hall sockaddr hmem, hplain sockaddr hmem⟩
      · intro hall sockaddr hmem
        exact (hall sockaddr hmem).1

/-- A URL is accepted exactly if no address is internal, if and only if its host is not an
IPv4-mapped address of an internal one, and, if it is a name, it has an internal address where it
has a word of the refusal, and has no IPv4-mapped address of an internal one or an address that
is internal itself where it has none. -/
theorem guardsUrl_iff (hchecked : IsChecked unicode url allowedHosts host)
    (hresolve : resolve host = .ok results) (hne : results ≠ []) :
  GuardsUrl unicode resolve url allowedHosts host results ↔ JudgedRightly host results
  := by
  rw [JudgedRightly]
  cases hparse : IpAddress.parse? host with
  | some addr => exact guardsUrl_of_literal hchecked hparse
  | none =>
      simp only
      split_ifs with hword
      · exact guardsUrl_of_saysPrivate hchecked hparse hword
      · exact guardsUrl_of_name hchecked hparse hword hresolve hne

/-- A public address. -/
def publicAddress : SockAddr where
  host := text "93.184.216.34"
  address := .v4 (IpAddress.quad 93 184 216 34)
  parse?_host := by decide

/-- A name that is resolved to a public address is accepted. -/
theorem guardsUrl_hooks :
  GuardsUrl .ascii (fun _ => .ok [publicAddress]) (text "https://hooks.example.com/notify") none
    (text "hooks.example.com") [publicAddress]
  := by
  have hchecked : IsChecked .ascii (text "https://hooks.example.com/notify") none
      (text "hooks.example.com") :=
    @isChecked_of_urlsplit _ _ _ ⟨text "https", text "hooks.example.com", text "/notify", [], []⟩
      (by decide) (by decide) (by decide) (by decide)
  apply (guardsUrl_iff hchecked rfl (List.cons_ne_nil _ _)).mpr
  have hparse : IpAddress.parse? (text "hooks.example.com") = none := by decide
  have hword : ¬ SaysPrivate (text "hooks.example.com") := by decide +kernel
  rw [JudgedRightly, hparse]
  simp only [hword, if_false]
  right
  decide

/-- An IPv4-mapped address of an internal one is accepted, and a name that is resolved to a
public address is refused for a word in it. -/
theorem not_guardsUrl :
  (IsChecked .ascii (text "http://[::ffff:10.0.0.1]/") none (text "::ffff:10.0.0.1")
      ∧ ¬ GuardsUrl .ascii (fun _ => .ok [publicAddress]) (text "http://[::ffff:10.0.0.1]/") none
        (text "::ffff:10.0.0.1") [publicAddress])
    ∧ IsChecked .ascii (text "https://private.example.com/") none (text "private.example.com")
    ∧ ¬ GuardsUrl .ascii (fun _ => .ok [publicAddress]) (text "https://private.example.com/") none
      (text "private.example.com") [publicAddress]
  := by
  have hmapped : IsChecked .ascii (text "http://[::ffff:10.0.0.1]/") none
      (text "::ffff:10.0.0.1") :=
    @isChecked_of_urlsplit _ _ _ ⟨text "http", text "[::ffff:10.0.0.1]", text "/", [], []⟩
      (by decide) (by decide) (by decide) (by decide)
  have hname : IsChecked .ascii (text "https://private.example.com/") none
      (text "private.example.com") :=
    @isChecked_of_urlsplit _ _ _ ⟨text "https", text "private.example.com", text "/", [], []⟩
      (by decide) (by decide) (by decide) (by decide)
  have hparse : IpAddress.parse? (text "::ffff:10.0.0.1")
      = some (.v6 (BitVec.ofNat 128 (0xffff * 2 ^ 32 + 0x0a000001)) none) := by decide +kernel
  have hdisguised : Disguised (.v6 (BitVec.ofNat 128 (0xffff * 2 ^ 32 + 0x0a000001)) none) := by
    decide
  have hnone : IpAddress.parse? (text "private.example.com") = none := by decide
  have hword : SaysPrivate (text "private.example.com") := by decide
  refine ⟨⟨hmapped, ?_⟩, hname, ?_⟩
  · rw [guardsUrl_of_literal hmapped hparse, not_not]
    exact hdisguised
  · rw [guardsUrl_of_saysPrivate hname hnone hword]
    decide

end OllamaQueueProxy
