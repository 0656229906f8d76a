import OllamaQueueProxy.Library.IpAddress
import OllamaQueueProxy.Library.Quote

/-!
# The parts of a URL

A URL is split into its scheme, the network location with the user information and the host, the
path, the query and the fragment, after white space was removed.  The network location ends
before the first `/`, `?` or `#`, wherever that stands (`urlsplit_spec`).
-/

open Json (Text text)
open Ascii

namespace UrlSplit

structure SplitResult where
  scheme : Text
  netloc : Text
  path : Text
  query : Text
  fragment : Text
  deriving DecidableEq

/-! ### Splitting -/

/-- A tab, a line feed or a carriage return. -/
def isRemoved (c : ℕ) : Bool := c == 9 || c == 10 || c == 13

/-- The text without what is removed from URLs. -/
def removeUnsafe (t : Text) : Text := t.filter fun c => !isRemoved c

/-- The control characters and the space before a URL are no part of it. -/
def stripUrl (url : Text) : Text := removeUnsafe (url.dropWhile fun c => c ≤ 32)

def isSchemeChar (c : ℕ) : Bool :=
  isAsciiLetter c || isAsciiDigit c || (text "+-.").contains c

def isSchemeName (t : Text) : Bool := t.head?.any isAsciiLetter && t.all isSchemeChar

/-- The scheme and what follows it, with an empty scheme if there is none. -/
def splitScheme (url : Text) : Text × Text :=
  match Cut.first? colon url with
  | some (scheme, rest) =>
      if isSchemeName scheme then (scheme.map Unicode.asciiLower, rest) else ([], url)
  | none => ([], url)

def inNetloc (c : ℕ) : Bool := c != slash && c != questionMark && c != numberSign

/-- The network location and what follows it. -/
def splitNetloc (url : Text) : Text × Text :=
  if text "//" <+: url then
    ((url.drop 2).takeWhile inNetloc, (url.drop 2).dropWhile inNetloc)
  else ([], url)

/-! ### Checks -/

/-- The host and the port in a network location without user information. -/
def hostAndPort (hostinfo : Text) : Text × Text :=
  match Cut.first? openBracket hostinfo with
  | some (_, bracketed) =>
      let (host, port) := Cut.partition closeBracket bracketed
      (host, (Cut.partition colon port).2)
  | none => Cut.partition colon hostinfo

/-- The exception of `ip_address` for a text that is no address. -/
def notAnAddress (unicode : Unicode) (t : Text) : Text :=
  unicode.repr t ++ text " does not appear to be an IPv4 or IPv6 address"

/-- `ipaddress.ip_address`. -/
def ipAddress (unicode : Unicode) (t : Text) : Except Text IpAddress :=
  match IpAddress.parse? t with
  | some address => .ok address
  | none => .error (notAnAddress unicode t)

/-- The host is of the form `v1.x` for addresses of later versions, after the `v`. -/
def isFutureAddress (t : Text) : Bool :=
  let isHex (c : ℕ) : Bool := (IpAddress.hexValue? c).isSome
  !(t.takeWhile isHex).isEmpty && match t.dropWhile isHex with
    | c :: rest => c == dot && !rest.isEmpty
    | [] => false

def checkBracketedHost (unicode : Unicode) (host : Text) : Except Text Unit :=
  match host with
  | 118 :: rest =>
      if isFutureAddress rest then .ok () else .error (text "IPvFuture address is invalid")
  | _ => do
      match ← ipAddress unicode host with
      | .v4 _ => .error (text "An IPv4 address cannot be in brackets")
      | .v6 _ _ => .ok ()

def checkBracketedNetloc (unicode : Unicode) (netloc : Text) : Except Text Unit :=
  let hostinfo := (Cut.rpartition atSign netloc).2
  match Cut.first? openBracket hostinfo with
  | some (before, bracketed) =>
      let (host, port) := Cut.partition closeBracket bracketed
      if before ≠ [] ∨ port ≠ [] ∧ port.head? ≠ some colon then .error (text "Invalid IPv6 URL")
      else checkBracketedHost unicode host
  | none => checkBracketedHost unicode (Cut.partition colon hostinfo).1

def checkBrackets (unicode : Unicode) (netloc : Text) : Except Text Unit :=
  if openBracket ∈ netloc ∧ closeBracket ∉ netloc ∨ closeBracket ∈ netloc ∧ openBracket ∉ netloc
  then .error (text "Invalid IPv6 URL")
  else if openBracket ∈ netloc then checkBracketedNetloc unicode netloc
  else .ok ()

/-- No character of the network location stands for a delimiter. -/
def checkNetloc (unicode : Unicode) (netloc : Text) : Except Text Unit :=
  if netloc.all (· < 128) then .ok ()
  else
    let plain := netloc.filter fun c => !(text "@:#?").contains c
    let normal := unicode.nfkc plain
    if plain ≠ normal ∧ normal.any (text "/?#@:").contains then
      .error (text "netloc '" ++ netloc
        ++ text "' contains invalid characters under NFKC normalization")
    else .ok ()

/-- `urllib.parse.urlsplit`. -/
def urlsplit (unicode : Unicode) (url : Text) : Except Text SplitResult := do
  let (scheme, rest) := splitScheme (stripUrl url)
  let (netloc, rest) := splitNetloc rest
  checkBrackets unicode netloc
  let (rest, fragment) := Cut.partition numberSign rest
  let (path, query) := Cut.partition questionMark rest
  checkNetloc unicode netloc
  return ⟨scheme, netloc, path, query, fragment⟩

/-! ### The host and the port -/

namespace SplitResult

/-- The network location after the user information. -/
def hostinfo (parts : SplitResult) : Text := (Cut.rpartition atSign parts.netloc).2

/-- A host in lower case, up to its zone. -/
def lowerHost (unicode : Unicode) (host : Text) : Text :=
  match Cut.first? percent host with
  | some (address, zone) => unicode.lower address ++ percent :: zone
  | none => unicode.lower host

def hostname (unicode : Unicode) (parts : SplitResult) : Option Text :=
  let host := (hostAndPort parts.hostinfo).1
  if host = [] then none else some (lowerHost unicode host)

def port (unicode : Unicode) (parts : SplitResult) : Except Text (Option ℕ) :=
  let port := (hostAndPort parts.hostinfo).2
  if port = [] then .ok none
  else if port.all isAsciiDigit = false then
    .error (text "Port could not be cast to integer value as " ++ unicode.repr port)
  else if 65535 < IpAddress.decimalValue port then .error (text "Port out of range 0-65535")
  else .ok (some (IpAddress.decimalValue port))

/-- The host, the port and the path come from parts of a text. -/
structure BuiltFrom (unicode : Unicode) (parts : SplitResult) (t : Text) : Prop where
  hostname : ∀ host, parts.hostname unicode = some host →
    ∃ raw, raw <:+: t ∧ host = lowerHost unicode raw
  port : ∀ n, parts.port unicode = .ok (some n) →
    ∃ digits, digits <:+: t ∧ n = IpAddress.decimalValue digits
  path : parts.path <:+: t

end SplitResult

variable {unicode : Unicode} {scheme rest : Text} {parts : SplitResult}

/-! ### The order of the parts -/

theorem hostAndPort_infix (hostinfo : Text) :
  (hostAndPort hostinfo).1 <:+: hostinfo ∧ (hostAndPort hostinfo).2 <:+: hostinfo
  := by
  unfold hostAndPort
  split
  · rename_i before bracketed hcut
    have hbracketed := (Cut.infix_of_first? hcut).2
    obtain ⟨hhost, hrest⟩ := Cut.partition_infix closeBracket bracketed
    constructor
    · exact hhost.isInfix.trans hbracketed
    · exact ((Cut.partition_infix colon _).2.trans hrest).trans hbracketed
  · obtain ⟨hhost, hport⟩ := Cut.partition_infix colon hostinfo
    exact ⟨hhost.isInfix, hport⟩

theorem notRemoved_of_isSchemeChar {c : ℕ} (h : isSchemeChar c = true) :
  (!isRemoved c) = true
  := by
  rw [Bool.not_eq_true']
  apply Bool.eq_false_iff.mpr
  intro hremoved
  have hcases : c = 9 ∨ c = 10 ∨ c = 13 := by
    simpa [isRemoved, or_assoc] using hremoved
  obtain rfl | rfl | rfl := hcases <;> exact absurd h (by decide)

theorem notMem_schemeName (h : isSchemeName scheme = true) {c : ℕ} (hc : isSchemeChar c = false) :
  c ∉ scheme
  := by
  intro hmem
  rw [isSchemeName, Bool.and_eq_true, List.all_eq_true] at h
  rw [h.2 c hmem] at hc
  cases hc

/-- A URL that begins with a scheme is stripped within what follows the scheme. -/
theorem stripUrl_append (h : isSchemeName scheme = true) (rest : Text) :
  stripUrl (scheme ++ rest) = scheme ++ removeUnsafe rest
  := by
  rw [isSchemeName, Bool.and_eq_true, List.all_eq_true] at h
  obtain ⟨hhead, hall⟩ := h
  obtain ⟨c, cs, rfl⟩ : ∃ c cs, scheme = c :: cs := by
    cases scheme with
    | nil => cases hhead
    | cons c cs => exact ⟨c, cs, rfl⟩
  have hprinted : ¬ decide (c ≤ 32) = true := by
    simp only [List.head?_cons, Option.any_some, isAsciiLetter, Bool.or_eq_true, Bool.and_eq_true,
      decide_eq_true_eq] at hhead
    simp only [decide_eq_true_eq]
    omega
  have hkept : (c :: cs).filter (fun d => !isRemoved d) = c :: cs :=
    List.filter_eq_self.mpr fun d hd => notRemoved_of_isSchemeChar (hall d hd)
  have hstart : ((c :: cs) ++ rest).dropWhile (fun d => decide (d ≤ 32)) = (c :: cs) ++ rest :=
    List.dropWhile_cons_of_neg hprinted
  rw [stripUrl, hstart, removeUnsafe, List.filter_append, hkept, removeUnsafe]

/-- The network location and the path of a URL with a scheme come, in this order and next to each
other, from what follows the scheme. -/
theorem urlsplit_spec (hscheme : isSchemeName scheme = true)
    (h : urlsplit unicode (scheme ++ text "://" ++ rest) = .ok parts) :
  parts.netloc = (removeUnsafe rest).takeWhile inNetloc
    ∧ parts.path <+: (removeUnsafe rest).dropWhile inNetloc
  := by
  have hstrip : stripUrl (scheme ++ text "://" ++ rest)
      = scheme ++ colon :: (text "//" ++ removeUnsafe rest) := by
    rw [List.append_assoc, stripUrl_append hscheme]
    rfl
  have hsplit : splitScheme (scheme ++ colon :: (text "//" ++ removeUnsafe rest))
      = (scheme.map Unicode.asciiLower, text "//" ++ removeUnsafe rest) := by
    rw [splitScheme, Cut.first?_append (notMem_schemeName hscheme rfl)]
    exact if_pos hscheme
  have hnetloc : splitNetloc (text "//" ++ removeUnsafe rest)
      = ((removeUnsafe rest).takeWhile inNetloc, (removeUnsafe rest).dropWhile inNetloc) :=
    if_pos (List.prefix_append _ _)
  simp only [urlsplit, hstrip, hsplit, hnetloc] at h
  cases hbrackets : checkBrackets unicode ((removeUnsafe rest).takeWhile inNetloc) with
  | error e =>
      rw [hbrackets] at h
      cases h
  | ok _ =>
      cases hchecked : checkNetloc unicode ((removeUnsafe rest).takeWhile inNetloc) with
      | error e =>
          rw [hbrackets, hchecked] at h
          cases h
      | ok _ =>
          rw [hbrackets, hchecked] at h
          obtain rfl := Except.ok.inj h
          use rfl
          exact (Cut.partition_infix questionMark _).1.trans (Cut.partition_infix numberSign _).1

theorem SplitResult.BuiltFrom.of_hostinfo {t : Text} (hhostinfo : parts.hostinfo <:+: t)
    (hpath : parts.path <:+: t) :
  parts.BuiltFrom unicode t
  := by
  obtain ⟨hhost, hport⟩ := hostAndPort_infix parts.hostinfo
  refine ⟨?_, ?_, hpath⟩
  · intro host h
    rw [SplitResult.hostname] at h
    split_ifs at h
    obtain rfl := Option.some.inj h
    exact ⟨_, hhost.trans hhostinfo, rfl⟩
  · intro n h
    rw [SplitResult.port] at h
    split_ifs at h
    · cases h
    · obtain rfl := Option.some.inj (Except.ok.inj h)
      exact ⟨_, hport.trans hhostinfo, rfl⟩

/-- If the user information is the text before an `@`, then what follows it is the text after that
`@`, up to what is removed. -/
theorem hostinfo_append {a b : Text} (hnetloc : parts.netloc
      = (removeUnsafe (a ++ atSign :: b)).takeWhile inNetloc)
    (huserinfo : (Cut.rpartition atSign parts.netloc).1 = a) :
  parts.hostinfo ++ (removeUnsafe (a ++ atSign :: b)).dropWhile inNetloc = removeUnsafe b
  := by
  have happend : removeUnsafe (a ++ atSign :: b)
      = removeUnsafe a ++ atSign :: removeUnsafe b := by
    rw [removeUnsafe, List.filter_append]
    rfl
  have hwhole : parts.netloc ++ (removeUnsafe (a ++ atSign :: b)).dropWhile inNetloc
      = removeUnsafe a ++ atSign :: removeUnsafe b := by
    rw [hnetloc, List.takeWhile_append_dropWhile, happend]
  cases hcut : Cut.last? atSign parts.netloc with
  | none =>
      -- then `a` is empty, and the location begins with the `@` that follows
      rw [Cut.rpartition, hcut] at huserinfo
      obtain rfl : [] = a := huserinfo
      exfalso
      apply Cut.last?_eq_none.mp hcut
      rw [hnetloc]
      exact List.mem_cons_self
  | some cut =>
      obtain ⟨a', hostinfo⟩ := cut
      rw [Cut.rpartition, hcut] at huserinfo
      obtain rfl : a' = a := huserinfo
      obtain ⟨hparts, -⟩ := Cut.last?_eq_some.mp hcut
      -- the user information was not changed by the removal, as it is read after it
      have hkept : removeUnsafe a' = a' := by
        apply List.filter_eq_self.mpr
        intro c hc
        have hmem : c ∈ removeUnsafe (a' ++ atSign :: b) := by
          apply (List.takeWhile_prefix inNetloc).subset
          rw [← hnetloc, hparts]
          exact List.mem_append_left _ hc
        exact (List.mem_filter.mp hmem).2
      rw [SplitResult.hostinfo, Cut.rpartition, hcut]
      rw [hparts, hkept, List.append_assoc, List.cons_append] at hwhole
      exact (List.cons.inj (List.append_cancel_left hwhole)).2

/-- If the user information is the text before an `@`, then the parts after it come from the text
after that `@`. -/
theorem builtFrom_of_userinfo {a b : Text} (hscheme : isSchemeName scheme = true)
    (h : urlsplit unicode (scheme ++ text "://" ++ (a ++ atSign :: b)) = .ok parts)
    (huserinfo : (Cut.rpartition atSign parts.netloc).1 = a) :
  parts.BuiltFrom unicode (removeUnsafe b)
  := by
  obtain ⟨hnetloc, hpath⟩ := urlsplit_spec hscheme h
  rw [← hostinfo_append hnetloc huserinfo]
  apply SplitResult.BuiltFrom.of_hostinfo
  · exact (List.prefix_append _ _).isInfix
  · exact hpath.isInfix.trans (List.suffix_append _ _).isInfix

end UrlSplit
