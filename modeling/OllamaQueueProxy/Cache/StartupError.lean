import OllamaQueueProxy.Cache.Backend

/-!
# The error at the start

What is said of an exception that the client of the cache backend raised at the start.  Its
message may quote the host, the port and the path that were found in the URL of the backend; it
is passed on only if these come from the text after the last `@`
(`startupErrorDetail_discloses`).
-/

open Json (Text text)
open Ascii UrlSplit

namespace OllamaQueueProxy

/-- A class of exceptions. -/
structure ExceptionType where
  name : Text
  /-- It is `RedisError` or derived from it. -/
  isRedisError : Bool

/-- `_userinfo_bled`. -/
def userinfoBled (unicode : Unicode) (url : Text) : Bool :=
  match Cut.firstOf? (text "://") url with
  | none => url.contains atSign
  | some (_, after) =>
      if after.contains atSign = false then false
      else match urlsplit unicode url with
        | .error _ => true
        | .ok parts => (Cut.rpartition atSign parts.netloc).1 != (Cut.rpartition atSign after).1

/-- The URL has no known host, or its credentials may be read as its host, port or path. -/
def withheld (unicode : Unicode) (url : Text) : Bool :=
  let redacted := redactBackendUrl unicode url
  let unclean := redacted = unrecognised ∨ text "://<redacted>" <:+ redacted
  unclean || userinfoBled unicode url

/-- What is said of an exception without its message. -/
def summary (name : Text) (withheld : Bool) : Text :=
  if withheld then
    name ++ text " (detail withheld: the URL may hold an unencoded "
      ++ text "credential; percent-encode reserved characters in the password)"
  else name

/-- `_startup_error_detail`. -/
def startupErrorDetail (unicode : Unicode) (url : Text) (kind : ExceptionType) (message : Text) :
    Text :=
  if withheld unicode url then summary kind.name true
  else if kind.isRedisError then kind.name ++ text ": " ++ message
  else summary kind.name false

variable {unicode : Unicode} {url : Text} {kind : ExceptionType}

/-! ### The two readings of the URL -/

/-- A URL that is clean begins with a scheme. -/
theorem exists_scheme (h : withheld unicode url = false) :
  ∃ scheme rest, isScheme scheme = true ∧ url = scheme ++ text "://" ++ rest
  := by
  have hrecognised : redactBackendUrl unicode url ≠ unrecognised := by
    intro hsame
    rw [withheld, hsame] at h
    simp at h
  cases hcut : Cut.firstOf? (text "://") url with
  | none =>
      rw [redactBackendUrl, hcut] at hrecognised
      exact absurd rfl hrecognised
  | some parts =>
      obtain ⟨scheme, rest⟩ := parts
      rw [redactBackendUrl, hcut] at hrecognised
      use scheme, rest, ?_, Cut.eq_append_of_firstOf? hcut
      by_contra hinvalid
      exact hrecognised (if_pos (Bool.eq_false_of_not_eq_true hinvalid))

/-- The last `@` of a URL with a scheme is the last one after the scheme. -/
theorem eq_append_of_scheme {scheme rest a b : Text} (hscheme : isScheme scheme = true)
    (h : scheme ++ text "://" ++ rest = a ++ atSign :: b) (hlast : atSign ∉ b) :
  ∃ a', rest = a' ++ atSign :: b
  := by
  have hmem : atSign ∈ rest := by
    have hurl : atSign ∈ scheme ++ text "://" ++ rest := by
      rw [h]
      exact List.mem_append_right _ List.mem_cons_self
    have hstart : atSign ∉ scheme ++ text "://" := by
      rw [List.mem_append, not_or]
      exact ⟨notMem_schemeName (isSchemeName_of_isScheme hscheme) rfl, by decide⟩
    exact (List.mem_append.mp hurl).resolve_left hstart
  cases hcut : Cut.last? atSign rest with
  | none => exact absurd hmem (Cut.last?_eq_none.mp hcut)
  | some parts =>
      obtain ⟨a', b'⟩ := parts
      obtain ⟨rfl, hlast'⟩ := Cut.last?_eq_some.mp hcut
      have hurl := Cut.last?_append hlast a
      rw [← h, ← List.append_assoc, Cut.last?_append hlast'] at hurl
      obtain ⟨-, rfl⟩ := Prod.mk.inj (Option.some.inj hurl)
      use a'

/-- If the credentials have not bled, the parts after them come from the text after the last
`@`. -/
theorem builtFrom_of_not_bled {scheme a b : Text} {parts : SplitResult}
    (hscheme : isScheme scheme = true)
    (hbled : userinfoBled unicode (scheme ++ text "://" ++ (a ++ atSign :: b)) = false)
    (hlast : atSign ∉ b)
    (hparts : urlsplit unicode (scheme ++ text "://" ++ (a ++ atSign :: b)) = .ok parts) :
  parts.BuiltFrom unicode (removeUnsafe b)
  := by
  have hcontains : (a ++ atSign :: b).contains atSign = true := by
    simp
  apply builtFrom_of_userinfo (isSchemeName_of_isScheme hscheme) hparts
  rw [userinfoBled, firstOf?_scheme hscheme] at hbled
  simp only [hcontains, hparts, Cut.rpartition_append hlast, Bool.true_eq_false, if_false] at hbled
  exact bne_eq_false_iff_eq.mp hbled

/-! ### What is disclosed -/

theorem startupErrorDetail_of_withheld (h : withheld unicode url = true) (message : Text) :
  startupErrorDetail unicode url kind message = summary kind.name true
  := by
  rw [startupErrorDetail, if_pos h]

theorem startupErrorDetail_of_other (h : kind.isRedisError = false) (message : Text) :
  startupErrorDetail unicode url kind message = summary kind.name (withheld unicode url)
  := by
  rw [startupErrorDetail, h]
  cases withheld unicode url <;> rfl

theorem startupErrorDetail_of_redisError (hclean : withheld unicode url = false)
    (hredis : kind.isRedisError = true) (message : Text) :
  startupErrorDetail unicode url kind message = kind.name ++ text ": " ++ message
  := by
  rw [startupErrorDetail, hclean, hredis]
  rfl

/-- If the result depends on the message, then the URL has a scheme, and its host, its port and
its path come from the text after its last `@`; otherwise the result is a function of the name of
the exception and of whether details are withheld for the URL. -/
theorem startupErrorDetail_discloses (unicode : Unicode) (url : Text) (kind : ExceptionType) :
  (∀ message message', startupErrorDetail unicode url kind message
      ≠ startupErrorDetail unicode url kind message' →
    kind.isRedisError = true
      ∧ (∃ scheme rest, isScheme scheme = true ∧ url = scheme ++ text "://" ++ rest)
      ∧ ∀ a b, url = a ++ atSign :: b → atSign ∉ b →
        ∀ parts, urlsplit unicode url = .ok parts → parts.BuiltFrom unicode (removeUnsafe b))
    ∧ ((∀ message message', startupErrorDetail unicode url kind message
        = startupErrorDetail unicode url kind message') →
      ∀ message, startupErrorDetail unicode url kind message
        = summary kind.name (withheld unicode url))
  := by
  constructor
  · intro message message' hdepends
    have hredis : kind.isRedisError = true := by
      by_contra hother
      have hother := Bool.eq_false_of_not_eq_true hother
      apply hdepends
      rw [startupErrorDetail_of_other hother, startupErrorDetail_of_other hother]
    have hclean : withheld unicode url = false := by
      by_contra hwithheld
      have hwithheld := Bool.eq_true_of_not_eq_false hwithheld
      apply hdepends
      rw [startupErrorDetail_of_withheld hwithheld, startupErrorDetail_of_withheld hwithheld]
    obtain ⟨scheme, rest, hscheme, rfl⟩ := exists_scheme hclean
    use hredis, ⟨scheme, rest, hscheme, rfl⟩
    intro a b hurl hlast parts hparts
    obtain ⟨a', rfl⟩ := eq_append_of_scheme hscheme hurl hlast
    rw [withheld, Bool.or_eq_false_iff] at hclean
    exact builtFrom_of_not_bled hscheme hclean.2 hlast hparts
  · intro hsame message
    cases hwithheld : withheld unicode url with
    | true => exact startupErrorDetail_of_withheld hwithheld message
    | false =>
        cases hredis : kind.isRedisError with
        | true =>
            have h := hsame [] (text ".")
            rw [startupErrorDetail_of_redisError hwithheld hredis,
              startupErrorDetail_of_redisError hwithheld hredis] at h
            exact absurd (List.append_cancel_left h) (by decide)
        | false =>
            rw [startupErrorDetail_of_other hredis, hwithheld]

/-- The exception of a connection that was not made. -/
def connectionError : ExceptionType where
  name := text "ConnectionError"
  isRedisError := true

/-- What is disclosed for a URL with a password, and for one whose password was read as a host. -/
theorem startupErrorDetail_valkey :
  (∀ parts, urlsplit .ascii (text "redis://:s3cret@valkey:6379/0") = .ok parts →
      parts.BuiltFrom .ascii (text "valkey:6379/0"))
    ∧ startupErrorDetail .ascii (text "redis://user:pw@s3cret:1/rest@valkey:6379/0")
        connectionError (text "Error 111 connecting to s3cret:1.")
      = summary (text "ConnectionError") true
  := by
  constructor
  · have hdiscloses := (startupErrorDetail_discloses .ascii (text "redis://:s3cret@valkey:6379/0")
      connectionError).1 [] (text "refused") (by decide)
    exact hdiscloses.2.2 (text "redis://:s3cret") (text "valkey:6379/0") rfl (by decide)
  · have hwithheld : withheld .ascii (text "redis://user:pw@s3cret:1/rest@valkey:6379/0")
        = true := by decide
    rw [(startupErrorDetail_discloses .ascii _ connectionError).2, hwithheld]
    · rfl
    · intro message message'
      rw [startupErrorDetail_of_withheld hwithheld, startupErrorDetail_of_withheld hwithheld]

end OllamaQueueProxy
