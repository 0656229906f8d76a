import OllamaQueueProxy.Library.Query
import OllamaQueueProxy.Library.UrlSplit
import Mathlib.Data.List.TakeWhile

/-!
# The URL of the backend

The URL of the cache backend without its credentials, for logs.  Wherever the credentials of a
URL end, what is shown is the location of the backend with the index of the database, or
`<redacted>` in place of the location (`redactBackendUrl_forms`).
-/

open Json (Text text)
open Ascii

namespace OllamaQueueProxy

/-- `_SCHEME_RE`. -/
def isScheme : Text → Bool
  | [] => false
  | c :: cs => isAsciiLetter c
      && cs.all fun d => isAsciiLetter d || isAsciiDigit d || (text "+.-").contains d

def unrecognised : Text := text "<unrecognised backend URL>"

/-- The scheme, with `<redacted>` in place of what follows. -/
def redacted (scheme : Text) : Text := scheme ++ text "://<redacted>"

/-- The location ends before the first character that is not. -/
def inLocation (c : ℕ) : Bool := c != questionMark && c != numberSign

/-- What is shown of the query or the fragment at the end of a URL. -/
def shownDb (unicode : Unicode) (tail : Text) : Text :=
  let query := match tail with
    | c :: rest => if c = questionMark then (Cut.partition numberSign rest).1 else []
    | [] => []
  let db := (Query.value? unicode query (text "db")).getD []
  if unicode.allDigits db then text "?db=" ++ db else []

/-- `redact_backend_url`. -/
def redactBackendUrl (unicode : Unicode) (url : Text) : Text :=
  match Cut.firstOf? (text "://") url with
  | none => unrecognised
  | some (scheme, rest) =>
      if isScheme scheme = false then unrecognised
      else
        let location := (Cut.rpartition atSign (rest.takeWhile inLocation)).2
        let tail := rest.dropWhile inLocation
        if atSign ∈ location ∨ atSign ∈ tail then redacted scheme
        else scheme ++ text "://" ++ location ++ shownDb unicode tail

/-- A number in ASCII digits. -/
structure Digits where
  digits : Text
  digits_ne_nil : digits ≠ []
  isAsciiDigit_of_mem : ∀ c ∈ digits, isAsciiDigit c = true

/-- The query for the index of a database, if there is one. -/
def dbSuffix : Option Digits → Text
  | some db => text "?db=" ++ db.digits
  | none => []

/-- The same query after another field. -/
def dbField : Option Digits → Text
  | some db => ampersand :: (text "db=" ++ db.digits)
  | none => []

variable {unicode : Unicode} {scheme location tail : Text} {db : Option Digits}

/-! ### The parts of a URL -/

/-- The schemes are those of URLs in general. -/
theorem isSchemeName_of_isScheme (h : isScheme scheme = true) :
  UrlSplit.isSchemeName scheme = true
  := by
  cases scheme with
  | nil => cases h
  | cons c cs =>
      rw [isScheme, Bool.and_eq_true, List.all_eq_true] at h
      rw [UrlSplit.isSchemeName, Bool.and_eq_true, List.all_eq_true]
      use h.1
      intro d hd
      have hsame : (text "+-.").contains d = (text "+.-").contains d := by
        simp [text, Bool.or_comm]
      obtain rfl | hrest := List.mem_cons.mp hd
      · simp [UrlSplit.isSchemeChar, h.1]
      · rw [UrlSplit.isSchemeChar, hsame]
        exact h.2 d hrest

theorem firstOf?_scheme (h : isScheme scheme = true) (rest : Text) :
  Cut.firstOf? (text "://") (scheme ++ text "://" ++ rest) = some (scheme, rest)
  := by
  have hcolon := UrlSplit.notMem_schemeName (isSchemeName_of_isScheme h) (c := colon) rfl
  exact Cut.firstOf?_append hcolon (text "//") rest

theorem inLocation_iff {c : ℕ} :
  inLocation c = true ↔ c ≠ questionMark ∧ c ≠ numberSign
  := by
  simp [inLocation]

/-- A URL whose location and tail are known. -/
theorem redactBackendUrl_append (hscheme : isScheme scheme = true)
    (hlocation : ∀ c ∈ location, inLocation c = true)
    (htail : ∀ c ∈ tail.head?, inLocation c = false) :
  redactBackendUrl unicode (scheme ++ text "://" ++ (location ++ tail))
    = if atSign ∈ tail then redacted scheme
      else scheme ++ text "://" ++ (Cut.rpartition atSign location).2 ++ shownDb unicode tail
  := by
  have hparts : tail.takeWhile inLocation = [] ∧ tail.dropWhile inLocation = tail := by
    cases tail with
    | nil => exact ⟨rfl, rfl⟩
    | cons c cs =>
        have hstop : ¬ inLocation c = true := by simpa using htail c rfl
        rw [List.takeWhile_cons_of_neg hstop, List.dropWhile_cons_of_neg hstop]
        use rfl
  rw [redactBackendUrl, firstOf?_scheme hscheme]
  simp only [hscheme, List.takeWhile_append_of_pos hlocation,
    List.dropWhile_append_of_pos hlocation, hparts.1, hparts.2, List.append_nil,
    Cut.notMem_rpartition, false_or, Bool.true_eq_false, if_false]

/-- A `@` after the location hides it. -/
theorem redactBackendUrl_of_atSign (hscheme : isScheme scheme = true) {rest : Text}
    (htail : atSign ∈ rest.dropWhile inLocation) :
  redactBackendUrl unicode (scheme ++ text "://" ++ rest) = redacted scheme
  := by
  rw [redactBackendUrl, firstOf?_scheme hscheme]
  simp only [hscheme, htail, or_true, if_true, Bool.true_eq_false, if_false]

/-! ### The index of the database -/

theorem field?_db (db : Digits) :
  Query.field? unicode (text "db=" ++ db.digits) = some (text "db", db.digits)
  := by
  have hdigits : ∀ c ∈ db.digits, c ≠ percent ∧ c ≠ plus := by
    intro c hc
    have hdigit := db.isAsciiDigit_of_mem c hc
    constructor <;> rintro rfl <;> exact absurd hdigit (by decide)
  have hfield := @Query.field?_append unicode (text "db") db.digits (by decide) db.digits_ne_nil
  rw [Query.unquotePlus_of_plain hdigits] at hfield
  exact hfield

theorem notMem_digits (db : Digits) {c : ℕ} (h : isAsciiDigit c = false) :
  c ∉ db.digits
  := by
  intro hmem
  rw [db.isAsciiDigit_of_mem c hmem] at h
  cases h

theorem field?_password {p : Text} {e : Text × Text}
    (h : e ∈ Query.field? unicode (text "password=" ++ p)) :
  e.1 = text "password"
  := by
  have happend : text "password=" ++ p = text "password" ++ equals :: p := rfl
  rw [happend] at h
  by_cases hp : p = []
  · rw [hp, Query.field?_append_nil (by decide)] at h
    cases h
  · rw [Query.field?_append (by decide) hp] at h
    obtain rfl := Option.some.inj h
    rfl

/-- A query for the index after another field shows the index. -/
theorem value?_db {query : Text} (others : List (Text × Text)) (db : Digits)
    (hfields : Query.fields unicode query = others ++ [(text "db", db.digits)])
    (hothers : ∀ e ∈ others, e.1 = text "password") :
  Query.value? unicode query (text "db") = some db.digits
  := by
  have hskip : others.find? (fun e => e.1 == text "db") = none := by
    apply List.find?_eq_none.mpr
    intro e he
    rw [hothers e he]
    decide
  rw [Query.value?, hfields, List.find?_append, hskip]
  simp

theorem value?_db_eq_none {query : Text}
    (hfields : ∀ e ∈ Query.fields unicode query, e.1 = text "password") :
  Query.value? unicode query (text "db") = none
  := by
  rw [Query.value?, Option.map_eq_none_iff, List.find?_eq_none]
  intro e he
  rw [hfields e he]
  decide

theorem shownDb_of_value? {query : Text} (hquery : numberSign ∉ query) (db : Digits)
    (hvalue : Query.value? unicode query (text "db") = some db.digits) :
  shownDb unicode (questionMark :: query) = text "?db=" ++ db.digits
  := by
  have hdigits := unicode.allDigits_of_ascii db.digits_ne_nil db.isAsciiDigit_of_mem
  simp only [shownDb, if_true, Cut.partition_of_notMem hquery, hvalue, Option.getD_some, hdigits]

theorem shownDb_of_none {query : Text}
    (hvalue : Query.value? unicode (Cut.partition numberSign query).1 (text "db") = none) :
  shownDb unicode (questionMark :: query) = []
  := by
  have hempty : unicode.allDigits [] = false := rfl
  simp only [shownDb, if_true, hvalue, Option.getD_none, hempty, Bool.false_eq_true, if_false]

theorem fields_db (db : Digits) :
  Query.fields unicode (text "db=" ++ db.digits) = [(text "db", db.digits)]
  := by
  have hampersand : ampersand ∉ text "db=" ++ db.digits := by
    rw [List.mem_append, not_or]
    exact ⟨by decide, notMem_digits db rfl⟩
  rw [Query.fields_of_notMem hampersand, field?_db]
  rfl

theorem numberSign_notMem (db : Digits) :
  numberSign ∉ text "db=" ++ db.digits
  := by
  rw [List.mem_append, not_or]
  exact ⟨by decide, notMem_digits db rfl⟩

theorem shownDb_dbSuffix (unicode : Unicode) (db : Option Digits) :
  shownDb unicode (dbSuffix db) = dbSuffix db
  := by
  cases db with
  | none => rfl
  | some db =>
      apply shownDb_of_value? (numberSign_notMem db)
      exact value?_db [] db (fields_db db) (List.forall_mem_nil _)

theorem notMem_password {c : ℕ} {t : Text} (hc : c ∉ text "password=") (ht : c ∉ t) :
  c ∉ text "password=" ++ t
  := by
  rw [List.mem_append, not_or]
  exact ⟨hc, ht⟩

theorem value?_password {t : Text} (ht : ampersand ∉ t) :
  Query.value? unicode (text "password=" ++ t) (text "db") = none
  := by
  apply value?_db_eq_none
  rw [Query.fields_of_notMem (notMem_password (by decide) ht)]
  intro e he
  exact field?_password (Option.mem_toList.mp he)

/-- A password with a `#` ends the query. -/
theorem shownDb_fragment {p : Text} (hp : ampersand ∉ p) (hfragment : numberSign ∈ p)
    (rest : Text) :
  shownDb unicode (questionMark :: (text "password=" ++ (p ++ rest))) = []
  := by
  obtain ⟨a, b, rfl, hnew⟩ := List.eq_append_cons_of_mem hfragment
  apply shownDb_of_none
  rw [List.append_assoc, List.cons_append, ← List.append_assoc,
    Cut.partition_append (notMem_password (by decide) hnew)]
  apply value?_password
  intro hmem
  exact hp (List.mem_append_left _ hmem)

/-- After a password without a `#` the index is shown. -/
theorem shownDb_field {p : Text} (hp : ampersand ∉ p) (hfragment : numberSign ∉ p)
    (db : Option Digits) :
  shownDb unicode (questionMark :: (text "password=" ++ (p ++ dbField db))) = dbSuffix db
  := by
  cases db with
  | none =>
      apply shownDb_of_none
      rw [dbField, List.append_nil, Cut.partition_of_notMem (notMem_password (by decide) hfragment)]
      exact value?_password hp
  | some db =>
      apply shownDb_of_value?
      · apply notMem_password (by decide)
        rw [dbField, List.mem_append, List.mem_cons, not_or, not_or]
        exact ⟨hfragment, by decide, numberSign_notMem db⟩
      · apply value?_db (Query.field? unicode (text "password=" ++ p)).toList db
        · rw [dbField, ← List.append_assoc, Query.fields_append (notMem_password (by decide) hp),
            fields_db]
        · intro e he
          exact field?_password (Option.mem_toList.mp he)

/-- After a password the index is shown as well, unless the password has a `#`. -/
theorem shownDb_password {p : Text} (hp : ampersand ∉ p) (db : Option Digits) :
  shownDb unicode (text "?password=" ++ p ++ dbField db) = []
    ∨ shownDb unicode (text "?password=" ++ p ++ dbField db) = dbSuffix db
  := by
  have hquery : text "?password=" ++ p ++ dbField db
      = questionMark :: (text "password=" ++ (p ++ dbField db)) :=
    List.append_assoc _ _ _
  rw [hquery]
  by_cases hfragment : numberSign ∈ p
  · left
    exact shownDb_fragment hp hfragment _
  · right
    exact shownDb_field hp hfragment db

theorem atSign_notMem (db : Option Digits) :
  atSign ∉ dbSuffix db
  := by
  cases db with
  | none => exact List.not_mem_nil
  | some db =>
      rw [dbSuffix, List.mem_append, not_or]
      exact ⟨by decide, notMem_digits db rfl⟩

/-! ### What is shown -/

theorem inLocation_of_notMem {h : Text} (hquestion : questionMark ∉ h) (hnumber : numberSign ∉ h) :
  ∀ c ∈ h, inLocation c = true
  := by
  intro c hc
  rw [inLocation_iff]
  constructor <;> rintro rfl <;> contradiction

/-- Of a URL with a user name and a password the location is shown, or nothing. -/
theorem redactBackendUrl_userinfo (hscheme : isScheme scheme = true)
    (hlocation : ∀ c ∈ location, inLocation c = true) (hat : atSign ∉ location)
    (db : Option Digits) (u p : Text) :
  redactBackendUrl unicode
      (scheme ++ text "://" ++ (u ++ colon :: p ++ atSign :: location ++ dbSuffix db))
    ∈ [redacted scheme, scheme ++ text "://" ++ location ++ dbSuffix db]
  := by
  by_cases hclean : ∀ c ∈ u ++ colon :: p, inLocation c = true
  · have hall : ∀ c ∈ u ++ colon :: p ++ atSign :: location, inLocation c = true := by
      intro c hc
      obtain huserinfo | hrest := List.mem_append.mp hc
      · exact hclean c huserinfo
      · obtain rfl | hhost := List.mem_cons.mp hrest
        · rfl
        · exact hlocation c hhost
    have htail : ∀ c ∈ (dbSuffix db).head?, inLocation c = false := by
      cases db with
      | none => simp [dbSuffix]
      | some db =>
          rintro c ⟨⟩
          rfl
    rw [redactBackendUrl_append hscheme hall htail, if_neg (atSign_notMem db),
      Cut.rpartition_append hat, shownDb_dbSuffix]
    exact List.mem_cons_of_mem _ (List.mem_singleton_self _)
  · -- the location ends within the credentials, and the `@` after them comes later
    have hnonempty : ¬ ((u ++ colon :: p).dropWhile inLocation).isEmpty = true := by
      rwa [List.isEmpty_iff, List.dropWhile_eq_nil_iff]
    rw [redactBackendUrl_of_atSign hscheme]
    · exact List.mem_cons_self
    · rw [List.append_assoc, List.dropWhile_append, if_neg hnonempty]
      exact List.mem_append_right _ List.mem_cons_self

/-- Of a URL with a password in its query the location is shown, or nothing. -/
theorem redactBackendUrl_query (hscheme : isScheme scheme = true)
    (hlocation : ∀ c ∈ location, inLocation c = true) (hat : atSign ∉ location)
    (db : Option Digits) {p : Text} (hp : ampersand ∉ p) :
  redactBackendUrl unicode
      (scheme ++ text "://" ++ (location ++ (text "?password=" ++ p ++ dbField db)))
    ∈ [redacted scheme, scheme ++ text "://" ++ location,
      scheme ++ text "://" ++ location ++ dbSuffix db]
  := by
  have htail : ∀ c ∈ (text "?password=" ++ p ++ dbField db).head?, inLocation c = false := by
    rintro c ⟨⟩
    rfl
  rw [redactBackendUrl_append hscheme hlocation htail]
  split
  · exact List.mem_cons_self
  · rw [Cut.rpartition_of_notMem hat]
    obtain hnone | hdb := shownDb_password hp db
    · rw [hnone, List.append_nil]
      exact List.mem_cons_of_mem _ List.mem_cons_self
    · rw [hdb]
      exact List.mem_cons_of_mem _ (List.mem_cons_of_mem _ (List.mem_singleton_self _))

/-- What is shown of a URL with a user name and a password, or with a password in its query,
depends on them only in that the location is shown or not. -/
theorem redactBackendUrl_forms (unicode : Unicode) (hscheme : isScheme scheme = true) {h : Text}
    (hat : atSign ∉ h) (hquestion : questionMark ∉ h) (hnumber : numberSign ∉ h)
    (db : Option Digits) :
  (∀ u p, redactBackendUrl unicode
        (scheme ++ text "://" ++ (u ++ colon :: p ++ atSign :: h ++ dbSuffix db))
      ∈ [redacted scheme, scheme ++ text "://" ++ h ++ dbSuffix db])
    ∧ ∀ p, ampersand ∉ p → redactBackendUrl unicode
        (scheme ++ text "://" ++ (h ++ (text "?password=" ++ p ++ dbField db)))
      ∈ [redacted scheme, scheme ++ text "://" ++ h, scheme ++ text "://" ++ h ++ dbSuffix db]
  := by
  have hlocation := inLocation_of_notMem hquestion hnumber
  constructor
  · intro u p
    exact redactBackendUrl_userinfo hscheme hlocation hat db u p
  · intro p hp
    exact redactBackendUrl_query hscheme hlocation hat db hp

/-- The index of the first database. -/
def firstDb : Digits where
  digits := text "0"
  digits_ne_nil := by decide
  isAsciiDigit_of_mem := by decide

/-- Neither of two passwords is shown. -/
theorem redactBackendUrl_valkey :
  redactBackendUrl .ascii (text "redis" ++ text "://"
      ++ (text "user" ++ colon :: text "p@ss/word" ++ atSign :: text "valkey:6379"
        ++ dbSuffix firstDb))
    ∈ [redacted (text "redis"),
      text "redis" ++ text "://" ++ text "valkey:6379" ++ dbSuffix firstDb]
  ∧ redactBackendUrl .ascii (text "redis" ++ text "://"
      ++ (text "valkey:6379" ++ (text "?password=" ++ text "p#ss" ++ dbField firstDb)))
    ∈ [redacted (text "redis"), text "redis" ++ text "://" ++ text "valkey:6379",
      text "redis" ++ text "://" ++ text "valkey:6379" ++ dbSuffix firstDb]
  := by
  have hforms := @redactBackendUrl_forms (text "redis") .ascii (by decide) (text "valkey:6379")
    (by decide) (by decide) (by decide) firstDb
  exact ⟨hforms.1 (text "user") (text "p@ss/word"), hforms.2 (text "p#ss") (by decide)⟩

end OllamaQueueProxy
