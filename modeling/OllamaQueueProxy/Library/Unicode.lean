import OllamaQueueProxy.Library.Json

/-!
# Texts and their characters

What operations on texts depend on in the tables of Unicode, of which little is known here
besides what they say of ASCII characters.
-/

open Json (Text)

namespace Ascii

abbrev numberSign : ℕ := 35
abbrev percent : ℕ := 37
abbrev ampersand : ℕ := 38
abbrev plus : ℕ := 43
abbrev dot : ℕ := 46
abbrev slash : ℕ := 47
abbrev colon : ℕ := 58
abbrev equals : ℕ := 61
abbrev questionMark : ℕ := 63
abbrev atSign : ℕ := 64
abbrev openBracket : ℕ := 91
abbrev closeBracket : ℕ := 93

end Ascii

/-- Whether the character is an ASCII digit. -/
def isAsciiDigit (c : ℕ) : Bool := 48 ≤ c && c ≤ 57

/-- Whether the character is an ASCII letter. -/
def isAsciiLetter (c : ℕ) : Bool := (65 ≤ c && c ≤ 90) || (97 ≤ c && c ≤ 122)

structure Unicode where
  /-- The text in lower case. -/
  lower : Text → Text
  /-- The normal form NFKC of the text. -/
  nfkc : Text → Text
  /-- The text that the octets stand for in UTF-8, with errors replaced. -/
  decode : List UInt8 → Text
  /-- Whether the character, which is not an ASCII one, is shown as it is. -/
  isPrintable : ℕ → Bool
  isDigit : ℕ → Bool
  isDigit_of_ascii : ∀ {c : ℕ}, isAsciiDigit c = true → isDigit c = true

namespace Unicode

/-- Whether the text is not empty and has digits only. -/
def allDigits (unicode : Unicode) (t : Text) : Bool := !t.isEmpty && t.all unicode.isDigit

theorem allDigits_of_ascii (unicode : Unicode) {t : Text} (hne : t ≠ [])
    (h : ∀ c ∈ t, isAsciiDigit c = true) :
  unicode.allDigits t = true
  := by
  rw [allDigits, Bool.and_eq_true, List.all_eq_true, Bool.not_eq_true', List.isEmpty_eq_false_iff]
  exact ⟨hne, fun c hc => unicode.isDigit_of_ascii (h c hc)⟩

/-- The lower-case letter of an ASCII letter. -/
def asciiLower (c : ℕ) : ℕ := if 65 ≤ c ∧ c ≤ 90 then c + 32 else c

/-- What the tables say of ASCII texts. -/
def ascii : Unicode where
  lower t := t.map asciiLower
  nfkc t := t
  decode octets := octets.map UInt8.toNat
  isPrintable _ := true
  isDigit := isAsciiDigit
  isDigit_of_ascii := id

end Unicode

/-! ### Numerals -/

/-- The most digits that `int` reads. -/
def maxDigits : ℕ := 4300

/-- The tables with the values of decimal digits, which not all digits are. -/
structure Numerals extends Unicode where
  decimal? : ℕ → Option ℕ
  decimal?_of_ascii : ∀ {c : ℕ}, isAsciiDigit c = true → decimal? c = some (c - 48)

namespace Numerals

/-- `int` for a text of digits. -/
def int? (numerals : Numerals) (t : Text) : Option ℕ :=
  if maxDigits < t.length then none
  else t.foldlM (fun acc c => (numerals.decimal? c).map fun d => 10 * acc + d) 0

/-- What the tables say of ASCII texts, and of a superscript, which is a digit but no decimal
one. -/
def ascii : Numerals where
  lower t := t.map Unicode.asciiLower
  nfkc t := t
  decode octets := octets.map UInt8.toNat
  isPrintable _ := true
  isDigit c := isAsciiDigit c || c == 178
  isDigit_of_ascii h := by rw [h, Bool.true_or]
  decimal? c := if isAsciiDigit c then some (c - 48) else none
  decimal?_of_ascii h := if_pos h

end Numerals
