import OllamaQueueProxy.Library.Json

/-!
# The size of JSON texts

The number of characters of a value that is written without white space in ASCII characters,
from its parts (`encodedLength_write`).  A character outside of ASCII takes six characters or
twelve, whatever it took in the encoding in which the value was received.
-/

namespace Json

/-- The number of characters that stand for a character in a string. -/
def asciiWidth (c : ℕ) : ℕ :=
  if (shortEscape? c).isSome then 2
  else if 32 ≤ c ∧ c < 127 then 1
  else if c < 65536 then 6
  else 12

/-- The size of a string with its quotes. -/
def quotedSize (s : Text) : ℕ := 2 + (s.map asciiWidth).sum

mutual

/-- The size of a value.  Every element and every field of it counts with the comma or the
bracket that follows. -/
def asciiSize : Json → ℕ
  | .null => 4
  | .bool true => 4
  | .bool false => 5
  | .number n => n.text.length
  | .string s => quotedSize s
  | .array js => if js.isEmpty then 2 else 1 + elementsSize js
  | .object fields => if fields.isEmpty then 2 else 1 + fieldsSize fields

def elementsSize : List Json → ℕ
  | [] => 0
  | j :: js => j.asciiSize + 1 + elementsSize js

def fieldsSize : List (Text × Json) → ℕ
  | [] => 0
  | (key, j) :: fields => quotedSize key + 1 + j.asciiSize + 1 + fieldsSize fields

end

/-! ### ASCII texts -/

theorem encodedLength_append (s t : Text) :
  encodedLength (s ++ t) = encodedLength s + encodedLength t
  := by
  rw [encodedLength, List.map_append, List.sum_append]
  rfl

theorem encodedLength_eq_length {t : Text} (h : ∀ c ∈ t, c < 128) :
  encodedLength t = t.length
  := by
  rw [encodedLength, List.map_congr_left (fun c hc => if_pos (h c hc)), List.map_const',
    List.sum_replicate_nat, Nat.mul_one]

theorem length_utf8 {t : Text} (h : ∀ c ∈ t, c < 128) :
  (utf8 t).length = t.length
  := by
  have hone : ∀ c < 128, (String.utf8EncodeChar (Char.ofNat c)).length = 1 := by
    decide
  rw [utf8, List.length_flatMap, List.map_congr_left (fun c hc => hone c (h c hc)),
    List.map_const', List.sum_replicate_nat, Nat.mul_one]

theorem hexDigit_lt (n : ℕ) :
  hexDigit (n % 16) < 128
  := by
  have hdigit := Nat.mod_lt n (show 0 < 16 by decide)
  unfold hexDigit
  split <;> omega

theorem lt_of_mem_unicodeEscape {n d : ℕ} (h : d ∈ unicodeEscape n) :
  d < 128
  := by
  simp only [unicodeEscape, List.mem_cons, List.not_mem_nil, or_false] at h
  obtain rfl | rfl | rfl | rfl | rfl | rfl := h
  · decide
  · decide
  all_goals apply hexDigit_lt

theorem lt_of_mem_escapeAscii {c d : ℕ} (h : d ∈ escapeAscii c) :
  d < 128
  := by
  unfold escapeAscii at h
  split at h
  · rename_i e hshort
    obtain rfl | rfl : d = 92 ∨ d = e := by simpa using h
    · decide
    · unfold shortEscape? at hshort
      split at hshort <;> cases hshort <;> decide
  · split_ifs at h with hplain
    · obtain rfl := List.mem_singleton.mp h
      omega
    · exact lt_of_mem_unicodeEscape h
    · obtain hhigh | hlow := List.mem_append.mp h
      · exact lt_of_mem_unicodeEscape hhigh
      · exact lt_of_mem_unicodeEscape hlow

theorem lt_of_mem_write (j : Json) {d : ℕ} (h : d ∈ write escapeAscii j) :
  d < 128
  := of_mem_write (fun hprintable => hprintable.2.trans (by decide)) lt_of_mem_escapeAscii j h

/-! ### Sizes -/

theorem length_escapeAscii (c : ℕ) :
  (escapeAscii c).length = asciiWidth c
  := by
  unfold escapeAscii asciiWidth
  cases shortEscape? c with
  | some e => rfl
  | none =>
      simp only [Option.isSome_none, Bool.false_eq_true, if_false]
      split_ifs <;> rfl

theorem length_quoted (s : Text) :
  (quoted escapeAscii s).length = quotedSize s
  := by
  rw [quoted, List.length_cons, List.length_append, List.length_flatMap, List.length_singleton,
    List.map_congr_left fun c _ => length_escapeAscii c, quotedSize]
  omega

mutual

theorem length_write (j : Json) :
  (write escapeAscii j).length = j.asciiSize
  := by
  match j with
  | .null | .bool true | .bool false | .number n | .array [] | .object [] => rfl
  | .string s => exact length_quoted s
  | .array (k :: ks) =>
      have hk := length_write k
      have hks := length_writeElements ks
      simp only [write, asciiSize, elementsSize, List.length_cons, List.length_append,
        List.isEmpty_cons, Bool.false_eq_true, if_false]
      omega
  | .object ((key, k) :: fields) =>
      have hkey := length_quoted key
      have hk := length_write k
      have hfields := length_writeFields fields
      simp only [write, asciiSize, fieldsSize, List.length_cons, List.length_append,
        List.isEmpty_cons, Bool.false_eq_true, if_false]
      omega

theorem length_writeElements (js : List Json) :
  (writeElements escapeAscii js).length = elementsSize js + 1
  := by
  match js with
  | [] => rfl
  | k :: ks =>
      have hk := length_write k
      have hks := length_writeElements ks
      simp only [writeElements, elementsSize, List.length_cons, List.length_append]
      omega

theorem length_writeFields (fields : List (Text × Json)) :
  (writeFields escapeAscii fields).length = fieldsSize fields + 1
  := by
  match fields with
  | [] => rfl
  | (key, k) :: fields =>
      have hkey := length_quoted key
      have hk := length_write k
      have hfields := length_writeFields fields
      simp only [writeFields, fieldsSize, List.length_cons, List.length_append]
      omega

end

/-- The octets of a value that is written in ASCII characters. -/
theorem encodedLength_write (j : Json) :
  encodedLength (write escapeAscii j) = j.asciiSize
  := by
  rw [encodedLength_eq_length fun c hc => lt_of_mem_write j hc, length_write]

end Json
