import OllamaQueueProxy.Library.Dict
import Mathlib.Data.List.Lex
import Mathlib.Data.List.Sort
import Mathlib.Tactic.IntervalCases

/-!
# JSON values and their texts

A JSON value, the text that a writer without white space gives it, and the value with its
objects sorted by their keys.  A value is determined by its text: the text of a value is
never a proper beginning of the text of another one, as long as no digits follow
(`write_append_inj`).  The texts are lists of code points.
-/

namespace Json

abbrev Text := List ℕ

/-- The code points of a string. -/
def text (s : String) : Text := s.toList.map Char.toNat

theorem text_injective :
  Function.Injective text
  := by
  intro s s' h
  apply String.toList_injective
  exact List.map_injective_iff.mpr (fun c d => Char.toNat_inj.mp) h

/-- The characters that occur in a number: digits, `+`, `-`, `.`, `e`, `E` and the letters of
`Infinity` and `NaN`. -/
def isNumberChar (c : ℕ) : Bool :=
  (48 ≤ c && c ≤ 57) || (text "+-.eEInfityNa").contains c

/-- The characters with which a number begins: a digit, `-`, `I` or `N`. -/
def isNumberStart (c : ℕ) : Bool :=
  (48 ≤ c && c ≤ 57) || (text "-IN").contains c

/-- A number, by its text. -/
structure Number where
  first : ℕ
  rest : Text
  first_isStart : isNumberStart first = true
  rest_isNumber : ∀ c ∈ rest, isNumberChar c = true
  deriving DecidableEq

def Number.text (n : Number) : Text := n.first :: n.rest

/-- The decimal digits of a natural number. -/
def decimal (n : ℕ) : Text := (Nat.toDigits 10 n).map Char.toNat

theorem decimal_ne_nil (n : ℕ) :
  decimal n ≠ []
  := by
  simp [decimal, Nat.toDigits_ne_nil]

theorem isDigit_of_mem_decimal {n c : ℕ} (h : c ∈ decimal n) :
  (48 ≤ c && c ≤ 57) = true
  := by
  obtain ⟨d, hd, rfl⟩ := List.mem_map.mp h
  have hdigit := Nat.isDigit_of_mem_toDigits (by decide) (by decide) hd
  simpa [Char.isDigit, UInt32.le_iff_toNat_le] using hdigit

/-- A natural number as a JSON number. -/
def Number.ofNat (n : ℕ) : Number where
  first := (decimal n).head (decimal_ne_nil n)
  rest := (decimal n).tail
  first_isStart := by
    rw [isNumberStart, isDigit_of_mem_decimal (List.head_mem (decimal_ne_nil n))]
    rfl
  rest_isNumber c hc := by
    rw [isNumberChar, isDigit_of_mem_decimal (List.mem_of_mem_tail hc)]
    rfl

end Json

/-- A JSON value.  The fields of an object keep their order. -/
inductive Json where
  | null
  | bool (b : Bool)
  | number (n : Json.Number)
  | string (s : Json.Text)
  | array (elements : List Json)
  | object (fields : List (Json.Text × Json))

namespace Json

/-- The number is zero. -/
def Number.isZero (n : Number) : Bool :=
  [Json.text "0", Json.text "0.0", Json.text "-0.0"].contains n.text

/-- A value is true in a condition unless it is null, false, zero or empty. -/
def truthy : Json → Bool
  | .null => false
  | .bool b => b
  | .number n => !n.isZero
  | .string s => !s.isEmpty
  | .array elements => !elements.isEmpty
  | .object fields => !fields.isEmpty

/-! ### Order of fields -/

mutual

/-- The value with the fields of all its objects sorted by their keys. -/
def sort : Json → Json
  | .array elements => .array (sortElements elements)
  | .object fields =>
      .object ((sortFields fields).insertionSort fun f g => f.1 ≤ g.1)
  | j => j

def sortElements : List Json → List Json
  | [] => []
  | j :: js => j.sort :: sortElements js

def sortFields : List (Text × Json) → List (Text × Json)
  | [] => []
  | (key, j) :: fields => (key, j.sort) :: sortFields fields

end

/-! ### Texts -/

/-- The lower-case hexadecimal digit of a value. -/
def hexDigit (n : ℕ) : ℕ := if n < 10 then 48 + n else 87 + n

/-- The escape `\uXXXX` of a code unit. -/
def unicodeEscape (n : ℕ) : Text :=
  [92, 117, hexDigit (n / 4096 % 16), hexDigit (n / 256 % 16), hexDigit (n / 16 % 16),
    hexDigit (n % 16)]

/-- The character after the backslash, for the characters that have a short escape. -/
def shortEscape? : ℕ → Option ℕ
  | 34 => some 34
  | 92 => some 92
  | 10 => some 110
  | 13 => some 114
  | 9 => some 116
  | 12 => some 102
  | 8 => some 98
  | _ => none

/-- A character within a string: quotes, backslashes and control characters are escaped. -/
def escape (c : ℕ) : Text :=
  match shortEscape? c with
  | some e => [92, e]
  | none => if c < 32 then unicodeEscape c else [c]

/-- A character within a string of ASCII characters: all others are escaped, in UTF-16. -/
def escapeAscii (c : ℕ) : Text :=
  match shortEscape? c with
  | some e => [92, e]
  | none =>
      if 32 ≤ c ∧ c < 127 then [c]
      else if c < 65536 then unicodeEscape c
      else unicodeEscape (55296 + (c - 65536) / 1024)
        ++ unicodeEscape (56320 + (c - 65536) % 1024)

/-- A string in quotes, with its characters escaped by `esc`. -/
def quoted (esc : ℕ → Text) (s : Text) : Text := 34 :: (s.flatMap esc ++ [34])

mutual

/-- The text of a value, with the characters of its strings escaped by `esc`. -/
def write (esc : ℕ → Text) : Json → Text
  | .null => text "null"
  | .bool true => text "true"
  | .bool false => text "false"
  | .number n => n.text
  | .string s => quoted esc s
  | .array [] => text "[]"
  | .array (j :: js) => 91 :: (write esc j ++ writeElements esc js)
  | .object [] => text "\x7b\x7d"
  | .object ((key, j) :: fields) =>
      123 :: (quoted esc key ++ 58 :: (write esc j ++ writeFields esc fields))

/-- The text of the elements after the first one. -/
def writeElements (esc : ℕ → Text) : List Json → Text
  | [] => [93]
  | j :: js => 44 :: (write esc j ++ writeElements esc js)

/-- The text of the fields after the first one. -/
def writeFields (esc : ℕ → Text) : List (Text × Json) → Text
  | [] => [125]
  | (key, j) :: fields =>
      44 :: (quoted esc key ++ 58 :: (write esc j ++ writeFields esc fields))

end

/-- The text of a value that does not depend on the order of its fields. -/
def canonical (j : Json) : Text := write escape j.sort

/-! ### Encoding -/

/-- The text can be encoded in UTF-8: it has no surrogates. -/
def encodable (t : Text) : Bool := t.all fun c => c < 55296 || 57344 ≤ c

/-- A text of characters of a string can be encoded. -/
theorem encodable_text (s : String) :
  encodable (text s) = true
  := by
  apply List.all_eq_true.mpr
  intro c hc
  obtain ⟨d, -, rfl⟩ := List.mem_map.mp hc
  obtain hlow | ⟨hhigh, -⟩ := d.valid
  · simpa using .inl hlow
  · simpa using .inr (Nat.succ_le_of_lt hhigh)

/-- The number of bytes of the text in UTF-8. -/
def encodedLength (t : Text) : ℕ :=
  (t.map fun c => if c < 128 then 1 else if c < 2048 then 2 else if c < 65536 then 3 else 4).sum

/-- The text in UTF-8. -/
def utf8 (t : Text) : List UInt8 := t.flatMap fun c => String.utf8EncodeChar (Char.ofNat c)

/-- The number is none of `NaN`, `Infinity` and `-Infinity`. -/
def Number.isFinite (n : Number) : Bool :=
  !([Json.text "NaN", Json.text "Infinity", Json.text "-Infinity"].contains n.text)

mutual

/-- All numbers of the value are finite. -/
def isFinite : Json → Bool
  | .null | .bool _ | .string _ => true
  | .number n => n.isFinite
  | .array elements => isFiniteElements elements
  | .object fields => isFiniteFields fields

def isFiniteElements : List Json → Bool
  | [] => true
  | j :: js => j.isFinite && isFiniteElements js

def isFiniteFields : List (Text × Json) → Bool
  | [] => true
  | (_, j) :: fields => j.isFinite && isFiniteFields fields

end

/-- The octets of the text of the value, unless it has none. -/
def render? (j : Json) : Option (List UInt8) :=
  if j.isFinite && encodable (write escape j) then some (utf8 (write escape j)) else none

/-! ### Reading -/

/-- A function that reads values, and reads back what is written of the values it reads. -/
structure Reader where
  loads : List UInt8 → Option Json
  loads_nil : loads [] = none
  loads_null : loads (utf8 (text "null")) = some .null
  loads_render : ∀ {octets : List UInt8} {j : Json} {written : List UInt8},
    loads octets = some j → j.render? = some written → loads written = some j

/-! ### Unique readability -/

/-- The escapes of characters form a prefix code, of which none begins with a quote. -/
structure IsEscaping (esc : ℕ → Text) : Prop where
  inj : ∀ {c d : ℕ} {x y : Text}, esc c ++ x = esc d ++ y → c = d ∧ x = y
  head : ∀ {c : ℕ} {x y : Text}, esc c ++ x ≠ 34 :: y

/-- No number goes on with the text. -/
def Ends (x : Text) : Prop := ∀ c ∈ x.head?, isNumberChar c = false

inductive Kind where
  | null
  | true
  | false
  | number
  | string
  | array
  | object

def kind : Json → Kind
  | .null => .null
  | .bool true => .true
  | .bool false => .false
  | .number _ => .number
  | .string _ => .string
  | .array _ => .array
  | .object _ => .object

/-- The kind of the values whose texts begin with a character. -/
def kindOfHead? (c : ℕ) : Option Kind :=
  if isNumberStart c then some .number
  else match c with
    | 110 => some .null
    | 116 => some .true
    | 102 => some .false
    | 34 => some .string
    | 91 => some .array
    | 123 => some .object
    | _ => none

theorem exists_head (esc : ℕ → Text) (j : Json) :
  ∃ c t, write esc j = c :: t ∧ kindOfHead? c = some j.kind
  := by
  cases j with
  | null => exact ⟨110, text "ull", rfl, rfl⟩
  | bool b =>
      cases b with
      | true => exact ⟨116, text "rue", rfl, rfl⟩
      | false => exact ⟨102, text "alse", rfl, rfl⟩
  | number n => exact ⟨n.first, n.rest, rfl, if_pos n.first_isStart⟩
  | string s => exact ⟨34, _, rfl, rfl⟩
  | array elements =>
      cases elements with
      | nil => exact ⟨91, _, rfl, rfl⟩
      | cons j js => exact ⟨91, _, rfl, rfl⟩
  | object fields =>
      cases fields with
      | nil => exact ⟨123, _, rfl, rfl⟩
      | cons f fields => exact ⟨123, _, rfl, rfl⟩

/-- The text of a value does not begin with a closing bracket. -/
theorem write_append_ne_bracket (esc : ℕ → Text) (j : Json) (x y : Text) :
  write esc j ++ x ≠ 93 :: y
  := by
  obtain ⟨c, t, hwrite, hkind⟩ := exists_head esc j
  intro h
  rw [hwrite] at h
  obtain ⟨rfl, _⟩ := List.cons.inj h
  cases hkind

/-- Values of the same kind. -/
inductive SameKind : Json → Json → Prop where
  | null : SameKind .null .null
  | bool (b : Bool) : SameKind (.bool b) (.bool b)
  | number (n m : Number) : SameKind (.number n) (.number m)
  | string (s t : Text) : SameKind (.string s) (.string t)
  | array (xs ys : List Json) : SameKind (.array xs) (.array ys)
  | object (fs gs : List (Text × Json)) : SameKind (.object fs) (.object gs)

theorem sameKind_of_kind_eq {a b : Json} (h : a.kind = b.kind) :
  SameKind a b
  := by
  rcases a with _ | (_ | _) | n | s | xs | fs <;> rcases b with _ | (_ | _) | m | t | ys | gs
    <;> first | constructor | cases h

theorem quoted_append_inj {esc : ℕ → Text} (hesc : IsEscaping esc) {s t x y : Text}
    (h : quoted esc s ++ x = quoted esc t ++ y) :
  s = t ∧ x = y
  := by
  have hbody : s.flatMap esc ++ 34 :: x = t.flatMap esc ++ 34 :: y := by
    simpa [quoted] using h
  clear h
  induction s generalizing t with
  | nil =>
      cases t with
      | nil => simpa using hbody
      | cons d t =>
          rw [List.flatMap_cons, List.append_assoc] at hbody
          cases hesc.head hbody.symm
  | cons c s ih =>
      cases t with
      | nil =>
          rw [List.flatMap_cons, List.append_assoc] at hbody
          cases hesc.head hbody
      | cons d t =>
          rw [List.flatMap_cons, List.append_assoc, List.flatMap_cons, List.append_assoc] at hbody
          obtain ⟨rfl, htail⟩ := hesc.inj hbody
          obtain ⟨rfl, rfl⟩ := ih htail
          exact ⟨rfl, rfl⟩

/-- A number goes on as far as there are characters of numbers. -/
theorem takeWhile_number (n : Number) {x : Text} (hx : Ends x) :
  (n.rest ++ x).takeWhile isNumberChar = n.rest
  := by
  rw [List.takeWhile_append_of_pos n.rest_isNumber]
  cases x with
  | nil => simp
  | cons c x => simp [hx c rfl]

theorem number_append_inj {n m : Number} {x y : Text} (hx : Ends x) (hy : Ends y)
    (h : n.text ++ x = m.text ++ y) :
  n = m ∧ x = y
  := by
  obtain ⟨hfirst, hrest⟩ : n.first = m.first ∧ n.rest ++ x = m.rest ++ y := by
    simpa [Number.text] using h
  have hsame : n.rest = m.rest := by
    rw [← takeWhile_number n hx, hrest, takeWhile_number m hy]
  constructor
  · cases n
    cases m
    simp_all
  · rw [hsame] at hrest
    exact List.append_cancel_left hrest

theorem ends_writeElements (esc : ℕ → Text) (js : List Json) (x : Text) :
  Ends (writeElements esc js ++ x)
  := by
  cases js with
  | nil => simp [Ends, writeElements]; decide
  | cons j js => simp [Ends, writeElements]; decide

theorem ends_writeFields (esc : ℕ → Text) (fields : List (Text × Json)) (x : Text) :
  Ends (writeFields esc fields ++ x)
  := by
  cases fields with
  | nil => simp [Ends, writeFields]; decide
  | cons f fields => simp [Ends, writeFields]; decide

mutual

/-- A value can be read off a text that begins with the text of the value, unless a number
goes on. -/
theorem write_append_inj {esc : ℕ → Text} (hesc : IsEscaping esc) (a b : Json) {x y : Text}
    (hx : Ends x) (hy : Ends y) (h : write esc a ++ x = write esc b ++ y) :
  a = b ∧ x = y
  := by
  have hsame : SameKind a b := by
    obtain ⟨c, t, ha, hka⟩ := exists_head esc a
    obtain ⟨d, u, hb, hkb⟩ := exists_head esc b
    rw [ha, hb] at h
    obtain ⟨rfl, _⟩ := List.cons.inj h
    apply sameKind_of_kind_eq
    exact Option.some.inj (hka.symm.trans hkb)
  match a, b, hsame with
  | .null, .null, .null => exact ⟨rfl, List.append_cancel_left h⟩
  | .bool _, .bool _, .bool _ => exact ⟨rfl, List.append_cancel_left h⟩
  | .number _, .number _, .number _ _ =>
      obtain ⟨rfl, rfl⟩ := number_append_inj hx hy h
      exact ⟨rfl, rfl⟩
  | .string _, .string _, .string _ _ =>
      obtain ⟨rfl, rfl⟩ := quoted_append_inj hesc h
      exact ⟨rfl, rfl⟩
  | .array [], .array [], .array _ _ => exact ⟨rfl, List.append_cancel_left h⟩
  | .array [], .array (k :: ks), .array _ _ =>
      simp only [write, List.cons_append, List.append_assoc] at h
      cases write_append_ne_bracket esc k _ _ (List.cons.inj h).2.symm
  | .array (j :: js), .array [], .array _ _ =>
      simp only [write, List.cons_append, List.append_assoc] at h
      cases write_append_ne_bracket esc j _ _ (List.cons.inj h).2
  | .array (j :: js), .array (k :: ks), .array _ _ =>
      simp only [write, List.cons_append, List.append_assoc] at h
      obtain ⟨rfl, htail⟩ := write_append_inj hesc j k (ends_writeElements esc js x)
        (ends_writeElements esc ks y) (List.cons.inj h).2
      obtain ⟨rfl, rfl⟩ := writeElements_append_inj hesc js ks htail
      exact ⟨rfl, rfl⟩
  | .object [], .object [], .object _ _ => exact ⟨rfl, List.append_cancel_left h⟩
  | .object [], .object ((l, k) :: gs), .object _ _ =>
      simp [write, quoted, text] at h
  | .object ((l, j) :: fs), .object [], .object _ _ =>
      simp [write, quoted, text] at h
  | .object ((l, j) :: fs), .object ((m, k) :: gs), .object _ _ =>
      simp only [write, List.cons_append, List.append_assoc] at h
      obtain ⟨rfl, hvalue⟩ := quoted_append_inj hesc (List.cons.inj h).2
      obtain ⟨rfl, htail⟩ := write_append_inj hesc j k (ends_writeFields esc fs x)
        (ends_writeFields esc gs y) (List.cons.inj hvalue).2
      obtain ⟨rfl, rfl⟩ := writeFields_append_inj hesc fs gs htail
      exact ⟨rfl, rfl⟩

theorem writeElements_append_inj {esc : ℕ → Text} (hesc : IsEscaping esc)
    (as bs : List Json) {x y : Text} (h : writeElements esc as ++ x = writeElements esc bs ++ y) :
  as = bs ∧ x = y
  := by
  match as, bs with
  | [], [] => exact ⟨rfl, List.append_cancel_left h⟩
  | [], k :: ks => simp [writeElements] at h
  | j :: js, [] => simp [writeElements] at h
  | j :: js, k :: ks =>
      simp only [writeElements, List.cons_append, List.append_assoc] at h
      obtain ⟨rfl, htail⟩ := write_append_inj hesc j k (ends_writeElements esc js x)
        (ends_writeElements esc ks y) (List.cons.inj h).2
      obtain ⟨rfl, rfl⟩ := writeElements_append_inj hesc js ks htail
      exact ⟨rfl, rfl⟩

theorem writeFields_append_inj {esc : ℕ → Text} (hesc : IsEscaping esc)
    (as bs : List (Text × Json)) {x y : Text}
    (h : writeFields esc as ++ x = writeFields esc bs ++ y) :
  as = bs ∧ x = y
  := by
  match as, bs with
  | [], [] => exact ⟨rfl, List.append_cancel_left h⟩
  | [], (m, k) :: gs => simp [writeFields] at h
  | (l, j) :: fs, [] => simp [writeFields] at h
  | (l, j) :: fs, (m, k) :: gs =>
      simp only [writeFields, List.cons_append, List.append_assoc] at h
      obtain ⟨rfl, hvalue⟩ := quoted_append_inj hesc (List.cons.inj h).2
      obtain ⟨rfl, htail⟩ := write_append_inj hesc j k (ends_writeFields esc fs x)
        (ends_writeFields esc gs y) (List.cons.inj hvalue).2
      obtain ⟨rfl, rfl⟩ := writeFields_append_inj hesc fs gs htail
      exact ⟨rfl, rfl⟩

end

/-- A value is determined by its text. -/
theorem write_injective {esc : ℕ → Text} (hesc : IsEscaping esc) :
  Function.Injective (write esc)
  := by
  intro a b h
  have hends : Ends [] := by simp [Ends]
  apply (write_append_inj hesc a b hends hends _).1
  rw [h]

/-! ### The escapes are a prefix code -/

theorem hexDigit_injOn {m n : ℕ} (hm : m < 16) (hn : n < 16) (h : hexDigit m = hexDigit n) :
  m = n
  := by
  unfold hexDigit at h
  split_ifs at h <;> omega

/-- The character that a short escape stands for. -/
def shortUnescape : ℕ → ℕ
  | 110 => 10
  | 114 => 13
  | 116 => 9
  | 102 => 12
  | 98 => 8
  | e => e

theorem shortEscape?_eq_some {c e : ℕ} (h : shortEscape? c = some e) :
  shortUnescape e = c ∧ e ≠ 117
  := by
  unfold shortEscape? at h
  split at h <;> cases h <;> decide

/-- The three forms of an escaped character. -/
theorem escape_cases (c : ℕ) :
  (∃ e, shortEscape? c = some e ∧ escape c = [92, e])
    ∨ (c < 32 ∧ escape c = unicodeEscape c)
    ∨ (shortEscape? c = none ∧ 32 ≤ c ∧ escape c = [c])
  := by
  unfold escape
  cases hshort : shortEscape? c with
  | some e => exact .inl ⟨e, rfl, rfl⟩
  | none =>
      by_cases hc : c < 32
      · exact .inr (.inl ⟨hc, if_pos hc⟩)
      · exact .inr (.inr ⟨rfl, Nat.le_of_not_lt hc, if_neg hc⟩)

theorem unicodeEscape_append_inj {c d : ℕ} {x y : Text} (hc : c < 32) (hd : d < 32)
    (h : unicodeEscape c ++ x = unicodeEscape d ++ y) :
  c = d ∧ x = y
  := by
  simp only [unicodeEscape, List.cons_append, List.nil_append, List.cons.injEq, true_and] at h
  obtain ⟨_, _, hhigh, hlow, hxy⟩ := h
  have hhigh' : c / 16 % 16 = d / 16 % 16 :=
    hexDigit_injOn (Nat.mod_lt _ (by decide)) (Nat.mod_lt _ (by decide)) hhigh
  have hlow' : c % 16 = d % 16 :=
    hexDigit_injOn (Nat.mod_lt _ (by decide)) (Nat.mod_lt _ (by decide)) hlow
  constructor
  · omega
  · exact hxy

theorem isEscaping_escape :
  IsEscaping escape
  := by
  constructor
  · intro c d x y h
    obtain ⟨e, hce, hc⟩ | ⟨hlt, hc⟩ | ⟨hraw, _, hc⟩ := escape_cases c
      <;> obtain ⟨f, hdf, hd⟩ | ⟨hlt', hd⟩ | ⟨hraw', _, hd⟩ := escape_cases d
      <;> rw [hc, hd] at h
    · obtain ⟨rfl, rfl⟩ : e = f ∧ x = y := by simpa using h
      constructor
      · rw [← (shortEscape?_eq_some hce).1, ← (shortEscape?_eq_some hdf).1]
      · rfl
    · obtain ⟨rfl, _⟩ : e = 117 ∧ _ := by simpa [unicodeEscape] using h
      cases (shortEscape?_eq_some hce).2 rfl
    · obtain ⟨rfl, _⟩ : 92 = d ∧ e :: x = y := by simpa using h
      cases hraw'
    · obtain ⟨rfl, _⟩ : 117 = f ∧ _ := by simpa [unicodeEscape] using h
      cases (shortEscape?_eq_some hdf).2 rfl
    · exact unicodeEscape_append_inj hlt hlt' h
    · obtain ⟨rfl, _⟩ : 92 = d ∧ _ := by simpa [unicodeEscape] using h
      cases hraw'
    · obtain ⟨rfl, _⟩ : c = 92 ∧ x = f :: y := by simpa using h
      cases hraw
    · obtain ⟨rfl, _⟩ : c = 92 ∧ _ := by simpa [unicodeEscape] using h
      cases hraw
    · simpa using h
  · intro c x y h
    obtain ⟨e, hce, hc⟩ | ⟨hlt, hc⟩ | ⟨hraw, _, hc⟩ := escape_cases c <;> rw [hc] at h
    · simp at h
    · simp [unicodeEscape] at h
    · obtain ⟨rfl, _⟩ : c = 34 ∧ x = y := by simpa using h
      cases hraw

/-- Values have the same canonical text only if they are the same up to the order of their
fields. -/
theorem canonical_inj {a b : Json} (h : canonical a = canonical b) :
  a.sort = b.sort
  := write_injective isEscaping_escape h

/-! ### The characters of a text -/

theorem hexDigit_pos (n : ℕ) :
  0 < hexDigit n
  := by
  unfold hexDigit
  split_ifs <;> omega

theorem pos_of_mem_escape {c d : ℕ} (h : d ∈ escape c) :
  0 < d
  := by
  obtain ⟨e, hce, hc⟩ | ⟨_, hc⟩ | ⟨_, hle, hc⟩ := escape_cases c <;> rw [hc] at h
  · obtain rfl | rfl : d = 92 ∨ d = e := by simpa using h
    · decide
    · unfold shortEscape? at hce
      split at hce <;> cases hce <;> decide
  · simp only [unicodeEscape, List.mem_cons, List.not_mem_nil, or_false] at h
    obtain rfl | rfl | rfl | rfl | rfl | rfl := h
    · decide
    · decide
    all_goals apply hexDigit_pos
  · obtain rfl := List.mem_singleton.mp h
    exact Nat.lt_of_lt_of_le (by decide) hle

theorem printable_of_isNumberChar {c : ℕ} (h : isNumberChar c = true) :
  32 < c ∧ c < 127
  := by
  rw [isNumberChar, Bool.or_eq_true, List.contains_iff_mem] at h
  obtain hdigit | hmem := h
  · rw [Bool.and_eq_true, decide_eq_true_iff, decide_eq_true_iff] at hdigit
    omega
  · revert c
    decide

/-- What begins a number may occur in one. -/
theorem isNumberChar_of_isNumberStart {c : ℕ} (h : isNumberStart c = true) :
  isNumberChar c = true
  := by
  rw [isNumberStart, Bool.or_eq_true, List.contains_iff_mem] at h
  obtain hdigit | hmem := h
  · rw [isNumberChar, hdigit, Bool.true_or]
  · revert c
    decide

section

variable {P : ℕ → Prop} {esc : ℕ → Text}

theorem of_mem_quoted (hprintable : ∀ {d}, 32 < d ∧ d < 127 → P d)
    (hesc : ∀ {c d}, d ∈ esc c → P d) {s : Text} {d : ℕ} (h : d ∈ quoted esc s) :
  P d
  := by
  obtain rfl | hbody | rfl : d = 34 ∨ d ∈ s.flatMap esc ∨ d = 34 := by simpa [quoted] using h
  · exact hprintable (by decide)
  · obtain ⟨c, _, hd⟩ := List.mem_flatMap.mp hbody
    exact hesc hd
  · exact hprintable (by decide)

mutual

/-- The characters of the text of a value are printable, besides those of its strings. -/
theorem of_mem_write (hprintable : ∀ {d}, 32 < d ∧ d < 127 → P d)
    (hesc : ∀ {c d}, d ∈ esc c → P d) (j : Json) {d : ℕ} (h : d ∈ write esc j) :
  P d
  := by
  match j with
  | .null | .bool true | .bool false | .array [] | .object [] =>
      apply hprintable
      revert d
      simp only [write]
      decide
  | .number n =>
      obtain rfl | hrest := List.mem_cons.mp h
      · exact hprintable (printable_of_isNumberChar (isNumberChar_of_isNumberStart n.first_isStart))
      · exact hprintable (printable_of_isNumberChar (n.rest_isNumber d hrest))
  | .string s => exact of_mem_quoted hprintable hesc h
  | .array (k :: ks) =>
      simp only [write, List.mem_cons, List.mem_append] at h
      obtain rfl | hhead | htail := h
      · exact hprintable (by decide)
      · exact of_mem_write hprintable hesc k hhead
      · exact of_mem_writeElements hprintable hesc ks htail
  | .object ((key, k) :: fields) =>
      simp only [write, List.mem_cons, List.mem_append] at h
      obtain rfl | hkey | rfl | hvalue | htail := h
      · exact hprintable (by decide)
      · exact of_mem_quoted hprintable hesc hkey
      · exact hprintable (by decide)
      · exact of_mem_write hprintable hesc k hvalue
      · exact of_mem_writeFields hprintable hesc fields htail

theorem of_mem_writeElements (hprintable : ∀ {d}, 32 < d ∧ d < 127 → P d)
    (hesc : ∀ {c d}, d ∈ esc c → P d) (js : List Json) {d : ℕ} (h : d ∈ writeElements esc js) :
  P d
  := by
  match js with
  | [] =>
      apply hprintable
      revert d
      simp only [writeElements]
      decide
  | k :: ks =>
      simp only [writeElements, List.mem_cons, List.mem_append] at h
      obtain rfl | hhead | htail := h
      · exact hprintable (by decide)
      · exact of_mem_write hprintable hesc k hhead
      · exact of_mem_writeElements hprintable hesc ks htail

theorem of_mem_writeFields (hprintable : ∀ {d}, 32 < d ∧ d < 127 → P d)
    (hesc : ∀ {c d}, d ∈ esc c → P d) (fields : List (Text × Json)) {d : ℕ}
    (h : d ∈ writeFields esc fields) :
  P d
  := by
  match fields with
  | [] =>
      apply hprintable
      revert d
      simp only [writeFields]
      decide
  | (key, k) :: fields =>
      simp only [writeFields, List.mem_cons, List.mem_append] at h
      obtain rfl | hkey | rfl | hvalue | htail := h
      · exact hprintable (by decide)
      · exact of_mem_quoted hprintable hesc hkey
      · exact hprintable (by decide)
      · exact of_mem_write hprintable hesc k hvalue
      · exact of_mem_writeFields hprintable hesc fields htail

end

end

/-- The text of a value has no null character. -/
theorem pos_of_mem_write (j : Json) {d : ℕ} (h : d ∈ write escape j) :
  0 < d
  := of_mem_write (fun hprintable => Nat.zero_lt_of_lt hprintable.1) pos_of_mem_escape j h

/-- The parts of a text on both sides of its last null character are determined. -/
theorem append_zero_inj {s t x y : Text} (hx : ∀ c ∈ x, 0 < c) (hy : ∀ c ∈ y, 0 < c)
    (h : s ++ 0 :: x = t ++ 0 :: y) :
  s = t ∧ x = y
  := by
  have htake {s x : Text} (hx : ∀ c ∈ x, 0 < c) :
      (s ++ 0 :: x).reverse.takeWhile (0 < ·) = x.reverse := by
    rw [List.reverse_append, List.reverse_cons, List.append_assoc,
      List.takeWhile_append_of_pos (by simpa using hx)]
    simp
  have hsame : x = y := by
    apply List.reverse_injective
    rw [← htake (s := s) hx, h, htake hy]
  subst hsame
  exact ⟨List.append_cancel_right h, rfl⟩

end Json
