import OllamaQueueProxy.Library.Cut
import OllamaQueueProxy.Library.Unicode

/-!
# Quoted texts

The text of a text, as it stands in messages: between quotation marks, with escapes for the
characters that are not printed.  Words of letters stand in a quoted text where they stand in
the text, unless they begin with a letter of an escape (`infix_repr_iff`).
-/

open Json (Text text)

namespace Quote

variable {α : Type*} {d : α} {q : List α} {f : α → List α}

/-! ### Patterns in texts with escapes -/

/-- A pattern stands on one side of an element that it does not have. -/
theorem infix_append_cons_iff {p a b : List α} (h : d ∉ p) :
  p <:+: a ++ d :: b ↔ p <:+: a ∨ p <:+: b
  := by
  constructor
  · intro hinfix
    obtain hleft | hright | ⟨p₁, p₂, rfl, hsuffix, hprefix⟩ := List.infix_append_iff.mp hinfix
    · exact .inl hleft
    · obtain hprefix | hrest := List.infix_cons_iff.mp hright
      · obtain rfl | ⟨q, rfl, -⟩ := List.prefix_cons_iff.mp hprefix
        · exact .inl List.nil_infix
        · exact absurd List.mem_cons_self h
      · exact .inr hrest
    · obtain rfl | ⟨q, rfl, -⟩ := List.prefix_cons_iff.mp hprefix
      · rw [List.append_nil]
        exact .inl hsuffix.isInfix
      · exact absurd (List.mem_append_right _ List.mem_cons_self) h
  · rintro (hleft | hright)
    · exact List.infix_append_of_infix_left hleft
    · exact List.infix_append_of_infix_right (List.infix_cons hright)

theorem infix_append_of_notMem {a : List α} (h : d ∉ a) (b : List α) :
  d :: q <:+: a ++ b ↔ d :: q <:+: b
  := by
  induction a with
  | nil => rfl
  | cons e a ih =>
      rw [List.mem_cons, not_or] at h
      rw [List.cons_append, List.infix_cons_iff, ih h.2, List.cons_prefix_cons]
      simp [h.1]

/-- Characters that are kept are a prefix where they were, as no escape begins with one. -/
theorem prefix_flatMap_iff {p : List α} (hkept : ∀ c ∈ p, f c = [c])
    (hescape : ∀ c, f c ≠ [c] → ∃ e ∈ (f c).head?, e ∉ p) (s : List α) :
  p <+: s.flatMap f ↔ p <+: s
  := by
  induction p generalizing s with
  | nil => simp
  | cons d p ih =>
      cases s with
      | nil => rfl
      | cons c s =>
          rw [List.flatMap_cons, List.cons_prefix_cons]
          by_cases hc : f c = [c]
          · have hrest : ∀ c, f c ≠ [c] → ∃ e ∈ (f c).head?, e ∉ p := by
              intro c hc
              obtain ⟨e, he, hnew⟩ := hescape c hc
              exact ⟨e, he, fun hmem => hnew (List.mem_cons_of_mem _ hmem)⟩
            rw [hc, List.singleton_append, List.cons_prefix_cons,
              ih (fun c hmem => hkept c (List.mem_cons_of_mem _ hmem)) hrest]
          · obtain ⟨e, he, hnew⟩ := hescape c hc
            obtain ⟨es, hes⟩ : ∃ es, f c = e :: es := List.head?_eq_some_iff.mp he
            rw [hes, List.cons_append, List.cons_prefix_cons]
            constructor
            · rintro ⟨rfl, -⟩
              exact absurd List.mem_cons_self hnew
            · rintro ⟨rfl, -⟩
              exact absurd (hkept d List.mem_cons_self) hc

theorem infix_flatMap_iff (hkept : ∀ c ∈ d :: q, f c = [c])
    (hescape : ∀ c, f c ≠ [c] → d ∉ f c ∧ ∃ e ∈ (f c).head?, e ∉ d :: q) (s : List α) :
  d :: q <:+: s.flatMap f ↔ d :: q <:+: s
  := by
  induction s with
  | nil => rfl
  | cons c s ih =>
      have hprefix := prefix_flatMap_iff hkept (fun c hc => (hescape c hc).2) (c :: s)
      rw [List.infix_cons_iff, ← hprefix, ← ih, List.flatMap_cons]
      by_cases hc : f c = [c]
      · rw [hc, List.singleton_append, List.infix_cons_iff]
      · rw [infix_append_of_notMem (hescape c hc).1]
        constructor
        · exact .inr
        · rintro (hstart | hrest)
          · exact (infix_append_of_notMem (hescape c hc).1 _).mp hstart.isInfix
          · exact hrest

end Quote

/-! ### Quotation marks -/

namespace Unicode

abbrev backslash : ℕ := 92
abbrev apostrophe : ℕ := 39
abbrev quotationMark : ℕ := 34

/-- The last `k` hexadecimal digits of a number. -/
def hexDigits (k n : ℕ) : Text :=
  (List.range k).reverse.map fun i => Json.hexDigit (n / 16 ^ i % 16)

/-- A character between quotation marks. -/
def quoted (unicode : Unicode) (mark c : ℕ) : Text :=
  if c = mark ∨ c = backslash then [backslash, c]
  else if c = 9 then text "\\t"
  else if c = 10 then text "\\n"
  else if c = 13 then text "\\r"
  else if c < 32 ∨ c = 127 then text "\\x" ++ hexDigits 2 c
  else if c < 127 ∨ unicode.isPrintable c = true then [c]
  else if c < 256 then text "\\x" ++ hexDigits 2 c
  else if c < 65536 then text "\\u" ++ hexDigits 4 c
  else text "\\U" ++ hexDigits 8 c

/-- The quotation mark for a text. -/
def markOf (t : Text) : ℕ :=
  if apostrophe ∈ t ∧ quotationMark ∉ t then quotationMark else apostrophe

/-- `repr` of a text. -/
def repr (unicode : Unicode) (t : Text) : Text :=
  markOf t :: (t.flatMap (unicode.quoted (markOf t)) ++ [markOf t])

variable {unicode : Unicode} {mark c d : ℕ} {q : Text}

theorem mem_hexDigits {k n : ℕ} (h : c ∈ hexDigits k n) :
  isAsciiDigit c = true ∨ c ∈ text "abcdef"
  := by
  obtain ⟨i, -, rfl⟩ := List.mem_map.mp h
  have hlt : n / 16 ^ i % 16 < 16 := Nat.mod_lt _ (by decide)
  generalize n / 16 ^ i % 16 = m at hlt
  revert m
  decide

theorem quoted_of_letter (hmark : isAsciiLetter mark = false) (hc : isAsciiLetter c = true) :
  unicode.quoted mark c = [c]
  := by
  have hne : c ≠ mark := by
    rintro rfl
    rw [hmark] at hc
    cases hc
  have hrange : 65 ≤ c ∧ c ≤ 90 ∨ 97 ≤ c ∧ c ≤ 122 := by
    simpa [isAsciiLetter] using hc
  have hnotBackslash : c ≠ 92 := by omega
  rw [quoted, if_neg (not_or.mpr ⟨hne, hnotBackslash⟩), if_neg, if_neg, if_neg, if_neg, if_pos]
  all_goals omega

/-- An escape begins with a backslash, of the letters only a few follow. -/
theorem quoted_cases (unicode : Unicode) (mark c : ℕ) :
  unicode.quoted mark c = [c]
    ∨ ∃ rest, unicode.quoted mark c = backslash :: rest
      ∧ ∀ e ∈ rest, e = mark ∨ e = backslash ∨ isAsciiDigit e = true ∨ e ∈ text "tnrxuUabcdef"
  := by
  have hletter (x : ℕ) (hx : x ∈ text "tnrxuUabcdef") : ∀ e ∈ [x],
      e = mark ∨ e = backslash ∨ isAsciiDigit e = true ∨ e ∈ text "tnrxuUabcdef" := by
    intro e he
    rw [List.mem_singleton.mp he]
    exact .inr (.inr (.inr hx))
  have hdigits (x k : ℕ) (hx : x ∈ text "tnrxuUabcdef") : ∀ e ∈ x :: hexDigits k c,
      e = mark ∨ e = backslash ∨ isAsciiDigit e = true ∨ e ∈ text "tnrxuUabcdef" := by
    intro e he
    obtain rfl | he := List.mem_cons.mp he
    · exact .inr (.inr (.inr hx))
    · obtain hdigit | hhex := mem_hexDigits he
      · exact .inr (.inr (.inl hdigit))
      · exact .inr (.inr (.inr (List.mem_append_right (text "tnrxuU") hhex)))
  unfold quoted
  split_ifs with hself
  · right
    use [c], rfl
    intro e he
    rw [List.mem_singleton.mp he]
    exact hself.elim .inl fun h => .inr (.inl h)
  · exact .inr ⟨_, rfl, hletter 116 (by decide)⟩
  · exact .inr ⟨_, rfl, hletter 110 (by decide)⟩
  · exact .inr ⟨_, rfl, hletter 114 (by decide)⟩
  · exact .inr ⟨_, rfl, hdigits 120 2 (by decide)⟩
  · exact .inl rfl
  · exact .inr ⟨_, rfl, hdigits 120 2 (by decide)⟩
  · exact .inr ⟨_, rfl, hdigits 117 4 (by decide)⟩
  · exact .inr ⟨_, rfl, hdigits 85 8 (by decide)⟩

theorem markOf_cases (t : Text) :
  markOf t = apostrophe ∨ markOf t = quotationMark
  := by
  unfold markOf
  split_ifs
  · exact .inr rfl
  · exact .inl rfl

theorem isAsciiLetter_markOf (t : Text) :
  isAsciiLetter (markOf t) = false
  := by
  obtain h | h := markOf_cases t <;> rw [h] <;> rfl

/-- No escape has the first letter of a word, or begins with a letter of it. -/
theorem notMem_quoted (hmark : isAsciiLetter mark = false)
    (hword : ∀ e ∈ d :: q, isAsciiLetter e = true) (hstart : d ∉ text "tnrxuUabcdef")
    (hc : unicode.quoted mark c ≠ [c]) :
  d ∉ unicode.quoted mark c ∧ ∃ e ∈ (unicode.quoted mark c).head?, e ∉ d :: q
  := by
  obtain hsame | ⟨rest, hquoted, hrest⟩ := unicode.quoted_cases mark c
  · exact absurd hsame hc
  · have hletter := hword d List.mem_cons_self
    have hne {e : ℕ} (he : isAsciiLetter e = false) : d ≠ e := by
      rintro rfl
      rw [hletter] at he
      cases he
    rw [hquoted]
    constructor
    · rw [List.mem_cons, not_or]
      use hne rfl
      intro hmem
      obtain hd | hd | hdigit | hescape := hrest d hmem
      · exact hne hmark hd
      · exact hne rfl hd
      · simp only [isAsciiDigit, isAsciiLetter, Bool.and_eq_true, Bool.or_eq_true,
          decide_eq_true_eq] at hdigit hletter
        omega
      · exact hstart hescape
    · use backslash, rfl
      intro hmem
      exact absurd (hword backslash hmem) (by decide)

/-- A word of letters stands in a quoted text if and only if it stands in the text. -/
theorem infix_repr_iff {word : Text} (hne : word ≠ []) (hword : ∀ c ∈ word, isAsciiLetter c = true)
    (hstart : ∀ c ∈ word.head?, c ∉ text "tnrxuUabcdef") (t : Text) :
  word <:+: unicode.repr t ↔ word <:+: t
  := by
  obtain ⟨d, q, rfl⟩ := List.exists_cons_of_ne_nil hne
  have hmark : markOf t ∉ d :: q := by
    intro hmem
    have hletter := hword _ hmem
    rw [isAsciiLetter_markOf] at hletter
    cases hletter
  have hopen : unicode.repr t
      = [markOf t] ++ (t.flatMap (unicode.quoted (markOf t)) ++ [markOf t]) := rfl
  have hnew : d ∉ [markOf t] := by
    rw [List.mem_singleton]
    rintro rfl
    exact hmark List.mem_cons_self
  rw [hopen, Quote.infix_append_of_notMem hnew, Quote.infix_append_cons_iff hmark,
    Quote.infix_flatMap_iff
      (fun c hc => quoted_of_letter (isAsciiLetter_markOf t) (hword c hc))
      (fun c => notMem_quoted (isAsciiLetter_markOf t) hword (hstart d rfl))]
  simp

end Unicode
