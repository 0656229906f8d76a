import OllamaQueueProxy.Library.Quote

/-!
# Label values

`/metrics` writes the names of clients, models and hosts as label values between quotation marks,
after three replacements, each of which also works on the output of those before it.  The
replacements act as one that escapes each character (`pmLabel_eq`), so that a reader of labels
gets back what was written and stops at the mark that ends it (`pmLabel_correct`).
-/

open Json (Text text)
open Unicode (backslash quotationMark)

namespace OllamaQueueProxy

/-! ### Writing -/

abbrev newline : ℕ := 10

/-- `v.replace(old, new)` for a single character `old`. -/
def replace (old : ℕ) (new v : Text) : Text := v.flatMap fun c => if c = old then new else [c]

/-- `_pm_label`. -/
def pmLabel (v : Text) : Text :=
  replace newline (text "\\n")
    (replace quotationMark (text "\\\"") (replace backslash (text "\\\\") v))

/-! ### Reading -/

/-- A text in which quotation marks, backslashes and newlines stand as escapes only. -/
inductive Escaped : Text → Prop
  | nil : Escaped []
  | plain {c : ℕ} {t : Text} (hbackslash : c ≠ backslash) (hquotation : c ≠ quotationMark)
      (hnewline : c ≠ newline) (ht : Escaped t) : Escaped (c :: t)
  | escape {e : ℕ} {t : Text} (he : e ∈ text "\\\"n") (ht : Escaped t) :
      Escaped (backslash :: e :: t)

/-- The character that an escape stands for, after the backslash. -/
def unescape? : ℕ → Option ℕ
  | 92 => some backslash
  | 34 => some quotationMark
  | 110 => some newline
  | _ => none

/-- The value that a text stands for, read from left to right. -/
def decodeLabel? : Text → Option Text
  | [] => some []
  | 92 :: e :: t => do
      let c ← unescape? e
      let v ← decodeLabel? t
      return c :: v
  | c :: t =>
      if c = backslash ∨ c = quotationMark ∨ c = newline then none
      else (decodeLabel? t).map fun v => c :: v

/-- The label value up to the quotation mark that ends it, and what follows the mark. -/
def readLabel? : Text → Option (Text × Text)
  | [] => none
  | 34 :: rest => some ([], rest)
  | 92 :: e :: t => do
      let c ← unescape? e
      let (v, rest) ← readLabel? t
      return (c :: v, rest)
  | c :: t =>
      if c = backslash ∨ c = newline then none
      else (readLabel? t).map fun (v, rest) => (c :: v, rest)

/-! ### One pass -/

/-- What a character is written as. -/
def escapeLabel (c : ℕ) : Text :=
  if c = backslash then text "\\\\"
  else if c = quotationMark then text "\\\""
  else if c = newline then text "\\n"
  else [c]

/-- How a character is written. -/
inductive Escape (c : ℕ) : Prop
  | plain (hbackslash : c ≠ backslash) (hquotation : c ≠ quotationMark) (hnewline : c ≠ newline)
      (hwritten : escapeLabel c = [c])
  | escape (e : ℕ) (hcode : unescape? e = some c) (hwritten : escapeLabel c = [backslash, e])

theorem escape_cases (c : ℕ) :
  Escape c
  := by
  by_cases hbackslash : c = backslash
  · subst hbackslash
    exact .escape backslash rfl rfl
  · by_cases hquotation : c = quotationMark
    · subst hquotation
      exact .escape quotationMark rfl rfl
    · by_cases hnewline : c = newline
      · subst hnewline
        exact .escape 110 rfl rfl
      · apply Escape.plain hbackslash hquotation hnewline
        rw [escapeLabel, if_neg hbackslash, if_neg hquotation, if_neg hnewline]

/-- A replacement acts on the output of the one before it, character by character. -/
theorem replace_flatMap (old : ℕ) (new : Text) (f : ℕ → Text) (v : Text) :
  replace old new (v.flatMap f) = v.flatMap fun c => replace old new (f c)
  := List.flatMap_assoc

theorem replace_singleton (old c : ℕ) (new : Text) :
  replace old new [c] = if c = old then new else [c]
  := by
  simp [replace]

/-- The three replacements escape each character by itself. -/
theorem pmLabel_eq (v : Text) :
  pmLabel v = v.flatMap escapeLabel
  := by
  have hbackslashes : replace backslash (text "\\\\") v
      = v.flatMap fun c => if c = backslash then text "\\\\" else [c] := rfl
  rw [pmLabel, hbackslashes, replace_flatMap, replace_flatMap]
  congr 1
  funext c
  by_cases hbackslash : c = backslash
  · subst hbackslash
    rfl
  · rw [if_neg hbackslash, replace_singleton, escapeLabel, if_neg hbackslash]
    by_cases hquotation : c = quotationMark
    · subst hquotation
      rfl
    · rw [if_neg hquotation, if_neg hquotation, replace_singleton]

theorem pmLabel_cons (c : ℕ) (v : Text) :
  pmLabel (c :: v) = escapeLabel c ++ pmLabel v
  := by
  rw [pmLabel_eq, pmLabel_eq, List.flatMap_cons]

/-! ### What is read back -/

theorem escaped_pmLabel (v : Text) :
  Escaped (pmLabel v)
  := by
  induction v with
  | nil => exact .nil
  | cons c v ih =>
      rw [pmLabel_cons]
      cases escape_cases c with
      | plain hbackslash hquotation hnewline hwritten =>
          rw [hwritten]
          exact .plain hbackslash hquotation hnewline ih
      | escape e hcode hwritten =>
          rw [hwritten]
          apply Escaped.escape _ ih
          unfold unescape? at hcode
          split at hcode
          · decide
          · decide
          · decide
          · cases hcode

theorem decodeLabel?_pmLabel (v : Text) :
  decodeLabel? (pmLabel v) = some v
  := by
  induction v with
  | nil => rfl
  | cons c v ih =>
      rw [pmLabel_cons]
      cases escape_cases c with
      | plain hbackslash hquotation hnewline hwritten =>
          rw [hwritten, List.singleton_append, decodeLabel?, ih]
          · simp [hbackslash, hquotation, hnewline]
          · intro e t hc
            exact absurd hc hbackslash
      | escape e hcode hwritten =>
          rw [hwritten, List.cons_append, List.singleton_append, decodeLabel?, hcode, ih]
          rfl

/-- A reader of a label stops at the mark that ends the value. -/
theorem readLabel?_pmLabel (v rest : Text) :
  readLabel? (pmLabel v ++ quotationMark :: rest) = some (v, rest)
  := by
  induction v with
  | nil => rfl
  | cons c v ih =>
      rw [pmLabel_cons, List.append_assoc]
      cases escape_cases c with
      | plain hbackslash hquotation hnewline hwritten =>
          rw [hwritten, List.singleton_append, readLabel?, ih]
          · simp [hbackslash, hnewline]
          · exact hquotation
          · intro e t hc
            exact absurd hc hbackslash
      | escape e hcode hwritten =>
          rw [hwritten, List.cons_append, List.singleton_append, readLabel?, hcode, ih]
          rfl

/-- A label value has quotation marks, backslashes and newlines in escapes only and is read back,
by itself and before the mark that ends it; no other value is written so. -/
theorem pmLabel_correct (v : Text) :
  Escaped (pmLabel v)
    ∧ decodeLabel? (pmLabel v) = some v
    ∧ (∀ rest, readLabel? (pmLabel v ++ quotationMark :: rest) = some (v, rest))
    ∧ ∀ w, pmLabel w = pmLabel v → w = v
  := by
  refine ⟨escaped_pmLabel v, decodeLabel?_pmLabel v, readLabel?_pmLabel v, ?_⟩
  intro w hsame
  have hread := decodeLabel?_pmLabel w
  rw [hsame, decodeLabel?_pmLabel v] at hread
  exact (Option.some.inj hread).symm

example : pmLabel (text "a\\\"b\n") = text "a\\\\\\\"b\\n" := by decide

end OllamaQueueProxy
