import OllamaQueueProxy.Library.Cut
import OllamaQueueProxy.Library.Unicode

/-!
# The text exposition format

The text in which metrics are exposed to a scraper: a line for the description of a metric, one
for its type, and one for each sample, with the values of labels between quotation marks.  How
the values of labels are escaped is left open; if a reader of labels gets back what was escaped,
and nothing is escaped to a text with a newline, then a reader of lines gets back the lines that
were written (`readText?_writeText`).  What is written has ASCII characters, and those of the
names, the values and the descriptions (`all_writeText`).
-/

open Json (Text text decimal)

namespace Exposition

abbrev newline : ℕ := 10
abbrev space : ℕ := 32
abbrev quotationMark : ℕ := 34
abbrev comma : ℕ := 44
abbrev minus : ℕ := 45
abbrev equals : ℕ := 61
abbrev openBrace : ℕ := 123
abbrev closeBrace : ℕ := 125

/-- The characters of the names of metrics and labels. -/
def isNameChar (c : ℕ) : Bool := isAsciiLetter c || isAsciiDigit c || c == 95 || c == 58

def isName (t : Text) : Bool := !t.isEmpty && t.all isNameChar

/-- A line of an exposition. -/
inductive Line where
  | help (metric doc : Text)
  | type (metric kind : Text)
  | sample (metric : Text) (labels : List (Text × Text)) (value : ℤ)
  deriving DecidableEq

/-- The series that a sample belongs to: the name of its metric, with its labels. -/
def Line.series? : Line → Option (Text × List (Text × Text))
  | .sample metric labels _ => some (metric, labels)
  | _ => none

/-- The line can be written: what should be a name is one, and there is no newline in the rest. -/
inductive Line.WellFormed : Line → Prop where
  | help {metric doc : Text} (hmetric : isName metric = true) (hdoc : newline ∉ doc) :
      WellFormed (.help metric doc)
  | type {metric kind : Text} (hmetric : isName metric = true) (hkind : newline ∉ kind) :
      WellFormed (.type metric kind)
  | sample {metric : Text} {labels : List (Text × Text)} {value : ℤ}
      (hmetric : isName metric = true) (hlabels : ∀ l ∈ labels, isName l.1 = true) :
      WellFormed (.sample metric labels value)

/-! ### Numbers -/

def writeInt (n : ℤ) : Text := if n < 0 then minus :: decimal n.natAbs else decimal n.natAbs

/-- The number that digits stand for. -/
def readNat? (t : Text) : Option ℕ :=
  if t ≠ [] ∧ t.all isAsciiDigit = true then some (t.foldl (fun n c => 10 * n + (c - 48)) 0)
  else none

def readInt? : Text → Option ℤ
  | 45 :: t => (readNat? t).map fun n : ℕ => -(n : ℤ)
  | t => (readNat? t).map fun n : ℕ => (n : ℤ)

theorem readNat?_decimal (n : ℕ) :
  readNat? (decimal n) = some n
  := by
  have hdigits : (decimal n).all isAsciiDigit = true :=
    List.all_eq_true.mpr fun c hc => Json.isDigit_of_mem_decimal hc
  rw [readNat?, if_pos ⟨Json.decimal_ne_nil n, hdigits⟩, decimal, List.foldl_map]
  have hvalue := @Nat.ofDigitChars_ten_toDigits n
  rw [Nat.ofDigitChars_eq_foldl] at hvalue
  exact congrArg some hvalue

theorem readInt?_writeInt (n : ℤ) :
  readInt? (writeInt n) = some n
  := by
  unfold writeInt
  split_ifs with hn
  · rw [readInt?, readNat?_decimal, Option.map_some]
    congr 1
    omega
  · rw [readInt?, readNat?_decimal, Option.map_some]
    · congr 1
      omega
    · intro t ht
      have hdigit := @Json.isDigit_of_mem_decimal n.natAbs 45 (ht ▸ List.mem_cons_self)
      cases hdigit

theorem newline_notMem_writeInt (n : ℤ) :
  newline ∉ writeInt n
  := by
  have hdecimal : newline ∉ decimal n.natAbs := by
    intro hmem
    cases Json.isDigit_of_mem_decimal hmem
  unfold writeInt
  split_ifs
  · simpa using hdecimal
  · exact hdecimal

/-! ### Names -/

section

variable {name t : Text}

theorem isNameChar_of_mem (h : isName name = true) {c : ℕ} (hc : c ∈ name) :
  isNameChar c = true
  := List.all_eq_true.mp (Bool.and_eq_true_iff.mp h).2 c hc

theorem ne_nil_of_isName (h : isName name = true) :
  name ≠ []
  := by
  rintro rfl
  cases h

/-- A character that is not one of names is in none of them. -/
theorem notMem_of_isName (h : isName name = true) {c : ℕ} (hc : isNameChar c = false) :
  c ∉ name
  := by
  intro hmem
  rw [isNameChar_of_mem h hmem] at hc
  cases hc

/-- A name ends before the first character that is not one of names. -/
theorem span_name (h : isName name = true) {c : ℕ} (hc : isNameChar c = false) :
  (name ++ c :: t).takeWhile isNameChar = name ∧ (name ++ c :: t).dropWhile isNameChar = c :: t
  := by
  have hall : ∀ c ∈ name, isNameChar c = true := fun c hc => isNameChar_of_mem h hc
  constructor
  · rw [List.takeWhile_append_of_pos hall, List.takeWhile_cons_of_neg (by simp [hc]),
      List.append_nil]
  · rw [List.dropWhile_append_of_pos hall, List.dropWhile_cons_of_neg (by simp [hc])]

end

/-! ### Labels -/

section

variable (esc : Text → Text) (value? : Text → Option (Text × Text))

/-- A label, with its value between quotation marks. -/
def writeLabel (l : Text × Text) : Text :=
  l.1 ++ equals :: quotationMark :: (esc l.2 ++ [quotationMark])

/-- The labels after the first one, and the brace that ends them. -/
def writeRest : List (Text × Text) → Text
  | [] => [closeBrace]
  | l :: ls => comma :: (writeLabel esc l ++ writeRest ls)

/-- The labels between braces, if there are any. -/
def writeLabels : List (Text × Text) → Text
  | [] => []
  | l :: ls => openBrace :: (writeLabel esc l ++ writeRest esc ls)

/-- A label, and what follows it.  The reader of values `value?` stops after a quotation mark. -/
def readLabel? (t : Text) : Option ((Text × Text) × Text) :=
  match t.dropWhile isNameChar with
  | 61 :: 34 :: rest => (value? rest).map fun (v, rest) => ((t.takeWhile isNameChar, v), rest)
  | _ => none

/-- The labels up to the brace that ends them, and what follows it; `fuel` bounds their
number. -/
def readLabels? : ℕ → Text → Option (List (Text × Text) × Text)
  | 0, _ => none
  | fuel + 1, t => match readLabel? value? t with
    | some (l, 44 :: rest) => (readLabels? fuel rest).map fun (ls, rest) => (l :: ls, rest)
    | some (l, 125 :: rest) => some ([l], rest)
    | _ => none

/-- A value that was escaped is read back up to the quotation mark that ends it, and it has no
newline. -/
structure Escapes : Prop where
  read : ∀ v rest, value? (esc v ++ quotationMark :: rest) = some (v, rest)
  newline : ∀ v, newline ∉ esc v

variable {esc value?} (hesc : Escapes esc value?)
include hesc

theorem readLabel?_writeLabel {l : Text × Text} (hl : isName l.1 = true) (rest : Text) :
  readLabel? value? (writeLabel esc l ++ rest) = some (l, rest)
  := by
  have happend : writeLabel esc l ++ rest
      = l.1 ++ equals :: quotationMark :: (esc l.2 ++ quotationMark :: rest) := by
    simp [writeLabel]
  obtain ⟨htake, hdrop⟩ := @span_name l.1 (quotationMark :: (esc l.2 ++ quotationMark :: rest)) hl
    equals rfl
  rw [happend, readLabel?, hdrop, htake]
  simp only [hesc.read, Option.map_some]

/-- As many labels as the fuel allows are read back. -/
theorem readLabels?_write {l : Text × Text} {ls : List (Text × Text)}
    (hl : isName l.1 = true) (hls : ∀ l ∈ ls, isName l.1 = true) {fuel : ℕ}
    (hfuel : ls.length < fuel) (rest : Text) :
  readLabels? value? fuel (writeLabel esc l ++ (writeRest esc ls ++ rest)) = some (l :: ls, rest)
  := by
  induction ls generalizing l fuel with
  | nil =>
      obtain ⟨fuel, rfl⟩ := Nat.exists_eq_succ_of_ne_zero (Nat.ne_of_gt hfuel)
      rw [readLabels?, readLabel?_writeLabel hesc hl]
      rfl
  | cons l' ls ih =>
      obtain ⟨hl', hls⟩ := List.forall_mem_cons.mp hls
      obtain ⟨fuel, rfl⟩ := Nat.exists_eq_succ_of_ne_zero (Nat.ne_zero_of_lt hfuel)
      have hread := ih hl' hls (Nat.lt_of_succ_lt_succ hfuel)
      rw [readLabels?, readLabel?_writeLabel hesc hl, writeRest, List.cons_append,
        List.append_assoc]
      simp only [hread, Option.map_some]

theorem newline_notMem_writeLabel {l : Text × Text} (hl : isName l.1 = true) :
  newline ∉ writeLabel esc l
  := by
  have hvalue := hesc.newline l.2
  have hname := notMem_of_isName (c := newline) hl rfl
  simp [writeLabel, hvalue, hname]

theorem newline_notMem_writeRest {ls : List (Text × Text)} (hls : ∀ l ∈ ls, isName l.1 = true) :
  newline ∉ writeRest esc ls
  := by
  induction ls with
  | nil => simp [writeRest]
  | cons l ls ih =>
      obtain ⟨hl, hls⟩ := List.forall_mem_cons.mp hls
      simp [writeRest, newline_notMem_writeLabel hesc hl, ih hls]

theorem newline_notMem_writeLabels {ls : List (Text × Text)}
    (hls : ∀ l ∈ ls, isName l.1 = true) :
  newline ∉ writeLabels esc ls
  := by
  cases ls with
  | nil => exact List.not_mem_nil
  | cons l ls =>
      obtain ⟨hl, hls⟩ := List.forall_mem_cons.mp hls
      simp [writeLabels, newline_notMem_writeLabel hesc hl, newline_notMem_writeRest hesc hls]

end

/-! ### Lines -/

section

variable (esc : Text → Text) (value? : Text → Option (Text × Text))

def Line.write : Line → Text
  | .help metric doc => text "# HELP " ++ (metric ++ space :: doc)
  | .type metric kind => text "# TYPE " ++ (metric ++ space :: kind)
  | .sample metric labels value => metric ++ (writeLabels esc labels ++ space :: writeInt value)

/-- The labels and the value of a sample, after the name of its metric. -/
def readSample? : Text → Option (List (Text × Text) × ℤ)
  | 32 :: t => (readInt? t).map fun n => ([], n)
  | 123 :: t => match readLabels? value? (t.length + 1) t with
    | some (ls, 32 :: t) => (readInt? t).map fun n => (ls, n)
    | _ => none
  | _ => none

def readLine? (t : Text) : Option Line :=
  match t with
  | 35 :: _ => match Cut.splitMax space 3 t with
    | [_, word, metric, rest] =>
        if word = text "HELP" then some (.help metric rest)
        else if word = text "TYPE" then some (.type metric rest)
        else none
    | _ => none
  | _ => (readSample? value? (t.dropWhile isNameChar)).map fun (labels, n) =>
      .sample (t.takeWhile isNameChar) labels n

/-- The text of the lines, each of which ends with a newline. -/
def writeText (ls : List Line) : Text := ls.flatMap fun l => l.write esc ++ [newline]

/-- The lines that end with a newline, and what follows the last one. -/
def splitLines : Text → List Text × Text
  | [] => ([], [])
  | c :: t =>
      if c = newline then ([] :: (splitLines t).1, (splitLines t).2)
      else match splitLines t with
        | ([], last) => ([], c :: last)
        | (l :: ls, last) => ((c :: l) :: ls, last)

/-- The lines of an exposition, which ends with a newline. -/
def readText? (t : Text) : Option (List Line) :=
  match splitLines t with
  | (ls, []) => ls.mapM (readLine? value?)
  | _ => none

variable {esc value?}

/-- The texts that a line is made of. -/
def Line.parts (esc : Text → Text) : Line → List Text
  | .help metric doc => [metric, doc]
  | .type metric kind => [metric, kind]
  | .sample metric labels _ => metric :: labels.flatMap fun l => [l.1, esc l.2]

section

-- a property of characters that all ASCII characters have
variable {p : ℕ → Bool} (hascii : ∀ c < 128, p c = true)
include hascii

theorem all_writeInt (n : ℤ) :
  (writeInt n).all p = true
  := by
  have hdecimal : (decimal n.natAbs).all p = true := by
    apply List.all_eq_true.mpr
    intro c hc
    have hdigit := Json.isDigit_of_mem_decimal hc
    apply hascii
    simp only [Bool.and_eq_true, decide_eq_true_eq] at hdigit
    omega
  unfold writeInt
  split_ifs
  · rw [List.all_cons, hascii minus (by decide), hdecimal]
    rfl
  · exact hdecimal

theorem all_writeLabel {l : Text × Text} (hl : ∀ t ∈ [l.1, esc l.2], t.all p = true) :
  (writeLabel esc l).all p = true
  := by
  have hname := hl l.1 List.mem_cons_self
  have hvalue := hl (esc l.2) (List.mem_cons_of_mem _ List.mem_cons_self)
  have hequals := hascii equals (by decide)
  have hmark := hascii quotationMark (by decide)
  simp [writeLabel, hname, hvalue, hequals, hmark]

theorem all_writeRest {ls : List (Text × Text)}
    (hls : ∀ t ∈ ls.flatMap fun l => [l.1, esc l.2], t.all p = true) :
  (writeRest esc ls).all p = true
  := by
  induction ls with
  | nil =>
      have hbrace := hascii closeBrace (by decide)
      simp [writeRest, hbrace]
  | cons l ls ih =>
      obtain ⟨hl, hls⟩ := List.forall_mem_append.mp hls
      have hcomma := hascii comma (by decide)
      simp [writeRest, all_writeLabel hascii hl, ih hls, hcomma]

theorem all_writeLabels {ls : List (Text × Text)}
    (hls : ∀ t ∈ ls.flatMap fun l => [l.1, esc l.2], t.all p = true) :
  (writeLabels esc ls).all p = true
  := by
  cases ls with
  | nil => rfl
  | cons l ls =>
      obtain ⟨hl, hls⟩ := List.forall_mem_append.mp hls
      have hbrace := hascii openBrace (by decide)
      simp [writeLabels, all_writeLabel hascii hl, all_writeRest hascii hls, hbrace]

theorem Line.all_write {l : Line} (hl : ∀ t ∈ l.parts esc, t.all p = true) :
  (l.write esc).all p = true
  := by
  have hspace := hascii space (by decide)
  have hword (s : Text) (hs : s.all (fun c => c < 128) = true) : s.all p = true :=
    List.all_eq_true.mpr fun c hc => hascii c (by simpa using List.all_eq_true.mp hs c hc)
  have hhelp := hword (text "# HELP ") (by decide)
  have htype := hword (text "# TYPE ") (by decide)
  cases l with
  | help metric doc | type metric doc =>
      have hdoc := hl doc (List.mem_cons_of_mem _ List.mem_cons_self)
      have hmetric := hl metric List.mem_cons_self
      simp only [write, List.all_append, List.all_cons, hhelp, htype, hmetric, hdoc, hspace,
        Bool.and_self]
  | sample metric labels n =>
      obtain ⟨hmetric, hlabels⟩ := List.forall_mem_cons.mp hl
      simp only [write, List.all_append, List.all_cons, hmetric, all_writeLabels hascii hlabels,
        all_writeInt hascii, hspace, Bool.and_self]

/-- What all ASCII characters have, and the characters in the parts of the lines, all characters
of the text have. -/
theorem all_writeText {ls : List Line} (hls : ∀ l ∈ ls, ∀ t ∈ l.parts esc, t.all p = true) :
  (writeText esc ls).all p = true
  := by
  rw [writeText, List.all_flatMap]
  apply List.all_eq_true.mpr
  intro l hl
  rw [List.all_append, Line.all_write hascii (hls l hl), List.all_cons,
    hascii newline (by decide)]
  rfl

end

theorem splitLines_append {l : Text} (hl : newline ∉ l) (t : Text) :
  splitLines (l ++ newline :: t) = (l :: (splitLines t).1, (splitLines t).2)
  := by
  induction l with
  | nil => rw [List.nil_append, splitLines, if_pos rfl]
  | cons c l ih =>
      obtain ⟨hc, hl⟩ := not_or.mp (mt List.mem_cons.mpr hl)
      rw [List.cons_append, splitLines, if_neg (Ne.symm hc), ih hl]

/-- A line that describes a metric is cut at its first three spaces. -/
theorem splitMax_comment {word metric : Text} (hword : space ∉ word) (hmetric : space ∉ metric)
    (rest : Text) :
  Cut.splitMax space 3 (35 :: 32 :: (word ++ space :: (metric ++ space :: rest)))
    = [[35], word, metric, rest]
  := by
  have hmark : space ∉ [35] := by decide
  have hcut := Cut.splitMax_succ hmark 2 (word ++ space :: (metric ++ space :: rest))
  rw [Cut.splitMax_succ hword, Cut.splitMax_succ hmetric] at hcut
  exact hcut

variable (hesc : Escapes esc value?)
include hesc

theorem Line.newline_notMem_write {l : Line} (hl : l.WellFormed) :
  newline ∉ l.write esc
  := by
  cases hl with
  | help hmetric hdoc | type hmetric hdoc =>
      have hname := notMem_of_isName (c := newline) hmetric rfl
      simp [write, hname, hdoc, text]
  | sample hmetric hlabels =>
      have hname := notMem_of_isName (c := newline) hmetric rfl
      simp [write, hname, newline_notMem_writeLabels hesc hlabels, newline_notMem_writeInt]

theorem readSample?_write {labels : List (Text × Text)} (hlabels : ∀ l ∈ labels, isName l.1 = true)
    (n : ℤ) :
  readSample? value? (writeLabels esc labels ++ space :: writeInt n) = some (labels, n)
  := by
  cases labels with
  | nil =>
      rw [writeLabels, List.nil_append, readSample?, readInt?_writeInt]
      rfl
  | cons l ls =>
      obtain ⟨hl, hls⟩ := List.forall_mem_cons.mp hlabels
      rw [writeLabels, List.cons_append, List.append_assoc, readSample?,
        readLabels?_write hesc hl hls]
      · simp only [readInt?_writeInt, Option.map_some]
      · have hlength : ls.length ≤ (writeRest esc ls).length := by
          clear hls hlabels
          induction ls with
          | nil => exact Nat.zero_le _
          | cons l ls ih =>
              rw [writeRest, List.length_cons, List.length_cons, List.length_append]
              omega
        rw [List.length_append, List.length_append]
        omega

theorem readLine?_write {l : Line} (hl : l.WellFormed) :
  readLine? value? (l.write esc) = some l
  := by
  cases hl with
  | @help metric doc hmetric hdoc =>
      change readLine? value? (35 :: 32 :: (text "HELP" ++ space :: (metric ++ space :: doc))) = _
      rw [readLine?, splitMax_comment (by decide) (notMem_of_isName hmetric rfl)]
      rfl
  | @type metric kind hmetric hkind =>
      change readLine? value? (35 :: 32 :: (text "TYPE" ++ space :: (metric ++ space :: kind))) = _
      rw [readLine?, splitMax_comment (by decide) (notMem_of_isName hmetric rfl)]
      rfl
  | @sample metric labels n hmetric hlabels =>
      obtain ⟨c, rest, hrest, hc⟩ : ∃ c rest,
          writeLabels esc labels ++ space :: writeInt n = c :: rest ∧ isNameChar c = false := by
        cases labels with
        | nil => exact ⟨space, _, rfl, rfl⟩
        | cons l ls => exact ⟨openBrace, _, rfl, rfl⟩
      have hread := readSample?_write hesc hlabels n
      rw [hrest] at hread
      obtain ⟨htake, hdrop⟩ := @span_name metric rest hmetric c hc
      rw [Line.write, hrest, readLine?, htake, hdrop, hread]
      · rfl
      · -- a name does not begin with the mark of a comment
        intro t ht
        cases metric with
        | nil => cases ne_nil_of_isName hmetric rfl
        | cons d name =>
            obtain ⟨rfl, -⟩ := List.cons.inj ht
            cases isNameChar_of_mem hmetric List.mem_cons_self

/-- The lines that were written are read back. -/
theorem readText?_writeText {ls : List Line} (hls : ∀ l ∈ ls, l.WellFormed) :
  readText? value? (writeText esc ls) = some ls
  := by
  have hlines : splitLines (writeText esc ls) = (ls.map (Line.write esc), []) := by
    induction ls with
    | nil => rfl
    | cons l ls ih =>
        obtain ⟨hl, hls⟩ := List.forall_mem_cons.mp hls
        have hsplit := splitLines_append (l.newline_notMem_write hesc hl) (writeText esc ls)
        rw [ih hls] at hsplit
        rw [writeText, List.flatMap_cons, List.append_assoc, List.singleton_append]
        exact hsplit
  rw [readText?, hlines]
  dsimp only
  clear hlines
  induction ls with
  | nil => rfl
  | cons l ls ih =>
      obtain ⟨hl, hls⟩ := List.forall_mem_cons.mp hls
      rw [List.map_cons, List.mapM_cons, readLine?_write hesc hl, ih hls]
      rfl

end

end Exposition
