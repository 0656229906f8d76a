import OllamaQueueProxy.Library.JsonSize
import Mathlib.Data.List.Chain

/-!
# Reading JSON strings

A string is read in two stages: the pieces of its text first, each a character or a code unit
that was escaped, then the characters of the pieces, of which two surrogates that were escaped
make one.  A string that is written in ASCII characters is read back if it has no two surrogates
that would be taken for one character (`readPieces_quoted`, `joinPieces_pieces`), and no string
that was read has (`wellFormed_joinPieces`).
-/

namespace Json

/-! ### Pieces -/

/-- A surrogate that begins a pair. -/
def isHigh (c : ℕ) : Bool := 55296 ≤ c && c < 56320

/-- A surrogate that ends a pair. -/
def isLow (c : ℕ) : Bool := 56320 ≤ c && c < 57344

/-- The value of a hexadecimal digit. -/
def hexValue? (c : ℕ) : Option ℕ :=
  if 48 ≤ c ∧ c ≤ 57 then some (c - 48)
  else if 65 ≤ c ∧ c ≤ 70 then some (c - 55)
  else if 97 ≤ c ∧ c ≤ 102 then some (c - 87)
  else none

/-- The code unit with the hexadecimal digits. -/
def codeUnit? (digits : Text) : Option ℕ :=
  digits.foldlM (fun acc c => (hexValue? c).map fun x => 16 * acc + x) 0

/-- The character for which a letter after a backslash stands. -/
def unescape? : ℕ → Option ℕ
  | 34 => some 34
  | 47 => some 47
  | 92 => some 92
  | 98 => some 8
  | 102 => some 12
  | 110 => some 10
  | 114 => some 13
  | 116 => some 9
  | _ => none

/-- A character of a string, or a code unit that was escaped. -/
structure Piece where
  value : ℕ
  isUnit : Bool
  deriving DecidableEq

/-- The pieces of a string up to the quote that ends it, and the rest of the text. -/
def readPieces : Text → Option (List Piece × Text)
  | [] => none
  | c :: t =>
      if c = 34 then some ([], t)
      else if c = 92 then match t with
        | 117 :: a :: b :: c :: d :: t => (codeUnit? [a, b, c, d]).bind fun u =>
            (readPieces t).map fun (ps, t) => (⟨u, true⟩ :: ps, t)
        | e :: t => (unescape? e).bind fun c =>
            (readPieces t).map fun (ps, t) => (⟨c, false⟩ :: ps, t)
        | [] => none
      else if c < 32 then none
      else (readPieces t).map fun (ps, t) => (⟨c, false⟩ :: ps, t)

/-- The pieces are a pair of surrogates. -/
def arePair (p q : Piece) : Bool := p.isUnit && isHigh p.value && (q.isUnit && isLow q.value)

/-- The character of a pair of surrogates. -/
def pairValue (high low : ℕ) : ℕ := 65536 + (high - 55296) * 1024 + (low - 56320)

/-- The string of the pieces. -/
def joinPieces : List Piece → Text
  | [] => []
  | [p] => [p.value]
  | p :: q :: ps =>
      if arePair p q then pairValue p.value q.value :: joinPieces ps
      else p.value :: joinPieces (q :: ps)

/-- The string has no two surrogates that would be taken for one character. -/
structure WellFormed (s : Text) : Prop where
  lt : ∀ c ∈ s, c < 1114112
  chain : s.IsChain fun c d => ¬ (isHigh c = true ∧ isLow d = true)

/-- The pieces as which a character is written. -/
def pieces (c : ℕ) : List Piece :=
  if (shortEscape? c).isSome ∨ (32 ≤ c ∧ c < 127) then [⟨c, false⟩]
  else if c < 65536 then [⟨c, true⟩]
  else [⟨55296 + (c - 65536) / 1024, true⟩, ⟨56320 + (c - 65536) % 1024, true⟩]

/-! ### Strings that are written -/

theorem hexValue?_hexDigit {n : ℕ} (h : n < 16) :
  hexValue? (hexDigit n) = some n
  := by
  revert n
  decide

theorem codeUnit?_unicodeEscape {u : ℕ} (h : u < 65536) :
  codeUnit? [hexDigit (u / 4096 % 16), hexDigit (u / 256 % 16), hexDigit (u / 16 % 16),
    hexDigit (u % 16)] = some u
  := by
  have hdigit (n : ℕ) : hexValue? (hexDigit (n % 16)) = some (n % 16) :=
    hexValue?_hexDigit (Nat.mod_lt n (by decide))
  simp only [codeUnit?, List.foldlM_cons, List.foldlM_nil, hdigit, Option.map_some, bind,
    Option.bind_some, pure]
  congr 1
  omega

/-- A code unit that was escaped is read. -/
theorem readPieces_unicodeEscape {u : ℕ} (h : u < 65536) (t : Text) :
  readPieces (unicodeEscape u ++ t)
    = (readPieces t).map fun (ps, t) => (⟨u, true⟩ :: ps, t)
  := by
  simp only [unicodeEscape, List.cons_append, List.nil_append]
  rw [readPieces, if_neg (by decide), if_pos rfl]
  dsimp only
  rw [codeUnit?_unicodeEscape h, Option.bind_some]

theorem unescape?_shortEscape? {c e : ℕ} (h : shortEscape? c = some e) :
  unescape? e = some c ∧ e ≠ 117
  := by
  unfold shortEscape? at h
  split at h
  all_goals first | (obtain rfl := Option.some.inj h; decide) | cases h

/-- A character is read as its pieces. -/
theorem readPieces_escapeAscii {c : ℕ} (h : c < 1114112) (t : Text) :
  readPieces (escapeAscii c ++ t) = (readPieces t).map fun (ps, t) => (pieces c ++ ps, t)
  := by
  unfold escapeAscii
  split
  · rename_i e hshort
    obtain ⟨hescaped, hne⟩ := unescape?_shortEscape? hshort
    have hpieces : pieces c = [⟨c, false⟩] := by
      rw [pieces, if_pos (.inl (Option.isSome_of_eq_some hshort))]
    rw [hpieces]
    simp only [List.cons_append, List.nil_append]
    rw [readPieces, if_neg (by decide), if_pos rfl, hescaped, Option.bind_some]
    intro a b c d t heq
    exact absurd heq hne
  · rename_i hshort
    split_ifs with hplain hbasic
    · have hpieces : pieces c = [⟨c, false⟩] := by rw [pieces, if_pos (.inr hplain)]
      have hquote : c ≠ 34 := by
        rintro rfl
        cases hshort
      have hbackslash : c ≠ 92 := by
        rintro rfl
        cases hshort
      rw [hpieces, List.singleton_append, readPieces.eq_def]
      dsimp only
      rw [if_neg hquote, if_neg hbackslash, if_neg (by omega)]
      rfl
    · have hpieces : pieces c = [⟨c, true⟩] := by
        rw [pieces, if_neg (by simp [hshort, hplain]), if_pos hbasic]
      rw [hpieces, readPieces_unicodeEscape hbasic]
      rfl
    · have hpieces : pieces c
          = [⟨55296 + (c - 65536) / 1024, true⟩, ⟨56320 + (c - 65536) % 1024, true⟩] := by
        rw [pieces, if_neg (by simp [hshort, hplain]), if_neg hbasic]
      rw [hpieces, List.append_assoc, readPieces_unicodeEscape (by omega),
        readPieces_unicodeEscape (by omega), Option.map_map]
      rfl

/-- A string that is written is read up to its quote. -/
theorem readPieces_quoted {s : Text} (h : ∀ c ∈ s, c < 1114112) (t : Text) :
  readPieces (s.flatMap escapeAscii ++ 34 :: t) = some (s.flatMap pieces, t)
  := by
  induction s with
  | nil =>
      rw [List.flatMap_nil, List.nil_append, readPieces.eq_def]
      rfl
  | cons c s ih =>
      obtain ⟨hc, hs⟩ := List.forall_mem_cons.mp h
      rw [List.flatMap_cons, List.append_assoc, readPieces_escapeAscii hc, ih hs, Option.map_some,
        List.flatMap_cons]

theorem isHigh_iff {c : ℕ} :
  isHigh c = true ↔ 55296 ≤ c ∧ c < 56320
  := by
  simp [isHigh]

theorem isLow_iff {c : ℕ} :
  isLow c = true ↔ 56320 ≤ c ∧ c < 57344
  := by
  simp [isLow]

theorem pieces_cases (c : ℕ) :
  (∃ isUnit, pieces c = [⟨c, isUnit⟩])
    ∨ (65536 ≤ c ∧ pieces c
      = [⟨55296 + (c - 65536) / 1024, true⟩, ⟨56320 + (c - 65536) % 1024, true⟩])
  := by
  unfold pieces
  split_ifs with _ hbasic
  · exact .inl ⟨false, rfl⟩
  · exact .inl ⟨true, rfl⟩
  · exact .inr ⟨not_lt.mp hbasic, rfl⟩

theorem joinPieces_cons {p : Piece} {ps : List Piece}
    (h : ∀ q ∈ ps.head?, arePair p q = false) :
  joinPieces (p :: ps) = p.value :: joinPieces ps
  := by
  cases ps with
  | nil => rfl
  | cons q ps => rw [joinPieces, h q rfl, if_neg Bool.false_ne_true]

theorem arePair_iff {p q : Piece} :
  arePair p q = true ↔ (p.isUnit = true ∧ isHigh p.value = true)
    ∧ (q.isUnit = true ∧ isLow q.value = true)
  := by
  simp only [arePair, Bool.and_eq_true]

/-- The pieces of a character begin with the end of a pair only if the character is one. -/
theorem isLow_of_head_pieces {c : ℕ} (hc : c < 1114112) {ps : List Piece} {p : Piece}
    (hp : p ∈ (pieces c ++ ps).head?) (hlow : isLow p.value = true) :
  isLow c = true
  := by
  obtain ⟨isUnit, hpieces⟩ | ⟨hlarge, hpieces⟩ := pieces_cases c
  · rw [hpieces] at hp
    obtain rfl := Option.some.inj hp
    exact hlow
  · rw [hpieces] at hp
    obtain rfl := Option.some.inj hp
    have hbounds := isLow_iff.mp hlow
    dsimp only at hbounds
    omega

/-- The pieces of a string are joined to the string again. -/
theorem joinPieces_pieces {s : Text} (h : WellFormed s) :
  joinPieces (s.flatMap pieces) = s
  := by
  induction s with
  | nil => rfl
  | cons c s ih =>
      obtain ⟨hc, hs⟩ := List.forall_mem_cons.mp h.lt
      obtain ⟨hnext, hchain⟩ := List.isChain_cons.mp h.chain
      have hrest := ih ⟨hs, hchain⟩
      rw [List.flatMap_cons]
      obtain ⟨isUnit, hpieces⟩ | ⟨hlarge, hpieces⟩ := pieces_cases c
      · rw [hpieces, List.singleton_append, joinPieces_cons, hrest]
        intro q hq
        rw [← Bool.not_eq_true, arePair_iff]
        rintro ⟨⟨-, hhigh⟩, -, hlow⟩
        cases s with
        | nil => cases hq
        | cons d s =>
            rw [List.flatMap_cons] at hq
            exact hnext d rfl ⟨hhigh, isLow_of_head_pieces (hs d List.mem_cons_self) hq hlow⟩
      · have hpair : arePair ⟨55296 + (c - 65536) / 1024, true⟩
            ⟨56320 + (c - 65536) % 1024, true⟩ = true := by
          rw [arePair_iff, isHigh_iff, isLow_iff]
          dsimp only
          refine ⟨⟨rfl, ?_⟩, rfl, ?_⟩ <;> omega
        have hvalue : pairValue (55296 + (c - 65536) / 1024) (56320 + (c - 65536) % 1024) = c := by
          unfold pairValue
          omega
        rw [hpieces, List.cons_append, List.singleton_append, joinPieces, if_pos hpair, hvalue,
          hrest]

/-! ### Strings that are read -/

/-- The piece may come from a text without surrogates. -/
def Piece.IsProper (p : Piece) : Prop :=
  p.value < 1114112 ∧ (p.isUnit = false → isHigh p.value = false ∧ isLow p.value = false)
    ∧ (p.isUnit = true → p.value < 65536)

/-- What is joined is no surrogate that ends a pair, unless the first piece is one. -/
theorem isLow_of_head_joinPieces {p : Piece} {ps : List Piece} {c : ℕ}
    (hc : c ∈ (joinPieces (p :: ps)).head?) (hlow : isLow c = true) :
  c = p.value
  := by
  cases ps with
  | nil => exact (Option.some.inj hc).symm
  | cons q ps =>
      rw [joinPieces] at hc
      split at hc
      · have hvalue : pairValue p.value q.value = c := Option.some.inj hc
        have hbounds := isLow_iff.mp hlow
        unfold pairValue at hvalue
        omega
      · exact (Option.some.inj hc).symm

theorem wellFormed_cons {c : ℕ} {s : Text} (hc : c < 1114112) (hs : WellFormed s)
    (h : isHigh c = true → ∀ d ∈ s.head?, isLow d = false) :
  WellFormed (c :: s)
  where
  lt := List.forall_mem_cons.mpr ⟨hc, hs.lt⟩
  chain := by
    refine List.isChain_cons.mpr ⟨?_, hs.chain⟩
    rintro d hd ⟨hhigh, hlow⟩
    rw [h hhigh d hd] at hlow
    cases hlow

/-- The string of pieces of a text without surrogates is well formed. -/
theorem wellFormed_joinPieces {ps : List Piece} (h : ∀ p ∈ ps, p.IsProper) :
  WellFormed (joinPieces ps)
  := by
  fun_induction joinPieces ps with
  | case1 => exact ⟨List.forall_mem_nil _, .nil⟩
  | case2 p =>
      apply wellFormed_cons (h p List.mem_cons_self).1 ⟨List.forall_mem_nil _, .nil⟩
      intro _ d hd
      cases hd
  | case3 p q ps hpair ih =>
      obtain ⟨⟨-, hhigh⟩, hunit, hlow⟩ := arePair_iff.mp hpair
      rw [isHigh_iff] at hhigh
      rw [isLow_iff] at hlow
      have hrest := ih fun r hr => h r (List.mem_cons_of_mem p (List.mem_cons_of_mem q hr))
      have hlarge : 65536 ≤ pairValue p.value q.value := by
        unfold pairValue
        omega
      have hlt : pairValue p.value q.value < 1114112 := by
        unfold pairValue
        omega
      apply wellFormed_cons hlt hrest
      intro hpaired
      have hbounds := isHigh_iff.mp hpaired
      omega
  | case4 p q ps hpair ih =>
      have hproper := h p List.mem_cons_self
      have hrest := ih fun r hr => h r (List.mem_cons_of_mem p hr)
      apply wellFormed_cons hproper.1 hrest
      intro hhigh d hd
      by_contra hlow
      rw [Bool.not_eq_false] at hlow
      obtain rfl := isLow_of_head_joinPieces hd hlow
      -- a surrogate is a code unit that was escaped
      have hunit {r : Piece} (hr : r.IsProper) (hsurrogate : isHigh r.value = true
          ∨ isLow r.value = true) : r.isUnit = true := by
        by_contra hraw
        obtain ⟨hno, hnone⟩ := hr.2.1 (by simpa using hraw)
        obtain hyes | hyes := hsurrogate
        · rw [hno] at hyes
          cases hyes
        · rw [hnone] at hyes
          cases hyes
      apply hpair
      rw [arePair_iff]
      exact ⟨⟨hunit hproper (.inl hhigh), hhigh⟩,
        hunit (h q (List.mem_cons_of_mem p List.mem_cons_self)) (.inr hlow), hlow⟩

/-- A text without surrogates. -/
def Scalar (t : Text) : Prop := ∀ c ∈ t, c.isValidChar

theorem Scalar.of_append {s t : Text} (h : Scalar (s ++ t)) :
  Scalar t
  := fun c hc => h c (List.mem_append_right s hc)

theorem hexValue?_lt {c x : ℕ} (h : hexValue? c = some x) :
  x < 16
  := by
  unfold hexValue? at h
  split_ifs at h
  all_goals
    obtain rfl := Option.some.inj h
    omega

theorem codeUnit?_lt {a b c d u : ℕ} (h : codeUnit? [a, b, c, d] = some u) :
  u < 65536
  := by
  simp only [codeUnit?, List.foldlM_cons, List.foldlM_nil, bind, pure, Option.bind_eq_some_iff,
    Option.map_eq_some_iff, Option.some.injEq] at h
  obtain ⟨_, ⟨w, hw, rfl⟩, _, ⟨x, hx, rfl⟩, _, ⟨y, hy, rfl⟩, _, ⟨z, hz, rfl⟩, rfl⟩ := h
  have := hexValue?_lt hw
  have := hexValue?_lt hx
  have := hexValue?_lt hy
  have := hexValue?_lt hz
  omega

theorem isProper_unit {u : ℕ} (h : u < 65536) :
  Piece.IsProper ⟨u, true⟩
  := ⟨by dsimp only; omega, Bool.noConfusion, fun _ => h⟩

theorem isProper_char {c : ℕ} (h : c.isValidChar) :
  Piece.IsProper ⟨c, false⟩
  := by
  refine ⟨?_, fun _ => ⟨?_, ?_⟩, Bool.noConfusion⟩
  · obtain hlow | ⟨-, hlt⟩ := h
    · dsimp only
      omega
    · exact hlt
  · rw [← Bool.not_eq_true, isHigh_iff]
    dsimp only
    obtain hlow | ⟨hhigh, -⟩ := h <;> omega
  · rw [← Bool.not_eq_true, isLow_iff]
    dsimp only
    obtain hlow | ⟨hhigh, -⟩ := h <;> omega

theorem isValidChar_unescape? {e c : ℕ} (h : unescape? e = some c) :
  c.isValidChar
  := by
  unfold unescape? at h
  split at h
  all_goals first | (obtain rfl := Option.some.inj h; decide) | cases h

/-- What is read of a text without surrogates, and what is left of it. -/
theorem isProper_readPieces {t rest : Text} {ps : List Piece} (ht : Scalar t)
    (h : readPieces t = some (ps, rest)) :
  (∀ p ∈ ps, p.IsProper) ∧ Scalar rest
  := by
  fun_induction readPieces t generalizing ps with
  | case1 => cases h
  | case2 t =>
      obtain ⟨rfl, rfl⟩ := Prod.mk.inj (Option.some.inj h)
      exact ⟨List.forall_mem_nil _, fun c hc => ht c (List.mem_cons_of_mem _ hc)⟩
  | case3 a b c d t hquote ih =>
      obtain ⟨u, hu, hread⟩ := Option.bind_eq_some_iff.mp h
      obtain ⟨⟨qs, t'⟩, hrest, hsame⟩ := Option.map_eq_some_iff.mp hread
      obtain ⟨rfl, rfl⟩ := Prod.mk.inj hsame
      have hleft : Scalar t := Scalar.of_append (s := [92, 117, a, b, c, d]) ht
      obtain ⟨hproper, hscalar⟩ := ih hleft hrest
      exact ⟨List.forall_mem_cons.mpr ⟨isProper_unit (codeUnit?_lt hu), hproper⟩, hscalar⟩
  | case4 e t hunit hquote ih =>
      obtain ⟨c, hc, hread⟩ := Option.bind_eq_some_iff.mp h
      obtain ⟨⟨qs, t'⟩, hrest, hsame⟩ := Option.map_eq_some_iff.mp hread
      obtain ⟨rfl, rfl⟩ := Prod.mk.inj hsame
      have hleft : Scalar t := Scalar.of_append (s := [92, e]) ht
      obtain ⟨hproper, hscalar⟩ := ih hleft hrest
      exact ⟨List.forall_mem_cons.mpr ⟨isProper_char (isValidChar_unescape? hc), hproper⟩, hscalar⟩
  | case5 => cases h
  | case6 => cases h
  | case7 c t hquote hbackslash hcontrol ih =>
      obtain ⟨⟨qs, t'⟩, hrest, hsame⟩ := Option.map_eq_some_iff.mp h
      obtain ⟨rfl, rfl⟩ := Prod.mk.inj hsame
      obtain ⟨hc, hleft⟩ := List.forall_mem_cons.mp ht
      obtain ⟨hproper, hscalar⟩ := ih hleft hrest
      exact ⟨List.forall_mem_cons.mpr ⟨isProper_char hc, hproper⟩, hscalar⟩

/-- A text without surrogates is a string that is read back. -/
theorem Scalar.wellFormed {t : Text} (h : Scalar t) :
  WellFormed t
  := by
  induction t with
  | nil => exact ⟨List.forall_mem_nil _, .nil⟩
  | cons c t ih =>
      obtain ⟨hc, ht⟩ := List.forall_mem_cons.mp h
      obtain ⟨hlt, hproper, -⟩ := isProper_char hc
      apply wellFormed_cons hlt (ih ht)
      intro hhigh
      rw [(hproper rfl).1] at hhigh
      cases hhigh

theorem wellFormed_text (s : String) :
  WellFormed (text s)
  := by
  apply Scalar.wellFormed
  intro c hc
  obtain ⟨d, -, rfl⟩ := List.mem_map.mp hc
  exact d.valid

end Json
