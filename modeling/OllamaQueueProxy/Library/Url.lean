import Mathlib.Data.List.Basic
import Mathlib.Tactic.SplitIfs

/-!
# Paths of URLs

Percent escapes and dot segments, as in RFC 3986.  A path is a list of octets.
-/

namespace Url

abbrev Octets := List UInt8

/-- The octets of a text of ASCII characters. -/
def ascii (text : String) : Octets := text.toList.map fun c => UInt8.ofNat c.toNat

/-! ### Percent escapes -/

/-- The character `%`. -/
def percent : UInt8 := 37

/-- The value of a hexadecimal digit. -/
def hexValue? (c : UInt8) : Option UInt8 :=
  if 48 ≤ c ∧ c ≤ 57 then some (c - 48)
  else if 65 ≤ c ∧ c ≤ 70 then some (c - 55)
  else if 97 ≤ c ∧ c ≤ 102 then some (c - 87)
  else none

/-- The octet for which an escape with the digits `a` and `b` stands. -/
def escaped? (a b : UInt8) : Option UInt8 :=
  (hexValue? a).bind fun x => (hexValue? b).map fun y => 16 * x + y

/-- The upper-case hexadecimal digit of a value. -/
def hexDigit (x : UInt8) : UInt8 := if x < 10 then x + 48 else x + 55

/-- The escape that stands for an octet. -/
def escape (c : UInt8) : Octets := [percent, hexDigit (c / 16), hexDigit (c % 16)]

/-- Every escape is replaced by the octet it stands for; a `%` that begins none is kept. -/
def decode : Octets → Octets
  | c :: a :: b :: rest =>
      if c = percent then match escaped? a b with
        | some d => d :: decode rest
        | none => c :: decode (a :: b :: rest)
      else c :: decode (a :: b :: rest)
  | c :: rest => c :: decode rest
  | [] => []

/-- Every octet that is not safe is escaped; the escapes that are there already are kept. -/
def quote (safe : UInt8 → Bool) : Octets → Octets
  | c :: a :: b :: rest =>
      if c = percent ∧ (escaped? a b).isSome then c :: a :: b :: quote safe rest
      else if c ≠ percent ∧ safe c then c :: quote safe (a :: b :: rest)
      else escape c ++ quote safe (a :: b :: rest)
  | c :: rest =>
      if c ≠ percent ∧ safe c then c :: quote safe rest
      else escape c ++ quote safe rest
  | [] => []

theorem escaped?_hexDigit (c : UInt8) :
  escaped? (hexDigit (c / 16)) (hexDigit (c % 16)) = some c
  := by
  have hall : ∀ n < 256, escaped? (hexDigit (UInt8.ofNat n / 16)) (hexDigit (UInt8.ofNat n % 16))
      = some (UInt8.ofNat n) := by
    decide +kernel
  rw [← UInt8.ofNat_toNat (x := c)]
  apply hall c.toNat c.toNat_lt

theorem decode_escape (c : UInt8) (rest : Octets) :
  decode (escape c ++ rest) = c :: decode rest
  := by
  rw [escape, List.cons_append, List.cons_append, List.singleton_append, decode, if_pos rfl,
    escaped?_hexDigit]

theorem decode_cons_of_ne {c : UInt8} (h : c ≠ percent) (rest : Octets) :
  decode (c :: rest) = c :: decode rest
  := by
  rcases rest with _ | ⟨a, _ | ⟨b, rest⟩⟩
  · rfl
  · rfl
  · rw [decode, if_neg h]

theorem escaped?_eq_none {a b : UInt8} (h : hexValue? a = none ∨ hexValue? b = none) :
  escaped? a b = none
  := by
  obtain h | h := h
  · rw [escaped?, h, Option.bind_none]
  · rw [escaped?, h]
    exact Option.bind_fun_none _

/-- An escape does not go beyond a character that is no digit of one. -/
theorem decode_append_cons {c : UInt8} (hc : hexValue? c = none) (x y : Octets) :
  decode (x ++ c :: y) = decode x ++ decode (c :: y)
  := by
  fun_induction decode x with
  | case1 a b rest d hescaped ih =>
      rw [List.cons_append, List.cons_append, List.cons_append, decode, if_pos rfl, hescaped]
      dsimp only
      rw [ih, List.cons_append]
  | case2 a b rest hescaped ih =>
      rw [List.cons_append, List.cons_append, List.cons_append, decode, if_pos rfl, hescaped]
      dsimp only
      rw [← List.cons_append, ← List.cons_append, ih, List.cons_append]
  | case3 e a b rest hne ih =>
      rw [List.cons_append, decode_cons_of_ne hne, ih, List.cons_append]
  | case4 e rest hshort ih =>
      -- no digits of an escape are left in the first path
      have hkept : decode (e :: (rest ++ c :: y)) = e :: decode (rest ++ c :: y) := by
        by_cases he : e = percent
        · rcases rest with _ | ⟨a, _ | ⟨b, rest⟩⟩
          · rcases y with _ | ⟨b, y⟩
            · rfl
            · rw [List.nil_append, decode, if_pos he, escaped?_eq_none (.inl hc)]
          · rw [List.singleton_append, decode, if_pos he, escaped?_eq_none (.inr hc)]
          · exact absurd rfl (hshort a b rest)
        · exact decode_cons_of_ne he _
      rw [List.cons_append, hkept, ih, List.cons_append]
  | case5 => rfl

/-- A path without `%` has nothing to decode. -/
theorem decode_eq_self {p : Octets} (h : percent ∉ p) :
  decode p = p
  := by
  induction p with
  | nil => rfl
  | cons c rest ih =>
      rw [List.mem_cons, not_or] at h
      rw [decode_cons_of_ne (Ne.symm h.1), ih h.2]

/-- Escaping further octets does not change what a path is decoded to. -/
theorem decode_quote (safe : UInt8 → Bool) (p : Octets) :
  decode (quote safe p) = decode p
  := by
  fun_induction quote safe p with
  | case1 c a b rest hescaped ih =>
      obtain ⟨d, hd⟩ := Option.isSome_iff_exists.mp hescaped.2
      simp [decode, hescaped.1, hd, ih]
  | case2 c a b rest hescaped hsafe ih =>
      rw [decode_cons_of_ne hsafe.1, decode_cons_of_ne hsafe.1, ih]
  | case3 c a b rest hescaped hsafe ih =>
      rw [decode_escape, ih, decode.eq_1]
      split_ifs with hpercent
      · have hnone : escaped? a b = none := by
          simpa [hpercent] using hescaped
        rw [hnone]
      · rfl
  | case4 c rest hlong hsafe ih =>
      rw [decode_cons_of_ne hsafe.1, decode_cons_of_ne hsafe.1, ih]
  | case5 c rest hlong hsafe ih =>
      rw [decode_escape, ih, decode.eq_2]
      intro a b rest' hrest
      apply hlong a b rest' hrest
  | case6 => rfl

/-! ### Dot segments -/

/-- The character `/`. -/
def slash : UInt8 := 47

/-- The segment `.`. -/
def dot : Octets := [46]

/-- The segment `..`. -/
def dotDot : Octets := [46, 46]

/-- The segments of a path; the first one is empty if the path is absolute. -/
def segments (p : Octets) : List Octets := p.splitOn slash

/-- A segment after the segments `out`, the last of them first.  A segment `..` takes away the
one before it, but not the empty one with which an absolute path begins. -/
def pushSegment (out : List Octets) (s : Octets) : List Octets :=
  if s = dot then out
  else if s = dotDot then (if out = [[]] then out else out.tail)
  else s :: out

/-- The segments of a path that remain without the dot segments, the last of them first. -/
def keptSegments (p : Octets) : List Octets := (segments p).foldl pushSegment []

/-- The path without its dot segments.  No slash is left of a dot segment at the end. -/
def normalizePath (p : Octets) : Octets := [slash].intercalate (keptSegments p).reverse

/-- The path in the request for a URL with the path, before its octets are escaped.  That of an
empty path is `/`. -/
def requestPath (p : Octets) : Octets :=
  if normalizePath p = [] then [slash] else normalizePath p

/-- The path has no dot segment. -/
def NoDotSegments (p : Octets) : Prop := ∀ s ∈ segments p, s ≠ dot ∧ s ≠ dotDot

instance (p : Octets) : Decidable (NoDotSegments p) :=
  inferInstanceAs (Decidable (∀ s ∈ segments p, s ≠ dot ∧ s ≠ dotDot))

theorem foldl_pushSegment {out rest : List Octets} (h : ∀ s ∈ rest, s ≠ dot ∧ s ≠ dotDot) :
  rest.foldl pushSegment out = rest.reverse ++ out
  := by
  induction rest generalizing out with
  | nil => rfl
  | cons s rest ih =>
      obtain ⟨hs, hrest⟩ := List.forall_mem_cons.mp h
      rw [List.foldl_cons, pushSegment, if_neg hs.1, if_neg hs.2, ih hrest, List.reverse_cons,
        List.append_assoc, List.singleton_append]

/-- Segments that are no dot segments stay as they are, whatever is before them. -/
theorem keptSegments_append {q : Octets} (h : NoDotSegments q) (base : Octets) :
  (keptSegments (base ++ slash :: q)).reverse = (keptSegments base).reverse ++ segments q
  := by
  have hsplit : segments (base ++ slash :: q) = segments base ++ segments q :=
    List.splitOn_append_cons_self base q
  rw [keptSegments, hsplit, List.foldl_append, foldl_pushSegment h, List.reverse_append,
    List.reverse_reverse, keptSegments]

theorem intercalate_append {xs ys : List Octets} (hx : xs ≠ []) (hy : ys ≠ []) :
  [slash].intercalate (xs ++ ys)
    = [slash].intercalate xs ++ slash :: [slash].intercalate ys
  := by
  induction xs with
  | nil => exact absurd rfl hx
  | cons x xs ih =>
      by_cases hxs : xs = []
      · subst hxs
        rw [List.singleton_append, List.intercalate_cons_of_ne_nil hy, List.intercalate_singleton,
          List.append_assoc, List.singleton_append]
      · have hne : xs ++ ys ≠ [] := List.append_ne_nil_of_left_ne_nil hxs ys
        rw [List.cons_append, List.intercalate_cons_of_ne_nil hne, ih hxs,
          List.intercalate_cons_of_ne_nil hxs, List.append_assoc, List.append_assoc,
          List.append_assoc]

/-- A path without dot segments remains at the end of a longer one. -/
theorem normalizePath_append {q : Octets} (h : NoDotSegments q) (base : Octets) :
  normalizePath (base ++ slash :: q)
    = if keptSegments base = [] then q else normalizePath base ++ slash :: q
  := by
  have hjoin : [slash].intercalate (segments q) = q := List.intercalate_splitOn slash
  rw [normalizePath, keptSegments_append h]
  split_ifs with hempty
  · rw [hempty, List.reverse_nil, List.nil_append, hjoin]
  · have hne : (keptSegments base).reverse ≠ [] := by simpa using hempty
    have hsegments : segments q ≠ [] := List.splitOn_ne_nil slash q
    rw [intercalate_append hne hsegments, hjoin, normalizePath]

theorem requestPath_append {q : Octets} (h : NoDotSegments q) (hne : q ≠ []) (base : Octets) :
  requestPath (base ++ slash :: q) = q
    ∨ requestPath (base ++ slash :: q) = normalizePath base ++ slash :: q
  := by
  rw [requestPath, normalizePath_append h]
  by_cases hempty : keptSegments base = []
  · rw [if_pos hempty, if_neg hne]
    exact .inl rfl
  · rw [if_neg hempty, if_neg (by simp)]
    exact .inr rfl

/-! ### Delimiters -/

/-- The character `?`. -/
def questionMark : UInt8 := 63

/-- The character `#`. -/
def numberSign : UInt8 := 35

/-- The line feed. -/
def lineFeed : UInt8 := 10

/-- A tab, a line feed or a carriage return. -/
def isRemoved (c : UInt8) : Bool := c == 9 || c == lineFeed || c == 13

/-- The text without what is removed from URLs. -/
def removeUnsafe (text : Octets) : Octets := text.filter fun c => !isRemoved c

theorem removeUnsafe_append (x y : Octets) :
  removeUnsafe (x ++ y) = removeUnsafe x ++ removeUnsafe y
  := List.filter_append x y

/-- What precedes the fragment, in a text that begins with the path of a URL. -/
def beforeFragment (text : Octets) : Octets := text.takeWhile (· != numberSign)

/-- The path at the beginning of a text. -/
def pathOf (text : Octets) : Octets := (beforeFragment text).takeWhile (· != questionMark)

theorem pathOf_append {x : Octets} (y : Octets)
    (h : ∀ c ∈ x, (c != numberSign) = true ∧ (c != questionMark) = true) :
  pathOf (x ++ y) = x ++ pathOf y
  := by
  rw [pathOf, beforeFragment, List.takeWhile_append_of_pos fun c hc => (h c hc).1,
    List.takeWhile_append_of_pos fun c hc => (h c hc).2]
  rfl

/-- A path begins with the first character of the text, or it is empty. -/
theorem pathOf_cons (c : UInt8) (y : Octets) :
  pathOf (c :: y) = [] ∨ pathOf (c :: y) = c :: pathOf y
  := by
  by_cases hsign : (c != numberSign) = true
  · by_cases hmark : (c != questionMark) = true
    · right
      apply pathOf_append y (x := [c])
      intro d hd
      rw [List.mem_singleton.mp hd]
      exact ⟨hsign, hmark⟩
    · left
      simp [pathOf, beforeFragment, hsign, hmark]
  · left
    simp [pathOf, beforeFragment, hsign]

/-- The query after the path at the beginning of a text. -/
def queryOf (text : Octets) : Octets :=
  ((beforeFragment text).dropWhile (· != questionMark)).tail

theorem queryOf_append {x : Octets} (y : Octets)
    (h : ∀ c ∈ x, (c != numberSign) = true ∧ (c != questionMark) = true) :
  queryOf (x ++ y) = queryOf y
  := by
  rw [queryOf, beforeFragment, List.takeWhile_append_of_pos fun c hc => (h c hc).1,
    List.dropWhile_append_of_pos fun c hc => (h c hc).2]
  rfl

end Url
