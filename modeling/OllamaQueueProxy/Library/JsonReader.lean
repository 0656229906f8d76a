import OllamaQueueProxy.Library.JsonString

/-!
# Reading JSON

A reader of JSON values from octets in UTF-8, with a limit on how deep arrays and objects are
nested.  A number is taken by its characters.

A value that was read can be read back (`readable_read`), when it is written in ASCII characters
(`read_write`).
-/

namespace Json

/-- Why octets are not read. -/
inductive ReadError where
  | invalid
  | tooDeep
  deriving DecidableEq

/-! ### Values -/

/-- A reader of a part of a text, which returns the rest of it. -/
abbrev Parse (α : Type) : Type := Text → Except ReadError (α × Text)

def isSpace (c : ℕ) : Bool := c == 32 || c == 9 || c == 10 || c == 13

def skipSpaces (t : Text) : Text := t.dropWhile isSpace

/-- The elements up to the closing bracket, each of them after a comma.  The passes are as many as
the text is long at most. -/
def readMore {α : Type} (item : Parse α) (close : ℕ) : ℕ → Parse (List α)
  | 0, _ => .error .invalid
  | passes + 1, t => match skipSpaces t with
      | [] => .error .invalid
      | c :: t =>
          if c = close then .ok ([], t)
          else if c = 44 then do
            let (x, t) ← item t
            let (xs, t) ← readMore item close passes t
            return (x :: xs, t)
          else .error .invalid

/-- The elements after the opening bracket. -/
def readMany {α : Type} (item : Parse α) (close : ℕ) : Parse (List α) := fun t =>
  match skipSpaces t with
  | [] => .error .invalid
  | c :: rest =>
      if c = close then .ok ([], rest)
      else do
        let (x, t) ← item (c :: rest)
        let (xs, t) ← readMore item close (t.length + 1) t
        return (x :: xs, t)

def readString : Parse Text := fun t =>
  match skipSpaces t with
  | [] => .error .invalid
  | c :: t =>
      if c = 34 then match readPieces t with
        | some (ps, t) => .ok (joinPieces ps, t)
        | none => .error .invalid
      else .error .invalid

/-- A key with its value, which follows after a colon. -/
def readField (value : Parse Json) : Parse (Text × Json) := fun t => do
  let (key, t) ← readString t
  match skipSpaces t with
  | [] => .error .invalid
  | c :: t =>
      if c = 58 then do
        let (j, t) ← value t
        return ((key, j), t)
      else .error .invalid

def readLiteral : Parse Json := fun t =>
  if (text "null").isPrefixOf t then .ok (.null, t.drop 4)
  else if (text "true").isPrefixOf t then .ok (.bool true, t.drop 4)
  else if (text "false").isPrefixOf t then .ok (.bool false, t.drop 5)
  else .error .invalid

/-- A value, for readers of what is after the opening brackets of arrays and objects. -/
def readWith (arrays objects : Parse Json) : Parse Json := fun t =>
  match skipSpaces t with
  | [] => .error .invalid
  | c :: t =>
      if h : isNumberStart c = true then
        .ok (.number ⟨c, t.takeWhile isNumberChar, h, List.all_eq_true.mp List.all_takeWhile⟩,
          t.dropWhile isNumberChar)
      else if c = 34 then do
        let (s, t) ← readString (c :: t)
        return (.string s, t)
      else if c = 91 then arrays t
      else if c = 123 then objects t
      else readLiteral (c :: t)

/-- A value in which arrays and objects are nested no deeper than the given depth. -/
def readValue : ℕ → Parse Json
  | 0 => readWith (fun _ => .error .tooDeep) fun _ => .error .tooDeep
  | depth + 1 => readWith
      (fun t => do
        let (js, t) ← readMany (readValue depth) 93 t
        return (.array js, t))
      fun t => do
        let (fields, t) ← readMany (readField (readValue depth)) 125 t
        return (.object (Dict.ofList fields), t)

mutual

/-- How deep arrays and objects are nested in the value. -/
def nesting : Json → ℕ
  | .array js => nestingElements js + 1
  | .object fields => nestingFields fields + 1
  | _ => 0

def nestingElements : List Json → ℕ
  | [] => 0
  | j :: js => max j.nesting (nestingElements js)

def nestingFields : List (Text × Json) → ℕ
  | [] => 0
  | (_, j) :: fields => max j.nesting (nestingFields fields)

end

theorem nesting_object_le_iff {fields : List (Text × Json)} {depth : ℕ} (h : 0 < depth) :
  (object fields).nesting ≤ depth ↔ ∀ e ∈ fields, e.2.nesting < depth
  := by
  rw [nesting, Nat.add_one_le_iff]
  induction fields with
  | nil => exact iff_of_true h (List.forall_mem_nil _)
  | cons field fields ih =>
      rw [nestingFields, max_lt_iff, ih, List.forall_mem_cons]

/-- The value can be read with arrays and objects nested as deep as the given depth. -/
inductive Readable : ℕ → Json → Prop where
  | null (depth : ℕ) : Readable depth .null
  | bool (depth : ℕ) (b : Bool) : Readable depth (.bool b)
  | number (depth : ℕ) (n : Number) : Readable depth (.number n)
  | string (depth : ℕ) {s : Text} (h : WellFormed s) : Readable depth (.string s)
  | array {depth : ℕ} {js : List Json} (h : ∀ j ∈ js, Readable depth j) :
      Readable (depth + 1) (.array js)
  | object {depth : ℕ} {fields : List (Text × Json)} (hkeys : (fields.map Prod.fst).Nodup)
      (hnames : ∀ e ∈ fields, WellFormed e.1) (h : ∀ e ∈ fields, Readable depth e.2) :
      Readable (depth + 1) (.object fields)

theorem ok_bind {α β : Type} (a : α) (f : α → Except ReadError β) :
  (Except.ok a >>= f) = f a
  := rfl

theorem bind_eq_ok {α β : Type} {x : Except ReadError α} {f : α → Except ReadError β} {b : β}
    (h : (x >>= f) = .ok b) :
  ∃ a, x = .ok a ∧ f a = .ok b
  := by
  cases x with
  | error e => cases h
  | ok a => exact ⟨a, rfl, h⟩

/-- An object can be read after a field is set that can be. -/
theorem Readable.set {depth : ℕ} {fields : List (Text × Json)} {key : Text} {j : Json}
    (h : Readable depth (.object fields)) (hkey : WellFormed key)
    (hj : ∀ depth, Readable depth j) :
  Readable depth (.object (Dict.set fields key j))
  := by
  obtain ⟨⟩ := h
  rename_i depth hkeys hnames hvalues
  refine .object (Dict.nodup_keys_set hkeys key j) ?_ ?_
  · intro e he
    obtain hold | rfl := Dict.mem_set he
    · exact hnames e hold
    · exact hkey
  · intro e he
    obtain hold | rfl := Dict.mem_set he
    · exact hvalues e hold
    · exact hj depth

theorem skipSpaces_cons {c : ℕ} (h : isSpace c = false) (t : Text) :
  skipSpaces (c :: t) = c :: t
  := List.dropWhile_cons_of_neg (by simpa using h)

theorem readString_quoted {s : Text} (h : WellFormed s) (t : Text) :
  readString (quoted escapeAscii s ++ t) = .ok (s, t)
  := by
  have hread : readPieces (s.flatMap escapeAscii ++ ([34] ++ t)) = some (s.flatMap pieces, t) :=
    readPieces_quoted h.lt t
  rw [quoted, List.cons_append, List.append_assoc, readString, skipSpaces_cons rfl]
  dsimp only
  rw [if_pos rfl, hread]
  dsimp only
  rw [joinPieces_pieces h]

/-- No value begins with a space. -/
theorem isSpace_eq_false {c : ℕ} {k : Kind} (h : kindOfHead? c = some k) :
  isSpace c = false
  := by
  by_contra hspace
  simp only [isSpace, Bool.not_eq_false, Bool.or_eq_true, beq_iff_eq] at hspace
  obtain ((rfl | rfl) | rfl) | rfl := hspace <;> cases h

theorem skipSpaces_write (j : Json) (t : Text) :
  skipSpaces (write escapeAscii j ++ t) = write escapeAscii j ++ t
  := by
  obtain ⟨c, u, hwrite, hkind⟩ := exists_head escapeAscii j
  rw [hwrite]
  exact skipSpaces_cons (isSpace_eq_false hkind) _

/-! ### Reading back what was written -/

section

variable {α : Type} {item : Parse α} {close : ℕ} {w : α → Text} {xs : List α}

/-- The elements after one, as `w` writes them, and the closing bracket. -/
def writeMore (w : α → Text) (close : ℕ) (xs : List α) : Text :=
  xs.flatMap (fun x => 44 :: w x) ++ [close]

/-- The elements after the opening bracket. -/
def writeMany (w : α → Text) (close : ℕ) : List α → Text
  | [] => [close]
  | x :: xs => w x ++ writeMore w close xs

theorem writeMore_cons (w : α → Text) (close : ℕ) (x : α) (xs : List α) (t : Text) :
  writeMore w close (x :: xs) ++ t = 44 :: (w x ++ (writeMore w close xs ++ t))
  := by
  simp [writeMore]

theorem length_lt_writeMore (w : α → Text) (close : ℕ) (xs : List α) (t : Text) :
  xs.length < (writeMore w close xs ++ t).length + 1
  := by
  induction xs with
  | nil => simp
  | cons x xs ih =>
      rw [writeMore_cons]
      simp only [List.length_cons, List.length_append] at ih ⊢
      omega

theorem ends_writeMore (hends : isNumberChar close = false) (xs : List α) (t : Text) :
  Ends (writeMore w close xs ++ t)
  := by
  cases xs with
  | nil =>
      rintro c ⟨⟩
      exact hends
  | cons x xs =>
      rintro c ⟨⟩
      rfl

/-- Elements that are read back one by one are read back together. -/
theorem readMore_write (hspace : isSpace close = false) (hcomma : close ≠ 44)
    (hends : isNumberChar close = false)
    (hitem : ∀ x ∈ xs, ∀ t, Ends t → item (w x ++ t) = .ok (x, t)) {passes : ℕ}
    (hpasses : xs.length < passes) (t : Text) :
  readMore item close passes (writeMore w close xs ++ t) = .ok (xs, t)
  := by
  induction xs generalizing passes with
  | nil =>
      obtain ⟨passes, rfl⟩ := Nat.exists_eq_succ_of_ne_zero (Nat.ne_zero_of_lt hpasses)
      rw [writeMore, List.flatMap_nil, List.nil_append, List.singleton_append, readMore,
        skipSpaces_cons hspace]
      exact if_pos rfl
  | cons x xs ih =>
      obtain ⟨passes, rfl⟩ := Nat.exists_eq_succ_of_ne_zero (Nat.ne_zero_of_lt hpasses)
      obtain ⟨hx, hxs⟩ := List.forall_mem_cons.mp hitem
      have hrest := ih hxs (Nat.lt_of_succ_lt_succ hpasses)
      rw [writeMore_cons, readMore, skipSpaces_cons rfl]
      dsimp only
      rw [if_neg hcomma.symm, if_pos rfl, hx _ (ends_writeMore hends xs t), ok_bind, hrest]
      rfl

theorem readMany_write (hspace : isSpace close = false) (hcomma : close ≠ 44)
    (hends : isNumberChar close = false)
    (hitem : ∀ x ∈ xs, ∀ t, Ends t → item (w x ++ t) = .ok (x, t))
    (hhead : ∀ x ∈ xs, ∃ c u, w x = c :: u ∧ isSpace c = false ∧ c ≠ close) (t : Text) :
  readMany item close (writeMany w close xs ++ t) = .ok (xs, t)
  := by
  cases xs with
  | nil =>
      rw [writeMany, List.singleton_append, readMany, skipSpaces_cons hspace]
      exact if_pos rfl
  | cons x xs =>
      obtain ⟨hx, hxs⟩ := List.forall_mem_cons.mp hitem
      obtain ⟨c, u, hw, hc, hne⟩ := hhead x List.mem_cons_self
      have hread := hx (writeMore w close xs ++ t) (ends_writeMore hends xs t)
      rw [writeMany, List.append_assoc, hw, List.cons_append]
      rw [hw, List.cons_append] at hread
      rw [readMany, skipSpaces_cons hc]
      dsimp only
      rw [if_neg hne, hread, ok_bind,
        readMore_write hspace hcomma hends hxs (length_lt_writeMore w close xs t)]
      rfl

end

theorem writeElements_eq (js : List Json) :
  writeElements escapeAscii js = writeMore (write escapeAscii) 93 js
  := by
  induction js with
  | nil => rfl
  | cons j js ih =>
      have hcons := writeMore_cons (write escapeAscii) 93 j js []
      rw [List.append_nil, List.append_nil] at hcons
      rw [writeElements, ih, hcons]

theorem write_array (js : List Json) :
  write escapeAscii (.array js) = 91 :: writeMany (write escapeAscii) 93 js
  := by
  cases js with
  | nil => rfl
  | cons j js => rw [write, writeMany, writeElements_eq]

/-- The text of a field. -/
def writeField (field : Text × Json) : Text :=
  quoted escapeAscii field.1 ++ 58 :: write escapeAscii field.2

theorem writeFields_eq (fields : List (Text × Json)) :
  writeFields escapeAscii fields = writeMore writeField 125 fields
  := by
  induction fields with
  | nil => rfl
  | cons field fields ih =>
      have hcons := writeMore_cons writeField 125 field fields []
      rw [List.append_nil, List.append_nil] at hcons
      rw [writeFields, ih, hcons, writeField, List.append_assoc, List.cons_append]

theorem write_object (fields : List (Text × Json)) :
  write escapeAscii (.object fields) = 123 :: writeMany writeField 125 fields
  := by
  cases fields with
  | nil => rfl
  | cons field fields =>
      rw [write, writeMany, writeFields_eq, writeField, List.append_assoc, List.cons_append]

/-- Readers of values agree on those that are neither arrays nor objects. -/
theorem exists_readWith (depth : ℕ) :
  ∃ arrays objects, readValue depth = readWith arrays objects
  := by
  cases depth with
  | zero => exact ⟨_, _, rfl⟩
  | succ depth => exact ⟨_, _, rfl⟩

theorem readField_write {value : Parse Json} {field : Text × Json} (hname : WellFormed field.1)
    {t : Text} (hvalue : value (write escapeAscii field.2 ++ t) = .ok (field.2, t)) :
  readField value (writeField field ++ t) = .ok (field, t)
  := by
  rw [writeField, List.append_assoc, List.cons_append, readField, readString_quoted hname, ok_bind]
  dsimp only
  rw [skipSpaces_cons rfl]
  dsimp only
  rw [if_pos rfl, hvalue]
  rfl

/-- A value that can be read is read when it is written in ASCII characters. -/
theorem readValue_write {depth : ℕ} {j : Json} (h : Readable depth j) {t : Text} (ht : Ends t) :
  readValue depth (write escapeAscii j ++ t) = .ok (j, t)
  := by
  induction h generalizing t with
  | null depth =>
      obtain ⟨arrays, objects, heq⟩ := exists_readWith depth
      rw [heq]
      rfl
  | bool depth b =>
      obtain ⟨arrays, objects, heq⟩ := exists_readWith depth
      rw [heq]
      cases b <;> rfl
  | number depth n =>
      obtain ⟨arrays, objects, heq⟩ := exists_readWith depth
      have hspace : isSpace n.first = false :=
        isSpace_eq_false (k := .number) (if_pos n.first_isStart)
      rw [heq, readWith, write, Number.text, List.cons_append, skipSpaces_cons hspace]
      dsimp only
      rw [dif_pos n.first_isStart]
      have htake := takeWhile_number n ht
      have hdrop : (n.rest ++ t).dropWhile isNumberChar = t := by
        have hsplit : (n.rest ++ t).takeWhile isNumberChar ++ (n.rest ++ t).dropWhile isNumberChar
            = n.rest ++ t := List.takeWhile_append_dropWhile
        rw [htake] at hsplit
        exact List.append_cancel_left hsplit
      simp only [htake, hdrop]
  | string depth h =>
      obtain ⟨arrays, objects, heq⟩ := exists_readWith depth
      have hread := readString_quoted h t
      rw [heq, readWith, skipSpaces_write]
      rw [quoted, List.cons_append] at hread
      rw [write, quoted, List.cons_append]
      dsimp only
      rw [dif_neg (by decide), if_pos rfl, hread]
      rfl
  | @array depth js h ih =>
      have hread : readMany (readValue depth) 93 (writeMany (write escapeAscii) 93 js ++ t)
          = .ok (js, t) := by
        refine readMany_write rfl (by decide) rfl (fun j hj t ht => ih j hj ht) ?_ t
        intro j _
        obtain ⟨c, u, hwrite, hkind⟩ := exists_head escapeAscii j
        refine ⟨c, u, hwrite, isSpace_eq_false hkind, ?_⟩
        rintro rfl
        cases hkind
      rw [write_array, List.cons_append, readValue, readWith, skipSpaces_cons rfl]
      dsimp only
      rw [dif_neg (by decide), if_neg (by decide), if_pos rfl, hread]
      rfl
  | @object depth fields hkeys hnames h ih =>
      have hread : readMany (readField (readValue depth)) 125 (writeMany writeField 125 fields ++ t)
          = .ok (fields, t) := by
        refine readMany_write rfl (by decide) rfl ?_ (fun _ _ => ⟨34, _, rfl, rfl, by decide⟩) t
        intro e he t ht
        exact readField_write (hnames e he) (ih e he ht)
      rw [write_object, List.cons_append, readValue, readWith, skipSpaces_cons rfl]
      dsimp only
      rw [dif_neg (by decide), if_neg (by decide), if_neg (by decide), if_pos rfl, hread]
      change Except.ok _ = _
      rw [Dict.ofList_eq_self hkeys]

/-! ### What is read -/

theorem Scalar.skipSpaces {t : Text} (h : Scalar t) :
  Scalar (skipSpaces t)
  := fun c hc => h c ((List.dropWhile_suffix _).subset hc)

theorem Scalar.tail {c : ℕ} {t : Text} (h : Scalar (c :: t)) :
  Scalar t
  := (List.forall_mem_cons.mp h).2

/-- What is read of a text without surrogates has the property, and leaves such a text. -/
def Reads {α : Type} (item : Parse α) (P : α → Prop) : Prop :=
  ∀ {t rest : Text} {x : α}, Scalar t → item t = .ok (x, rest) → P x ∧ Scalar rest

theorem forall_readMore {α : Type} {item : Parse α} {close : ℕ} {P : α → Prop}
    (hitem : Reads item P) (passes : ℕ) :
  Reads (readMore item close passes) fun xs => ∀ x ∈ xs, P x
  := by
  induction passes with
  | zero =>
      intro t rest xs _ h
      cases h
  | succ passes ih =>
      intro t rest xs ht h
      have hscalar := ht.skipSpaces
      rw [readMore] at h
      split at h
      · cases h
      · rename_i c u hspaces
        rw [hspaces] at hscalar
        split_ifs at h
        · obtain ⟨rfl, rfl⟩ := Prod.mk.inj (Except.ok.inj h)
          exact ⟨List.forall_mem_nil _, hscalar.tail⟩
        · obtain ⟨⟨x, v⟩, hx, h⟩ := bind_eq_ok h
          obtain ⟨⟨ys, v'⟩, hys, h⟩ := bind_eq_ok h
          obtain ⟨rfl, rfl⟩ := Prod.mk.inj (Except.ok.inj h)
          obtain ⟨hfirst, hv⟩ := hitem hscalar.tail hx
          obtain ⟨hothers, hrest⟩ := ih hv hys
          exact ⟨List.forall_mem_cons.mpr ⟨hfirst, hothers⟩, hrest⟩

theorem forall_readMany {α : Type} {item : Parse α} {close : ℕ} {P : α → Prop}
    (hitem : Reads item P) :
  Reads (readMany item close) fun xs => ∀ x ∈ xs, P x
  := by
  intro t rest xs ht h
  have hscalar := ht.skipSpaces
  rw [readMany] at h
  split at h
  · cases h
  · rename_i c u hspaces
    rw [hspaces] at hscalar
    split_ifs at h
    · obtain ⟨rfl, rfl⟩ := Prod.mk.inj (Except.ok.inj h)
      exact ⟨List.forall_mem_nil _, hscalar.tail⟩
    · obtain ⟨⟨x, v⟩, hx, h⟩ := bind_eq_ok h
      obtain ⟨⟨ys, v'⟩, hys, h⟩ := bind_eq_ok h
      obtain ⟨rfl, rfl⟩ := Prod.mk.inj (Except.ok.inj h)
      obtain ⟨hfirst, hv⟩ := hitem hscalar hx
      obtain ⟨hothers, hrest⟩ := forall_readMore hitem _ hv hys
      exact ⟨List.forall_mem_cons.mpr ⟨hfirst, hothers⟩, hrest⟩

theorem wellFormed_readString :
  Reads readString WellFormed
  := by
  intro t rest s ht h
  have hscalar := ht.skipSpaces
  rw [readString] at h
  split at h
  · cases h
  · rename_i c u hspaces
    rw [hspaces] at hscalar
    split_ifs at h
    split at h
    · rename_i ps v hpieces
      obtain ⟨rfl, rfl⟩ := Prod.mk.inj (Except.ok.inj h)
      obtain ⟨hproper, hrest⟩ := isProper_readPieces hscalar.tail hpieces
      exact ⟨wellFormed_joinPieces hproper, hrest⟩
    · cases h

theorem reads_readField {value : Parse Json} {P : Json → Prop} (hvalue : Reads value P) :
  Reads (readField value) fun field => WellFormed field.1 ∧ P field.2
  := by
  intro t rest field ht h
  obtain ⟨⟨key, u⟩, hkey, h⟩ := bind_eq_ok h
  obtain ⟨hname, hu⟩ := wellFormed_readString ht hkey
  have hscalar := hu.skipSpaces
  dsimp only at h
  split at h
  · cases h
  · rename_i c v hspaces
    rw [hspaces] at hscalar
    split_ifs at h
    obtain ⟨⟨j, w⟩, hj, h⟩ := bind_eq_ok h
    obtain ⟨rfl, rfl⟩ := Prod.mk.inj (Except.ok.inj h)
    obtain ⟨hP, hrest⟩ := hvalue hscalar.tail hj
    exact ⟨⟨hname, hP⟩, hrest⟩

theorem reads_readLiteral (depth : ℕ) :
  Reads readLiteral (Readable depth)
  := by
  intro t rest j ht h
  have hdrop (n : ℕ) : Scalar (t.drop n) := fun c hc => ht c (List.mem_of_mem_drop hc)
  unfold readLiteral at h
  split_ifs at h
  all_goals obtain ⟨rfl, rfl⟩ := Prod.mk.inj (Except.ok.inj h)
  · exact ⟨.null depth, hdrop 4⟩
  · exact ⟨.bool depth true, hdrop 4⟩
  · exact ⟨.bool depth false, hdrop 5⟩

theorem reads_readWith {depth : ℕ} {arrays objects : Parse Json}
    (harrays : Reads arrays (Readable depth)) (hobjects : Reads objects (Readable depth)) :
  Reads (readWith arrays objects) (Readable depth)
  := by
  intro t rest j ht h
  have hscalar := ht.skipSpaces
  rw [readWith] at h
  split at h
  · cases h
  · rename_i c u hspaces
    rw [hspaces] at hscalar
    split_ifs at h
    · obtain ⟨rfl, rfl⟩ := Prod.mk.inj (Except.ok.inj h)
      refine ⟨.number depth _, fun d hd => hscalar.tail d ?_⟩
      exact (List.dropWhile_suffix _).subset hd
    · obtain ⟨⟨s, v⟩, hs, h⟩ := bind_eq_ok h
      obtain ⟨rfl, rfl⟩ := Prod.mk.inj (Except.ok.inj h)
      obtain ⟨hstring, hrest⟩ := wellFormed_readString hscalar hs
      exact ⟨.string depth hstring, hrest⟩
    · exact harrays hscalar.tail h
    · exact hobjects hscalar.tail h
    · exact reads_readLiteral depth hscalar h

/-- What is read can be read. -/
theorem readable_readValue (depth : ℕ) :
  Reads (readValue depth) (Readable depth)
  := by
  induction depth with
  | zero => exact reads_readWith (fun _ h => by cases h) (fun _ h => by cases h)
  | succ depth ih =>
      apply reads_readWith
      · intro t rest j ht h
        obtain ⟨⟨js, u⟩, hjs, h⟩ := bind_eq_ok h
        obtain ⟨rfl, rfl⟩ := Prod.mk.inj (Except.ok.inj h)
        obtain ⟨hall, hrest⟩ := forall_readMany ih ht hjs
        exact ⟨.array hall, hrest⟩
      · intro t rest j ht h
        obtain ⟨⟨fields, u⟩, hfields, h⟩ := bind_eq_ok h
        obtain ⟨rfl, rfl⟩ := Prod.mk.inj (Except.ok.inj h)
        obtain ⟨hall, hrest⟩ := forall_readMany (reads_readField ih) ht hfields
        refine ⟨.object (Dict.nodup_keys_ofList fields) ?_ ?_, hrest⟩
        · exact fun e he => (hall e (Dict.mem_of_mem_ofList he)).1
        · exact fun e he => (hall e (Dict.mem_of_mem_ofList he)).2

/-- Arrays that are nested deeper than the given depth are not read. -/
theorem readValue_tooDeep {depth n : ℕ} (h : depth < n) (t : Text) :
  readValue depth (List.replicate n 91 ++ t) = .error .tooDeep
  := by
  obtain ⟨n, rfl⟩ := Nat.exists_eq_succ_of_ne_zero (Nat.ne_zero_of_lt h)
  induction depth generalizing n with
  | zero => rfl
  | succ depth ih =>
      obtain ⟨n, rfl⟩ :=
        Nat.exists_eq_succ_of_ne_zero (Nat.ne_zero_of_lt (Nat.lt_of_succ_lt_succ h))
      have hinner := ih n (Nat.lt_of_succ_lt_succ h)
      have hmany : readMany (readValue depth) 93 (List.replicate (n + 1) 91 ++ t)
          = .error .tooDeep := by
        rw [List.replicate_succ, List.cons_append] at hinner ⊢
        rw [readMany, skipSpaces_cons rfl]
        dsimp only
        rw [if_neg (by decide), hinner]
        rfl
      rw [List.replicate_succ, List.cons_append, readValue, readWith, skipSpaces_cons rfl]
      dsimp only
      rw [dif_neg (by decide), if_neg (by decide), if_pos rfl, hmany]
      rfl

/-! ### Octets -/

/-- What the first octet of a character of several says: how many octets follow, the least
character that so many are needed for, and the first bits of the character. -/
def leadOf? (a : UInt8) : Option (ℕ × ℕ × ℕ) :=
  if 192 ≤ a ∧ a < 224 then some (1, 128, a.toNat - 192)
  else if 224 ≤ a ∧ a < 240 then some (2, 2048, a.toNat - 224)
  else if 240 ≤ a ∧ a < 248 then some (3, 65536, a.toNat - 240)
  else none

/-- The character of which the bits and the octets are given. -/
def charOf? (least bits : ℕ) (octets : List UInt8) : Option ℕ :=
  let c := octets.foldl (fun acc b => 64 * acc + b.toNat % 64) bits
  if octets.all (fun b => b / 64 == 2) = true ∧ least ≤ c ∧ c.isValidChar then some c else none

/-- The text of octets in UTF-8, with as many characters at most as there are passes. -/
def decodeWithin : ℕ → List UInt8 → Option Text
  | _, [] => some []
  | 0, _ :: _ => none
  | passes + 1, a :: octets =>
      if a < 128 then (decodeWithin passes octets).map (a.toNat :: ·)
      else do
        let (count, least, bits) ← leadOf? a
        if (octets.take count).length = count then
          let c ← charOf? least bits (octets.take count)
          (decodeWithin passes (octets.drop count)).map (c :: ·)
        else none

def decodeUtf8 (octets : List UInt8) : Option Text := decodeWithin octets.length octets

theorem scalar_decodeWithin {passes : ℕ} {octets : List UInt8} {t : Text}
    (h : decodeWithin passes octets = some t) :
  Scalar t
  := by
  fun_induction decodeWithin passes octets generalizing t with
  | case1 =>
      obtain rfl := Option.some.inj h
      exact List.forall_mem_nil _
  | case2 => cases h
  | case3 passes a octets hascii ih =>
      obtain ⟨u, hu, rfl⟩ := Option.map_eq_some_iff.mp h
      refine List.forall_mem_cons.mpr ⟨.inl ?_, ih hu⟩
      have hlt := UInt8.lt_iff_toNat_lt.mp hascii
      change a.toNat < 128 at hlt
      omega
  | case4 passes a octets hascii ih =>
      obtain ⟨⟨count, least, bits⟩, -, h⟩ := Option.bind_eq_some_iff.mp h
      dsimp only at h
      split at h
      · obtain ⟨c, hc, h⟩ := Option.bind_eq_some_iff.mp h
        obtain ⟨u, hu, rfl⟩ := Option.map_eq_some_iff.mp h
        refine List.forall_mem_cons.mpr ⟨?_, ih _ hu⟩
        simp only [charOf?] at hc
        split_ifs at hc with hvalid
        obtain rfl := Option.some.inj hc
        exact hvalid.2.2
      · cases h

theorem decodeWithin_ascii {octets : List UInt8} (h : ∀ b ∈ octets, b < 128) {passes : ℕ}
    (hpasses : octets.length ≤ passes) :
  decodeWithin passes octets = some (octets.map UInt8.toNat)
  := by
  induction octets generalizing passes with
  | nil => rw [decodeWithin, List.map_nil]
  | cons a octets ih =>
      obtain ⟨ha, hoctets⟩ := List.forall_mem_cons.mp h
      obtain ⟨passes, rfl⟩ := Nat.exists_eq_succ_of_ne_zero (Nat.ne_zero_of_lt hpasses)
      rw [decodeWithin, if_pos ha, ih hoctets (Nat.le_of_succ_le_succ hpasses), Option.map_some,
        List.map_cons]

theorem utf8_ascii {t : Text} (h : ∀ c ∈ t, c < 128) :
  (∀ b ∈ utf8 t, b < 128) ∧ (utf8 t).map UInt8.toNat = t
  := by
  have hone : ∀ c < 128, String.utf8EncodeChar (Char.ofNat c) = [UInt8.ofNat c]
      ∧ UInt8.ofNat c < 128 ∧ (UInt8.ofNat c).toNat = c := by
    decide
  have hutf8 : utf8 t = t.map UInt8.ofNat := by
    rw [utf8, List.flatMap_congr fun c hc => (hone c (h c hc)).1]
    exact List.flatMap_pure_eq_map UInt8.ofNat t
  rw [hutf8]
  constructor
  · intro b hb
    obtain ⟨c, hc, rfl⟩ := List.mem_map.mp hb
    exact (hone c (h c hc)).2.1
  · rw [List.map_map]
    exact (List.map_congr_left fun c hc => (hone c (h c hc)).2.2).trans (List.map_id t)

/-- The value that the octets are the text of. -/
def read (depth : ℕ) (octets : List UInt8) : Except ReadError Json :=
  match decodeUtf8 octets with
  | none => .error .invalid
  | some t => do
      let (j, rest) ← readValue depth t
      if skipSpaces rest = [] then return j else .error .invalid

/-- There is no value in no octets. -/
theorem read_nil (depth : ℕ) :
  read depth [] = .error .invalid
  := by
  obtain ⟨arrays, objects, heq⟩ := exists_readWith depth
  rw [read, decodeUtf8, decodeWithin]
  dsimp only
  rw [heq]
  rfl

theorem readable_read {depth : ℕ} {octets : List UInt8} {j : Json}
    (h : read depth octets = .ok j) :
  Readable depth j
  := by
  unfold read at h
  split at h
  · cases h
  · rename_i t ht
    obtain ⟨⟨j', rest⟩, hj', h⟩ := bind_eq_ok h
    dsimp only at h
    split_ifs at h
    obtain rfl := Except.ok.inj h
    exact (readable_readValue depth (scalar_decodeWithin ht) hj').1

/-- A value that was read, or any other one that can be, is read back when it is written in ASCII
characters. -/
theorem read_write {depth : ℕ} {j : Json} (h : Readable depth j) :
  read depth (utf8 (write escapeAscii j)) = .ok j
  := by
  obtain ⟨hoctets, hsame⟩ := utf8_ascii fun c hc => lt_of_mem_write j hc
  have hvalue : readValue depth (write escapeAscii j ++ []) = .ok (j, []) :=
    readValue_write h fun _ hc => by cases hc
  rw [List.append_nil] at hvalue
  rw [read, decodeUtf8, decodeWithin_ascii hoctets le_rfl, hsame]
  dsimp only
  rw [hvalue]
  rfl

theorem read_tooDeep {depth n : ℕ} (h : depth < n) {octets : List UInt8}
    (hoctets : ∀ b ∈ octets, b < 128) :
  read depth (List.replicate n 91 ++ octets) = .error .tooDeep
  := by
  have hascii : ∀ b ∈ List.replicate n 91 ++ octets, b < 128 := by
    intro b hb
    obtain hopen | hrest := List.mem_append.mp hb
    · rw [List.eq_of_mem_replicate hopen]
      decide
    · exact hoctets b hrest
  rw [read, decodeUtf8, decodeWithin_ascii hascii le_rfl, List.map_append, List.map_replicate]
  change (readValue depth (List.replicate n 91 ++ _) >>= _) = _
  rw [readValue_tooDeep h]
  rfl

end Json
