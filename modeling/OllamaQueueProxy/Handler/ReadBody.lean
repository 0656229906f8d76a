import OllamaQueueProxy.Handler.Enqueue

/-!
# Reading a body

`read_body` with the chunks themselves: the loop keeps the chunks it has received and a running
total, and stops as soon as the total exceeds the limit.  What it answers is a matter of the
whole body and the header (`ReadsRight`), for any limit that is not negative.  With a negative
limit, which nothing excludes, it depends on whether any chunk is received.
-/

open Url (Octets)

namespace OllamaQueueProxy

namespace BodyStream

/-! ### The loop -/

/-- What the loop has kept, and the length of it. -/
structure Received where
  chunks : List Octets
  total : ℕ
  total_eq : total = chunks.flatten.length

namespace Received

/-- The loop starts with nothing. -/
def empty : Received := ⟨[], 0, rfl⟩

/-- `chunks.append(chunk)`, after the total. -/
def append (r : Received) (chunk : Octets) : Received where
  chunks := r.chunks ++ [chunk]
  total := r.total + chunk.length
  total_eq := by simp [r.total_eq]

end Received

/-- One pass of the loop.  It is left with the chunks that are kept so far if the total gets too
large. -/
def receive (limit : ℤ) (r : Received) (chunk : Octets) : Except (List Octets) Received :=
  if limit < ((r.total + chunk.length : ℕ) : ℤ) then .error r.chunks else .ok (r.append chunk)

/-- The loop over the chunks of a stream. -/
def receiveAll (limit : ℤ) (r : Received) (chunks : List Octets) :
    Except (List Octets) Received :=
  chunks.foldlM (receive limit) r

/-- What is kept when the loop stands at the end of the given chunks, or was left before it. -/
def kept (limit : ℤ) (r : Received) (chunks : List Octets) : Octets :=
  match receiveAll limit r chunks with
  | .ok r => r.chunks.flatten
  | .error chunks => chunks.flatten

/-! ### The function -/

/-- The header `Content-Length` is not empty and an integer above the limit. -/
def declaresMore (limit : ℤ) : Option String → Bool
  | none => false
  | some header => !header.isEmpty && (parseInt? header).any fun n => limit < n

/-- The answer to a body that is too large. -/
def tooLarge (requestId : String) : Response :=
  .error 413 "request body too large" requestId []

/-- `read_body`, for a request with the given header and stream. -/
def readBody (requestId : String) (contentLength : Option String) (maxMb : ℤ)
    (chunks : List Octets) : Octets × Option Response :=
  if declaresMore (maxBytes maxMb) contentLength then ([], some (tooLarge requestId))
  else match receiveAll (maxBytes maxMb) .empty chunks with
    | .ok r => (r.chunks.flatten, none)
    | .error _ => ([], some (tooLarge requestId))

/-! ### What is asked of it -/

/-- The body is within the limit, and the header does not declare more. -/
structure Fits (contentLength : Option String) (maxMb : ℤ) (body : Octets) : Prop where
  length_le : (body.length : ℤ) ≤ maxBytes maxMb
  declared_le : ∀ n ∈ contentLength.bind parseInt?, n ≤ maxBytes maxMb

/-- A body that fits is returned and any other refused, however it is split, and at no point is
more kept than the limit. -/
structure ReadsRight (requestId : String) (contentLength : Option String) (maxMb : ℤ) :
    Prop where
  returned : ∀ chunks : List Octets, Fits contentLength maxMb chunks.flatten →
    readBody requestId contentLength maxMb chunks = (chunks.flatten, none)
  refused : ∀ chunks : List Octets, ¬ Fits contentLength maxMb chunks.flatten →
    readBody requestId contentLength maxMb chunks = ([], some (tooLarge requestId))
  splitting : ∀ chunks chunks' : List Octets, chunks.flatten = chunks'.flatten →
    readBody requestId contentLength maxMb chunks = readBody requestId contentLength maxMb chunks'
  kept_le : ∀ chunks first : List Octets, first <+: chunks →
    ((kept (maxBytes maxMb) .empty first).length : ℤ) ≤ maxBytes maxMb

/-- Nothing of the stream is read with a negative limit, but that a chunk is there. -/
structure ReadsNothing (requestId : String) (contentLength : Option String) (maxMb : ℤ) :
    Prop where
  refused : ∀ chunks : List Octets, chunks ≠ [] →
    readBody requestId contentLength maxMb chunks = ([], some (tooLarge requestId))
  returned : (∀ n ∈ contentLength.bind parseInt?, n ≤ maxBytes maxMb) →
    readBody requestId contentLength maxMb [] = ([], none)
  refused_nil : (∃ n ∈ contentLength.bind parseInt?, maxBytes maxMb < n) →
    readBody requestId contentLength maxMb [] = ([], some (tooLarge requestId))
  kept_eq_nil : ∀ chunks : List Octets, kept (maxBytes maxMb) .empty chunks = []

variable {requestId : String} {contentLength : Option String} {maxMb limit : ℤ} {r : Received}
  {chunk : Octets} {chunks : List Octets}

/-! ### The header -/

theorem parseInt?_empty :
  parseInt? "" = none
  := by decide

theorem declaresMore_eq :
  declaresMore limit contentLength = (contentLength.bind parseInt?).any fun n => limit < n
  := by
  cases contentLength with
  | none => rfl
  | some header =>
      by_cases hempty : header = ""
      · subst hempty
        simp [declaresMore, parseInt?_empty]
      · simp [declaresMore, hempty]

theorem declaresMore_iff :
  declaresMore limit contentLength = true ↔ ∃ n ∈ contentLength.bind parseInt?, limit < n
  := by
  rw [declaresMore_eq]
  cases contentLength.bind parseInt? <;> simp

theorem declaresMore_eq_false :
  declaresMore limit contentLength = false ↔ ∀ n ∈ contentLength.bind parseInt?, n ≤ limit
  := by
  rw [← Bool.not_eq_true, declaresMore_iff]
  push Not
  rfl

/-! ### A pass -/

@[simp]
theorem receiveAll_nil :
  receiveAll limit r [] = .ok r
  := rfl

theorem receiveAll_cons :
  receiveAll limit r (chunk :: chunks) =
    if limit < ((r.total + chunk.length : ℕ) : ℤ) then .error r.chunks
    else receiveAll limit (r.append chunk) chunks
  := by
  simp only [receiveAll, List.foldlM_cons, receive]
  split_ifs <;> rfl

theorem kept_cons :
  kept limit r (chunk :: chunks) =
    if limit < ((r.total + chunk.length : ℕ) : ℤ) then r.chunks.flatten
    else kept limit (r.append chunk) chunks
  := by
  simp only [kept, receiveAll_cons]
  split_ifs <;> rfl

/-! ### The loop -/

/-- The chunks are all received if they fit in together. -/
theorem receiveAll_of_le (h : ((r.total + chunks.flatten.length : ℕ) : ℤ) ≤ limit) :
  ∃ r', receiveAll limit r chunks = .ok r' ∧ r'.chunks = r.chunks ++ chunks
  := by
  induction chunks generalizing r with
  | nil => exact ⟨r, rfl, (List.append_nil _).symm⟩
  | cons chunk chunks ih =>
      rw [List.flatten_cons, List.length_append, ← Nat.add_assoc] at h
      obtain ⟨r', hall, hchunks⟩ := ih (r := r.append chunk) h
      refine ⟨r', ?_, ?_⟩
      · rw [receiveAll_cons, if_neg (by omega), hall]
      · rw [hchunks, Received.append, List.append_assoc, List.singleton_append]

/-- The loop is left if they do not. -/
theorem receiveAll_of_lt (hchunks : chunks ≠ [])
    (h : limit < ((r.total + chunks.flatten.length : ℕ) : ℤ)) :
  ∃ left, receiveAll limit r chunks = .error left
  := by
  induction chunks generalizing r with
  | nil => exact absurd rfl hchunks
  | cons chunk chunks ih =>
      rw [receiveAll_cons]
      rw [List.flatten_cons, List.length_append, ← Nat.add_assoc] at h
      split_ifs with hover
      · exact ⟨r.chunks, rfl⟩
      · obtain rfl | hne := eq_or_ne chunks []
        · rw [List.flatten_nil, List.length_nil, Nat.add_zero] at h
          exact absurd h hover
        · exact ih hne h

/-- What is kept stays below any bound of the limit and of what was kept before. -/
theorem length_kept_le {bound : ℤ} (hlimit : limit ≤ bound) (hr : (r.total : ℤ) ≤ bound) :
  ((kept limit r chunks).length : ℤ) ≤ bound
  := by
  induction chunks generalizing r with
  | nil =>
      change (r.chunks.flatten.length : ℤ) ≤ bound
      rwa [← r.total_eq]
  | cons chunk chunks ih =>
      rw [kept_cons]
      split_ifs with hover
      · rwa [← r.total_eq]
      · exact ih (le_trans (not_lt.mp hover) hlimit)

/-! ### The answer -/

theorem readBody_of_declaresMore (h : declaresMore (maxBytes maxMb) contentLength = true) :
  readBody requestId contentLength maxMb chunks = ([], some (tooLarge requestId))
  := if_pos h

theorem readBody_of_lt (hchunks : chunks ≠ [])
    (h : maxBytes maxMb < (chunks.flatten.length : ℤ)) :
  readBody requestId contentLength maxMb chunks = ([], some (tooLarge requestId))
  := by
  obtain ⟨left, hleft⟩ := receiveAll_of_lt (r := .empty) hchunks
    (by simpa [Received.empty] using h)
  rw [readBody, hleft]
  exact ite_self _

theorem readBody_of_fits (h : Fits contentLength maxMb chunks.flatten) :
  readBody requestId contentLength maxMb chunks = (chunks.flatten, none)
  := by
  obtain ⟨r, hall, hchunks⟩ :
      ∃ r, receiveAll (maxBytes maxMb) .empty chunks = .ok r ∧ r.chunks = [] ++ chunks :=
    receiveAll_of_le (by simpa [Received.empty] using h.length_le)
  rw [readBody, declaresMore_eq_false.mpr h.declared_le, hall]
  simp [hchunks]

theorem maxBytes_nonneg (h : 0 ≤ maxMb) :
  0 ≤ maxBytes maxMb
  := by
  unfold maxBytes
  omega

theorem maxBytes_neg (h : maxMb < 0) :
  maxBytes maxMb < 0
  := by
  unfold maxBytes
  omega

theorem readBody_of_not_fits (hnonneg : 0 ≤ maxMb)
    (h : ¬ Fits contentLength maxMb chunks.flatten) :
  readBody requestId contentLength maxMb chunks = ([], some (tooLarge requestId))
  := by
  by_cases hdeclares : declaresMore (maxBytes maxMb) contentLength = true
  · exact readBody_of_declaresMore hdeclares
  · have hlength : maxBytes maxMb < (chunks.flatten.length : ℤ) := by
      by_contra hle
      exact h ⟨not_lt.mp hle, declaresMore_eq_false.mp (Bool.not_eq_true _ ▸ hdeclares)⟩
    refine readBody_of_lt ?_ hlength
    rintro rfl
    exact absurd hlength (not_lt.mpr (maxBytes_nonneg hnonneg))

theorem readsRight_of_nonneg (hnonneg : 0 ≤ maxMb) :
  ReadsRight requestId contentLength maxMb
  where
  returned _ h := readBody_of_fits h
  refused _ h := readBody_of_not_fits hnonneg h
  splitting chunks chunks' heq := by
    by_cases h : Fits contentLength maxMb chunks.flatten
    · rw [readBody_of_fits h, readBody_of_fits (heq ▸ h), heq]
    · rw [readBody_of_not_fits hnonneg h, readBody_of_not_fits hnonneg (heq ▸ h)]
  kept_le _ _ _ := length_kept_le le_rfl (maxBytes_nonneg hnonneg)

theorem readsNothing_of_neg (hneg : maxMb < 0) :
  ReadsNothing requestId contentLength maxMb
  where
  refused _ hchunks :=
    readBody_of_lt hchunks (lt_of_lt_of_le (maxBytes_neg hneg) (Int.natCast_nonneg _))
  returned h := by
    rw [readBody, declaresMore_eq_false.mpr h]
    rfl
  refused_nil h := readBody_of_declaresMore (declaresMore_iff.mpr h)
  kept_eq_nil chunks := by
    have hlength : ((kept (maxBytes maxMb) .empty chunks).length : ℤ) ≤ 0 :=
      length_kept_le (le_of_lt (maxBytes_neg hneg)) le_rfl
    exact List.eq_nil_of_length_eq_zero (Nat.le_zero.mp (by exact_mod_cast hlength))

/-- A body is read as it should be with a limit that is not negative.  With a negative limit
every stream that has a chunk is refused, and nothing is kept. -/
theorem readBody_correct (requestId : String) (contentLength : Option String) (maxMb : ℤ) :
  (0 ≤ maxMb → ReadsRight requestId contentLength maxMb)
    ∧ (maxMb < 0 → ReadsNothing requestId contentLength maxMb)
  := ⟨readsRight_of_nonneg, readsNothing_of_neg⟩

/-- A limit of one and a header that is no number, and a negative limit. -/
theorem readBody_correct_examples :
  ReadsRight "id" (some "five") 1 ∧ ReadsNothing "id" (some "5") (-1)
  := ⟨(readBody_correct "id" (some "five") 1).1 (by decide),
    (readBody_correct "id" (some "5") (-1)).2 (by decide)⟩

/-- With a negative limit, a stream without a chunk is not refused, though the empty body is
larger than the limit.  Nor is the nothing that is kept of a body and the empty chunk after it
within the limit. -/
theorem not_readsRight :
  ¬ ReadsRight "id" none (-1)
    ∧ maxBytes (-1) < ((kept (maxBytes (-1)) .empty [Url.ascii "x", []]).length : ℤ)
  := by
  constructor
  · intro h
    have hrefused := h.refused [] fun hfits => absurd hfits.length_le (by decide)
    exact absurd (congrArg Prod.snd hrefused) nofun
  · decide

/-! ### The requests of the handlers -/

theorem isOk_receiveAll :
  (receiveAll limit r chunks).isOk = chunksFit limit r.total (chunks.map List.length)
  := by
  induction chunks generalizing r with
  | nil => rfl
  | cons chunk chunks ih =>
      rw [receiveAll_cons, List.map_cons, chunksFit]
      by_cases hover : limit < (r.total : ℤ) + (chunk.length : ℤ)
      · rw [if_pos (by exact_mod_cast hover), if_pos hover]
        rfl
      · rw [if_neg (by exact_mod_cast hover), if_neg hover, ih]
        rfl

/-- The stream decides on a request as its chunks' lengths do. -/
theorem snd_readBody (request : Request) (h : request.chunks = chunks.map List.length) :
  (readBody request.requestId (request.header? "content-length") maxMb chunks).2 =
    match OllamaQueueProxy.readBody request maxMb with
    | .ok _ => none
    | .error response => some response
  := by
  have hloop : (receiveAll (maxBytes maxMb) .empty chunks).isOk =
      chunksFit (maxBytes maxMb) 0 (chunks.map List.length) := isOk_receiveAll
  rw [readBody, OllamaQueueProxy.readBody, declaresMore_eq, h, ← hloop]
  by_cases hdeclares : ((request.header? "content-length").bind parseInt?).any
      (fun n => maxBytes maxMb < n) = true
  · rw [if_pos hdeclares, if_pos hdeclares]
    rfl
  · rw [if_neg hdeclares, if_neg hdeclares]
    cases receiveAll (maxBytes maxMb) .empty chunks <;> rfl

end BodyStream

end OllamaQueueProxy
