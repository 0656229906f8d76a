import OllamaQueueProxy.Library.Cut
import OllamaQueueProxy.Library.Unicode
import OllamaQueueProxy.Library.Url

/-!
# Queries

The names and values of a query in the form of HTML forms.  Escapes are decoded in the runs of
ASCII characters of a name or a value, which is then decoded as UTF-8.
-/

open Json (Text text)
open Ascii

namespace Query

variable (unicode : Unicode)

/-- A run of ASCII characters with its escapes decoded. -/
def unquoteRun (run : Text) : Text :=
  if run.isEmpty then [] else unicode.decode (Url.decode (run.map UInt8.ofNat))

/-- A text that follows a run of ASCII characters, with the escapes of both decoded. -/
def unquoteParts (run : Text) : Text → Text
  | [] => unquoteRun unicode run
  | c :: cs =>
      if c < 128 then unquoteParts (run ++ [c]) cs
      else unquoteRun unicode run ++ c :: unquoteParts [] cs

/-- A text with its escapes decoded. -/
def unquote (t : Text) : Text :=
  if percent ∈ t then unquoteParts unicode [] t else t

/-- A text with its escapes decoded, in which `+` stands for a space. -/
def unquotePlus (t : Text) : Text :=
  unquote unicode (t.map fun c => if c = plus then 32 else c)

/-- The name and the value of a field, unless it has no value. -/
def field? (t : Text) : Option (Text × Text) :=
  (Cut.first? equals t).bind fun (name, value) =>
    if value.isEmpty then none else some (unquotePlus unicode name, unquotePlus unicode value)

/-- The fields of a query, in order. -/
def fields (query : Text) : List (Text × Text) :=
  (query.splitOn ampersand).filterMap (field? unicode)

/-- The first value of the name. -/
def value? (query name : Text) : Option Text :=
  ((fields unicode query).find? fun e => e.1 == name).map Prod.snd

variable {unicode} {t name value : Text}

theorem unquotePlus_of_plain (h : ∀ c ∈ t, c ≠ percent ∧ c ≠ plus) :
  unquotePlus unicode t = t
  := by
  have hmap : t.map (fun c => if c = plus then 32 else c) = t := by
    rw [List.map_congr_left fun c hc => if_neg (h c hc).2, List.map_id']
  have hplain : percent ∉ t := fun hmem => (h percent hmem).1 rfl
  rw [unquotePlus, hmap, unquote, if_neg hplain]

theorem field?_append (hname : ∀ c ∈ name, c ≠ percent ∧ c ≠ plus ∧ c ≠ equals)
    (hvalue : value ≠ []) :
  field? unicode (name ++ equals :: value) = some (name, unquotePlus unicode value)
  := by
  have hequals : equals ∉ name := fun hmem => (hname equals hmem).2.2 rfl
  have hplain : unquotePlus unicode name = name :=
    unquotePlus_of_plain fun c hc => ⟨(hname c hc).1, (hname c hc).2.1⟩
  rw [field?, Cut.first?_append hequals, Option.bind_some]
  dsimp only
  rw [if_neg (by simpa using hvalue), hplain]

theorem field?_append_nil (hname : ∀ c ∈ name, c ≠ percent ∧ c ≠ plus ∧ c ≠ equals) :
  field? unicode (name ++ [equals]) = none
  := by
  have hequals : equals ∉ name := fun hmem => (hname equals hmem).2.2 rfl
  rw [field?, Cut.first?_append hequals]
  rfl

/-- The first value of a name is the one of the first field, if that has the name. -/
theorem fields_append (h : ampersand ∉ t) (query : Text) :
  fields unicode (t ++ ampersand :: query) = (field? unicode t).toList ++ fields unicode query
  := by
  rw [fields, List.splitOn_append_cons_self_of_not_mem h, List.filterMap_cons]
  cases field? unicode t <;> rfl

theorem fields_of_notMem (h : ampersand ∉ t) :
  fields unicode t = (field? unicode t).toList
  := by
  rw [fields, List.splitOn_eq_singleton h, List.filterMap_cons]
  cases field? unicode t <;> rfl

end Query
