import ESignSoft.Lib.JsText

/-!
# HTTP header lists

A `Headers` object of the Fetch standard: names in lower case, values without HTTP white space at either
end, and several entries of one name read as one value joined with commas.

* `get_filter` — what is read after entries have been removed by name;
* `get_set_self`, `get_set_of_ne` — what is read after one has been set.
-/

namespace ESignSoft.Lib.HttpHeaders

open ESignSoft.Lib.JsText

/-- Byte-lowercase. -/
def byteLowerCase (s : JsString) : JsString := s.map fun u => if 0x41 ≤ u && u ≤ 0x5A then u + 0x20 else u

/-- Tab, line feed, carriage return and space. -/
def isHttpWhiteSpace (u : UInt16) : Bool := u == 0x09 || u == 0x0A || u == 0x0D || u == 0x20

def normalizeValue (s : JsString) : JsString :=
  ((s.dropWhile isHttpWhiteSpace).reverse.dropWhile isHttpWhiteSpace).reverse

abbrev Headers := List (JsString × JsString)

/-- The header lines of a message. -/
def Headers.ofLines (lines : List (JsString × JsString)) : Headers :=
  lines.map fun line => (byteLowerCase line.1, normalizeValue line.2)

def Headers.values (h : Headers) (name : JsString) : List JsString :=
  (h.filter fun entry => entry.1 == name).map Prod.snd

/-- `get`, for a name in lower case. -/
def Headers.get (h : Headers) (name : JsString) : Option JsString :=
  match h.values name with
  | [] => none
  | value :: rest => some ((js ", ").intercalate (value :: rest))

/-- `set`, for a name in lower case; what stood under the name is gone. -/
def Headers.set (h : Headers) (name value : JsString) : Headers :=
  (h.filter fun entry => entry.1 != name) ++ [(name, value)]

theorem values_filter (h : Headers) (keep : JsString → Bool) (name : JsString) :
    Headers.values (h.filter fun entry => keep entry.1) name =
      if keep name then h.values name else [] := by
  unfold Headers.values
  rw [List.filter_filter]
  split
  · rename_i hkeep
    congr 1
    refine List.filter_congr fun entry _ => ?_
    by_cases hname : entry.1 = name
    · simp [hname, hkeep]
    · simp [hname]
  · rename_i hkeep
    rw [List.map_eq_nil_iff, List.filter_eq_nil_iff]
    rintro entry - hentry
    rw [Bool.and_eq_true, beq_iff_eq] at hentry
    exact hkeep (hentry.1 ▸ hentry.2)

/-- Removing entries by name removes what is read under the names removed, and nothing else. -/
theorem get_filter (h : Headers) (keep : JsString → Bool) (name : JsString) :
    Headers.get (h.filter fun entry => keep entry.1) name = if keep name then h.get name else none := by
  unfold Headers.get
  rw [values_filter]
  by_cases hkeep : keep name = true
  · rw [if_pos hkeep, if_pos hkeep]
  · rw [if_neg hkeep, if_neg hkeep]

theorem values_append (h h' : Headers) (name : JsString) :
    Headers.values (h ++ h') name = h.values name ++ h'.values name := by
  simp [Headers.values]

@[simp]
theorem get_set_self (h : Headers) (name value : JsString) : (h.set name value).get name = some value := by
  have hvalues : (h.set name value).values name = [value] := by
    rw [Headers.set, values_append, values_filter h (fun n => n != name)]
    simp [Headers.values]
  simp [Headers.get, hvalues]

theorem get_set_of_ne (h : Headers) {name other : JsString} (value : JsString) (hne : other ≠ name) :
    (h.set name value).get other = h.get other := by
  have hvalues : (h.set name value).values other = h.values other := by
    rw [Headers.set, values_append, values_filter h (fun n => n != name)]
    simp [Headers.values, hne, Ne.symm hne]
  rw [Headers.get, hvalues, Headers.get]

end ESignSoft.Lib.HttpHeaders
