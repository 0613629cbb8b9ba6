import ESignSoft.Signing.FieldValues

/-!
# The signing app's own check

What the signing page tells the signer before the form is sent: which boxes are empty, which values are
refused, and whether Finish is offered.  `filled` is the page's map from field handles to what the boxes
hold; `onFinish` turns it into the map that is sent.

* `supplied_onFinish` — what the server reads for a field is what the box holds, trimmed;
* `ceremony_agrees` — the page and `resolveFieldValues` complain about the same fields.
-/

namespace ESignSoft.Signing.Ceremony

open ESignSoft.Lib.JsText ESignSoft.Contracts

def SIGNATURE_KINDS (t : FieldType) : Bool := t == .signature || t == .initial || t == .stamp

/-- Only Date Signed: nobody types it. -/
def AUTO_KINDS (t : FieldType) : Bool := t == .date

inductive FieldKind
  | signature
  | auto
  | input
  deriving DecidableEq, Repr

def fieldKind (field : TemplateField) : FieldKind :=
  if SIGNATURE_KINDS field.type then .signature
  else if AUTO_KINDS field.type then .auto
  else .input

/-- The handle of a field.  The fallback on type, page and index is for a field without an id, and
every field has one. -/
def fieldKey (field : TemplateField) (_index : Nat) : JsString := field.id

/-- Why this box's value cannot be submitted. -/
def fieldProblem (P : Platform) (field : TemplateField) (value : JsString) : Option JsString :=
  if fieldKind field ≠ .input then none
  else
    let v := trim value
    if v = [] then none
    else if (field.type == .dropdown || field.type == .radio) &&
        !(field.options.getD []).contains v then
      match FIELD_VALUE_RULES P field.type with
      | some rule => some rule.hint
      | none => some (js "Choose one of the offered options")
    else fieldValueProblem P field.type v

/-- `filter` with the index. -/
def filterIdx (keep : TemplateField → Nat → Bool) (fields : List TemplateField) :
    List TemplateField :=
  (fields.zipIdx.filter fun f => keep f.1 f.2).map Prod.fst

/-- What a box holds after trimming; a box nobody touched holds nothing. -/
def shown (filled : Values) (key : JsString) : JsString := trim ((filled key).getD [])

/-- Required boxes the signer hasn't filled. -/
def unsignedFields (fields : List TemplateField) (filled : Values) : List TemplateField :=
  filterIdx (fun f i =>
    if !f.required then false
    else if fieldKind f = .auto then false
    else shown filled (fieldKey f i) == []) fields

/-- Boxes holding a value their field's rule refuses. -/
def invalidFields (P : Platform) (fields : List TemplateField) (filled : Values) :
    List TemplateField :=
  filterIdx (fun f i => fieldProblem P f ((filled (fieldKey f i)).getD []) != none) fields

/-- Everything standing between the signer and Finish.  The two sets hold objects; two fields with the
same content are reported alike, so comparing the content decides the same. -/
def blockingFields (P : Platform) (fields : List TemplateField) (filled : Values) :
    List TemplateField :=
  let unsigned := unsignedFields fields filled
  let invalid := invalidFields P fields filled
  fields.filter fun f => unsigned.contains f || invalid.contains f

def canFinish (P : Platform) (fields : List TemplateField) (filled : Values) : Bool :=
  (blockingFields P fields filled).length == 0

/-- One turn of the loop that collects the values to send. -/
def sendValue (filled : Values) (values : Values) (f : TemplateField × Nat) : Values :=
  if fieldKind f.1 = .signature then values
  else
    let key := fieldKey f.1 f.2
    match filled key with
    | none => values
    | some v => if v = [] then values else Function.update values key (some v)

/-- The values `onFinish` sends: those of every box but the signature boxes. -/
def onFinish (fields : List TemplateField) (filled : Values) : Values :=
  fields.zipIdx.foldl (sendValue filled) fun _ => none

/-! ## The two classifications -/

theorem fieldKind_signature_iff (f : TemplateField) :
    fieldKind f = .signature ↔ IMAGE_KINDS f.type = true := by
  cases h : f.type <;> simp [fieldKind, SIGNATURE_KINDS, AUTO_KINDS, IMAGE_KINDS, h]

theorem fieldKind_auto_iff (f : TemplateField) :
    fieldKind f = .auto ↔ Signing.AUTO_KINDS f.type = true := by
  cases h : f.type <;> simp [fieldKind, SIGNATURE_KINDS, AUTO_KINDS, Signing.AUTO_KINDS, h]

theorem fieldKind_input_iff (f : TemplateField) : fieldKind f = .input ↔ Typed f = true := by
  cases h : f.type <;>
    simp [fieldKind, SIGNATURE_KINDS, AUTO_KINDS, Typed, IMAGE_KINDS, Signing.AUTO_KINDS, h]

/-- A filter that does not look at the index is a plain filter. -/
theorem filterIdx_eq (keep : TemplateField → Bool) (fields : List TemplateField) :
    filterIdx (fun f _ => keep f) fields = fields.filter keep := by
  have hcomp : (fun f : TemplateField × Nat => keep f.1) = keep ∘ Prod.fst := rfl
  unfold filterIdx
  rw [hcomp, ← List.filter_map, List.zipIdx_map_fst]

/-! ## What is sent -/

/-- What is sent for a box: nothing where it holds nothing. -/
def sent (filled : Values) (id : JsString) : Option JsString :=
  match filled id with
  | none => none
  | some v => if v = [] then none else some v

theorem sendValue_apply (filled values : Values) (f : TemplateField × Nat) (id : JsString) :
    sendValue filled values f id =
      if fieldKind f.1 ≠ .signature ∧ f.1.id = id then (sent filled id).or (values id)
      else values id := by
  unfold sendValue fieldKey sent
  by_cases hkind : fieldKind f.1 = .signature
  · simp [hkind]
  · by_cases hid : f.1.id = id
    · subst hid
      cases hfilled : filled f.1.id with
      | none => simp [hkind, hfilled]
      | some v =>
          -- An empty box sends nothing, not the empty value.
          by_cases hv : v = []
          · simp [hkind, hfilled, hv]
          · simp [hkind, hfilled, hv]
    · rw [if_neg hkind, if_neg (fun h => hid h.2)]
      cases hfilled : filled f.1.id with
      | none => rfl
      | some v =>
          by_cases hv : v = []
          · simp [hv]
          · simp [hv, Function.update_of_ne (Ne.symm hid)]

theorem onFinish_concat (fields : List TemplateField) (f : TemplateField) (filled : Values) :
    onFinish (fields ++ [f]) filled =
      sendValue filled (onFinish fields filled) (f, fields.length) := by
  simp [onFinish, List.zipIdx_append]

/-- Under an id some box other than a signature box has, what that box holds is sent. -/
theorem onFinish_apply (fields : List TemplateField) (filled : Values) (id : JsString) :
    onFinish fields filled id =
      if ∃ f ∈ fields, fieldKind f ≠ .signature ∧ f.id = id then sent filled id else none := by
  induction fields using List.reverseRecOn with
  | nil => simp [onFinish]
  | append_singleton fields f ih =>
      have hsplit : (∃ g ∈ fields ++ [f], fieldKind g ≠ .signature ∧ g.id = id) ↔
          (∃ g ∈ fields, fieldKind g ≠ .signature ∧ g.id = id) ∨
            (fieldKind f ≠ .signature ∧ f.id = id) := by
        simp only [List.mem_append, List.mem_singleton, or_and_right, exists_or, exists_eq_left]
      rw [onFinish_concat, sendValue_apply, ih]
      simp only [hsplit]
      by_cases hnew : fieldKind f ≠ .signature ∧ f.id = id
      · -- An earlier box of the same id has sent the same value.
        rw [if_pos hnew, if_pos (Or.inr hnew)]
        split <;> cases sent filled id <;> rfl
      · rw [if_neg hnew]
        simp only [hnew, or_false]

/-- What the server reads for a field is what its box holds, trimmed. -/
theorem supplied_onFinish {fields : List TemplateField} {f : TemplateField} (filled : Values)
    (hf : f ∈ fields) (hkind : fieldKind f ≠ .signature) :
    supplied (onFinish fields filled) f = shown filled f.id := by
  unfold supplied shown
  rw [onFinish_apply, if_pos ⟨f, hf, hkind, rfl⟩]
  unfold sent
  cases hfilled : filled f.id with
  | none => rfl
  | some v =>
      by_cases hv : v = []
      · subst hv
        rfl
      · simp [hv]

/-! ## The two checks -/

/-- A choice the sender did not offer has a complaint of its own. -/
theorem choiceProblem_ne_none (P : Platform) (type : FieldType) :
    (match FIELD_VALUE_RULES P type with
      | some rule => some rule.hint
      | none => some (js "Choose one of the offered options")) ≠ none := by
  cases FIELD_VALUE_RULES P type <;> exact Option.some_ne_none _

/-- The page refuses a value exactly where the server's loop does. -/
theorem fieldProblem_eq_none_iff {P : Platform} {clientValues : Values} {f : TemplateField}
    {value : JsString} (hvalue : supplied clientValues f = trim value) :
    fieldProblem P f value = none ↔
      (Typed f = true → supplied clientValues f ≠ [] → Passes P clientValues f) := by
  unfold fieldProblem Passes offered CHOICE_KINDS
  rw [hvalue]
  by_cases hkind : fieldKind f = .input
  · have htyped := (fieldKind_input_iff f).mp hkind
    rw [if_neg (by simpa using hkind)]
    by_cases hempty : trim value = []
    · simp [hempty]
    · simp only [htyped, ne_eq, hempty, not_false_eq_true, true_implies]
      rw [if_neg not_false]
      cases hchoice : (f.type == .dropdown || f.type == .radio) with
      | false => simp
      | true =>
          cases hoption : (f.options.getD []).contains (trim value) with
          | false => simpa using choiceProblem_ne_none P f.type
          | true => simp
  · -- Neither side looks at what nobody types.
    have htyped : ¬ Typed f = true := fun h => hkind ((fieldKind_input_iff f).mpr h)
    rw [if_pos (by simpa using hkind)]
    simp [htyped]

theorem unsignedFields_eq (fields : List TemplateField) (filled : Values) :
    unsignedFields fields filled = fields.filter fun f =>
      f.required && fieldKind f != .auto && shown filled f.id == [] := by
  rw [← filterIdx_eq]
  unfold unsignedFields fieldKey
  congr 1
  funext f i
  cases f.required <;> cases hkind : fieldKind f <;> simp

theorem invalidFields_eq (P : Platform) (fields : List TemplateField) (filled : Values) :
    invalidFields P fields filled =
      fields.filter fun f => fieldProblem P f ((filled f.id).getD []) != none :=
  filterIdx_eq (fun f => fieldProblem P f ((filled f.id).getD []) != none) fields

/-- The required boxes the page reports, signature boxes aside, are the ones the server misses. -/
theorem unsigned_ids (P : Platform) (fields : List TemplateField) (filled : Values)
    (signedAt : Int) :
    ((unsignedFields fields filled).filter fun f => fieldKind f != .signature).map (·.id) =
      (resolveFieldValues P fields (onFinish fields filled) signedAt).missingRequired := by
  rw [unsignedFields_eq, missingRequired_eq, List.filter_filter]
  congr 1
  refine List.filter_congr fun f hf => ?_
  cases hkind : fieldKind f with
  | signature =>
      have himage := (fieldKind_signature_iff f).mp hkind
      simp [Typed, himage]
  | auto =>
      have hauto := (fieldKind_auto_iff f).mp hkind
      simp [Typed, hauto]
  | input =>
      have htyped := (fieldKind_input_iff f).mp hkind
      have hread := supplied_onFinish filled hf (by simp [hkind])
      have hsignature : (FieldKind.input != .signature) = true := rfl
      have hauto : (FieldKind.input != .auto) = true := rfl
      simp [htyped, hread, hsignature, hauto, Bool.and_comm]

/-- The boxes the page refuses are the ones the server refuses. -/
theorem invalid_ids (P : Platform) (fields : List TemplateField) (filled : Values) (signedAt : Int) :
    ((invalidFields P fields filled).filter fun f => fieldKind f != .signature).map (·.id) =
      (resolveFieldValues P fields (onFinish fields filled) signedAt).invalid := by
  rw [invalidFields_eq, invalid_eq, List.filter_filter]
  congr 1
  refine List.filter_congr fun f hf => ?_
  by_cases hkind : fieldKind f = .signature
  · have himage := (fieldKind_signature_iff f).mp hkind
    simp [hkind, Typed, himage]
  · have hproblem := fieldProblem_eq_none_iff (P := P) (supplied_onFinish filled hf hkind)
    rw [Bool.eq_iff_iff]
    simp only [Bool.and_eq_true, bne_iff_ne, ne_eq, hkind, not_false_eq_true, true_and, hproblem,
      Bool.not_eq_true', decide_eq_false_iff_not]
    tauto

theorem blockingFields_eq_nil_iff (P : Platform) (fields : List TemplateField) (filled : Values) :
    blockingFields P fields filled = [] ↔
      unsignedFields fields filled = [] ∧ invalidFields P fields filled = [] := by
  unfold blockingFields
  constructor
  · intro h
    simp only [List.filter_eq_nil_iff, Bool.or_eq_true, not_or, List.contains_iff_mem] at h
    constructor
    · refine List.eq_nil_iff_forall_not_mem.mpr fun f hf => (h f ?_).1 hf
      rw [unsignedFields_eq] at hf
      exact (List.mem_filter.mp hf).1
    · refine List.eq_nil_iff_forall_not_mem.mpr fun f hf => (h f ?_).2 hf
      rw [invalidFields_eq] at hf
      exact (List.mem_filter.mp hf).1
  · rintro ⟨hunsigned, hinvalid⟩
    simp [hunsigned, hinvalid]

/-- **The page and the server agree.**  Signature boxes aside, the empty required boxes and the refused
boxes the page reports are, in order, what the server finds missing and invalid in the values the page
sends; so a page that offers Finish sends values the server accepts. -/
theorem ceremony_agrees (P : Platform) (fields : List TemplateField) (filled : Values)
    (signedAt : Int) :
    let resolved := resolveFieldValues P fields (onFinish fields filled) signedAt
    ((unsignedFields fields filled).filter fun f => fieldKind f != .signature).map (·.id) =
        resolved.missingRequired ∧
      ((invalidFields P fields filled).filter fun f => fieldKind f != .signature).map (·.id) =
        resolved.invalid ∧
      (canFinish P fields filled = true → resolved.accepted = true) := by
  intro resolved
  have hmissing := unsigned_ids P fields filled signedAt
  have hinvalid := invalid_ids P fields filled signedAt
  refine ⟨hmissing, hinvalid, fun hfinish => ?_⟩
  have hnil : blockingFields P fields filled = [] := by
    simpa [canFinish] using hfinish
  obtain ⟨hunsigned, hrefused⟩ := (blockingFields_eq_nil_iff P fields filled).mp hnil
  rw [hunsigned] at hmissing
  rw [hrefused] at hinvalid
  have h1 : resolved.missingRequired = [] := hmissing.symm
  have h2 : resolved.invalid = [] := hinvalid.symm
  simp [ResolvedFieldValues.accepted, h1, h2]

end ESignSoft.Signing.Ceremony
