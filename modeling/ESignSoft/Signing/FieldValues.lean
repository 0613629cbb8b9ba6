import ESignSoft.Contracts.Fields
import Mathlib.Logic.Function.Basic
import Mathlib.Data.List.Induction

/-!
# Deciding what text is stamped

`resolveFieldValues` merges what the client submitted with what the server knows, in one pass over the
signer's fields that writes into a record keyed by field id.

* `invalid_eq` and `missingRequired_eq` — the two lists of complaints, as parts of the layout;
* `invalid_eq_nil_iff` and `missingRequired_eq_nil_iff` — what acceptance says about every field;
* `values_eq_lastWriter` — an accepted record holds, under each id, what the last field that writes
  under it writes.
-/

namespace ESignSoft.Signing

open ESignSoft.Lib.JsText ESignSoft.Lib.JsDate ESignSoft.Contracts

/-- A record of strings keyed by field id. -/
abbrev Values := JsString → Option JsString

def IMAGE_KINDS (t : FieldType) : Bool := t == .signature || t == .initial || t == .stamp

def AUTO_KINDS (t : FieldType) : Bool := t == .date

def CHOICE_KINDS (t : FieldType) : Bool := t == .dropdown || t == .radio

/-- The server's own value for an auto field. -/
def autoValue (type : FieldType) (signedAt : Int) : JsString :=
  if type = .date then (toISOString signedAt).take 10 else []

structure ResolvedFieldValues where
  values : Values
  missingRequired : List JsString
  invalid : List JsString

/-- What the client sent for a field, trimmed; nothing is the empty string. -/
def supplied (clientValues : Values) (field : TemplateField) : JsString :=
  match clientValues field.id with
  | some value => trim value
  | none => []

/-- A choice field only holds an option the sender offered. -/
def offered (field : TemplateField) (value : JsString) : Bool :=
  !CHOICE_KINDS field.type || (field.options.getD []).contains value

/-- The body of the loop, for one field. -/
def resolveField (P : Platform) (clientValues : Values) (signedAt : Int) (r : ResolvedFieldValues)
    (field : TemplateField) : ResolvedFieldValues :=
  if IMAGE_KINDS field.type then r
  else if AUTO_KINDS field.type then
    { r with values := Function.update r.values field.id (some (autoValue field.type signedAt)) }
  else if FIELD_VALUE_RULES P field.type = none then r
  else
    let value := supplied clientValues field
    if value = [] then
      if field.required then { r with missingRequired := r.missingRequired ++ [field.id] } else r
    else if !offered field value || fieldValueProblem P field.type value != none then
      { r with invalid := r.invalid ++ [field.id] }
    else { r with values := Function.update r.values field.id (some value) }

def resolveFieldValues (P : Platform) (fields : List TemplateField) (clientValues : Values)
    (signedAt : Int) : ResolvedFieldValues :=
  fields.foldl (resolveField P clientValues signedAt) ⟨fun _ => none, [], []⟩

/-- What `submit` lets through. -/
def ResolvedFieldValues.accepted (r : ResolvedFieldValues) : Bool :=
  r.missingRequired.isEmpty && r.invalid.isEmpty

/-! ## One pass, field by field -/

/-- A field the signer fills: it has a rule. -/
def Typed (field : TemplateField) : Bool := !IMAGE_KINDS field.type && !AUTO_KINDS field.type

theorem not_image_of_typed {field : TemplateField} (h : Typed field = true) :
    IMAGE_KINDS field.type = false := by
  simp only [Typed, Bool.and_eq_true, Bool.not_eq_true'] at h
  exact h.1

theorem not_auto_of_typed {field : TemplateField} (h : Typed field = true) :
    AUTO_KINDS field.type = false := by
  simp only [Typed, Bool.and_eq_true, Bool.not_eq_true'] at h
  exact h.2

theorem rule_eq_none_iff (P : Platform) (type : FieldType) :
    FIELD_VALUE_RULES P type = none ↔ (IMAGE_KINDS type || AUTO_KINDS type) = true := by
  cases type <;> simp [FIELD_VALUE_RULES, IMAGE_KINDS, AUTO_KINDS]

/-- What the client sent for a field depends on the field's id only. -/
theorem supplied_congr (clientValues : Values) {f g : TemplateField} (h : f.id = g.id) :
    supplied clientValues f = supplied clientValues g := by
  unfold supplied
  rw [h]

/-- The value the client sent for the field passes its checks. -/
def Passes (P : Platform) (clientValues : Values) (field : TemplateField) : Prop :=
  offered field (supplied clientValues field) = true ∧
    fieldValueProblem P field.type (supplied clientValues field) = none

/-- A field that writes into the record: Date Signed, or a field the signer filled. -/
def writes (clientValues : Values) (field : TemplateField) : Bool :=
  AUTO_KINDS field.type || (Typed field && supplied clientValues field != [])

/-- What a field that writes into the record writes there. -/
def written (clientValues : Values) (signedAt : Int) (field : TemplateField) : JsString :=
  if AUTO_KINDS field.type then autoValue field.type signedAt else supplied clientValues field

/-- The last of the fields to write under an id. -/
def lastWriter (fields : List TemplateField) (clientValues : Values) (id : JsString) :
    Option TemplateField :=
  (fields.filter fun f => f.id == id && writes clientValues f).getLast?

/-- The loop body by cases: an image field, Date Signed, an empty field, a refused one, a stored one. -/
theorem resolveField_cases (P : Platform) (clientValues : Values) (signedAt : Int)
    (r : ResolvedFieldValues) (field : TemplateField) :
    (IMAGE_KINDS field.type = true ∧ resolveField P clientValues signedAt r field = r) ∨
    (AUTO_KINDS field.type = true ∧ resolveField P clientValues signedAt r field =
      { r with values := Function.update r.values field.id (some (autoValue field.type signedAt)) }) ∨
    (Typed field = true ∧ supplied clientValues field = [] ∧
      resolveField P clientValues signedAt r field =
        if field.required then { r with missingRequired := r.missingRequired ++ [field.id] } else r) ∨
    (Typed field = true ∧ supplied clientValues field ≠ [] ∧ ¬ Passes P clientValues field ∧
      resolveField P clientValues signedAt r field = { r with invalid := r.invalid ++ [field.id] }) ∨
    (Typed field = true ∧ supplied clientValues field ≠ [] ∧ Passes P clientValues field ∧
      resolveField P clientValues signedAt r field =
        { r with values :=
            Function.update r.values field.id (some (supplied clientValues field)) }) := by
  unfold resolveField
  by_cases himage : IMAGE_KINDS field.type = true
  · exact Or.inl ⟨himage, by rw [if_pos himage]⟩
  · by_cases hauto : AUTO_KINDS field.type = true
    · exact Or.inr (Or.inl ⟨hauto, by rw [if_neg himage, if_pos hauto]⟩)
    · have htyped : Typed field = true := by simp [Typed, himage, hauto]
      have hrule : FIELD_VALUE_RULES P field.type ≠ none := by
        rw [Ne, rule_eq_none_iff]
        simp [himage, hauto]
      simp only [if_neg himage, if_neg hauto, if_neg hrule]
      by_cases hempty : supplied clientValues field = []
      · exact Or.inr (Or.inr (Or.inl ⟨htyped, hempty, by rw [if_pos hempty]⟩))
      · simp only [if_neg hempty]
        by_cases hpasses : Passes P clientValues field
        · refine Or.inr (Or.inr (Or.inr (Or.inr ⟨htyped, hempty, hpasses, ?_⟩)))
          simp [hpasses.1, hpasses.2]
        · refine Or.inr (Or.inr (Or.inr (Or.inl ⟨htyped, hempty, hpasses, ?_⟩)))
          rw [if_pos]
          unfold Passes at hpasses
          simp only [Bool.or_eq_true, Bool.not_eq_true', bne_iff_ne, ne_eq]
          grind

/-- The pass over one more field. -/
theorem resolveFieldValues_concat (P : Platform) (fields : List TemplateField) (field : TemplateField)
    (clientValues : Values) (signedAt : Int) :
    resolveFieldValues P (fields ++ [field]) clientValues signedAt =
      resolveField P clientValues signedAt (resolveFieldValues P fields clientValues signedAt)
        field := by
  simp [resolveFieldValues]

instance (P : Platform) (clientValues : Values) (field : TemplateField) :
    Decidable (Passes P clientValues field) :=
  inferInstanceAs (Decidable (_ ∧ _))

/-- The refused fields, in the order of the layout. -/
theorem invalid_eq (P : Platform) (fields : List TemplateField) (clientValues : Values)
    (signedAt : Int) :
    (resolveFieldValues P fields clientValues signedAt).invalid =
      (fields.filter fun f => Typed f && supplied clientValues f != [] &&
        !decide (Passes P clientValues f)).map (·.id) := by
  induction fields using List.reverseRecOn with
  | nil => rfl
  | append_singleton fields field ih =>
      rw [resolveFieldValues_concat, List.filter_append, List.map_append, ← ih]
      rcases resolveField_cases P clientValues signedAt
          (resolveFieldValues P fields clientValues signedAt) field with
        ⟨himage, heq⟩ | ⟨hauto, heq⟩ | ⟨-, hempty, heq⟩ | ⟨htyped, hfilled, hfails, heq⟩ |
          ⟨-, -, hpasses, heq⟩
      · simp [heq, Typed, himage]
      · simp [heq, Typed, hauto]
      · rw [heq]
        split <;> simp [hempty]
      · simp [heq, htyped, hfilled, hfails]
      · simp [heq, hpasses]

/-- The required fields left empty, in the order of the layout. -/
theorem missingRequired_eq (P : Platform) (fields : List TemplateField) (clientValues : Values)
    (signedAt : Int) :
    (resolveFieldValues P fields clientValues signedAt).missingRequired =
      (fields.filter fun f => Typed f && supplied clientValues f == [] && f.required).map
        (·.id) := by
  induction fields using List.reverseRecOn with
  | nil => rfl
  | append_singleton fields field ih =>
      rw [resolveFieldValues_concat, List.filter_append, List.map_append, ← ih]
      rcases resolveField_cases P clientValues signedAt
          (resolveFieldValues P fields clientValues signedAt) field with
        ⟨himage, heq⟩ | ⟨hauto, heq⟩ | ⟨htyped, hempty, heq⟩ | ⟨-, hfilled, -, heq⟩ |
          ⟨-, hfilled, -, heq⟩
      · simp [heq, Typed, himage]
      · simp [heq, Typed, hauto]
      · rw [heq]
        cases hrequired : field.required <;> simp [htyped, hempty, hrequired]
      · simp [heq, hfilled]
      · simp [heq, hfilled]

theorem invalid_eq_nil_iff (P : Platform) (fields : List TemplateField) (clientValues : Values)
    (signedAt : Int) :
    (resolveFieldValues P fields clientValues signedAt).invalid = [] ↔
      ∀ f ∈ fields, Typed f = true → supplied clientValues f ≠ [] → Passes P clientValues f := by
  simp only [invalid_eq, List.map_eq_nil_iff, List.filter_eq_nil_iff, Bool.and_eq_true,
    Bool.not_eq_true', bne_iff_ne, decide_eq_false_iff_not, and_imp, not_and, not_not]

theorem missingRequired_eq_nil_iff (P : Platform) (fields : List TemplateField) (clientValues : Values)
    (signedAt : Int) :
    (resolveFieldValues P fields clientValues signedAt).missingRequired = [] ↔
      ∀ f ∈ fields, Typed f = true → supplied clientValues f = [] → f.required = false := by
  simp only [missingRequired_eq, List.map_eq_nil_iff, List.filter_eq_nil_iff, Bool.and_eq_true,
    beq_iff_eq, and_imp, Bool.not_eq_true, not_and]

/-- **The record, id by id.**  When nothing is refused, an id holds what the last field to write under
it writes, and nothing where no field does. -/
theorem values_eq_lastWriter {P : Platform} {fields : List TemplateField} {clientValues : Values}
    {signedAt : Int}
    (hvalid : ∀ f ∈ fields, Typed f = true → supplied clientValues f ≠ [] → Passes P clientValues f)
    (id : JsString) :
    (resolveFieldValues P fields clientValues signedAt).values id =
      (lastWriter fields clientValues id).map (written clientValues signedAt) := by
  induction fields using List.reverseRecOn with
  | nil => rfl
  | append_singleton fields field ih =>
      have ih := ih fun f hf => hvalid f (List.mem_append_left _ hf)
      -- The last writer of the longer list is the new field when it writes under this id.
      have hlast : lastWriter (fields ++ [field]) clientValues id =
          if field.id = id ∧ writes clientValues field = true then some field
          else lastWriter fields clientValues id := by
        unfold lastWriter
        rw [List.filter_append]
        by_cases hw : field.id = id ∧ writes clientValues field = true
        · simp [hw.1, hw.2]
        · rw [if_neg hw]
          have hnil : [field].filter (fun f => f.id == id && writes clientValues f) = [] := by
            simpa using hw
          rw [hnil, List.append_nil]
      rw [resolveFieldValues_concat, hlast]
      rcases resolveField_cases P clientValues signedAt
          (resolveFieldValues P fields clientValues signedAt) field with
        ⟨himage, heq⟩ | ⟨hauto, heq⟩ | ⟨htyped, hempty, heq⟩ | ⟨htyped, hfilled, hfails, -⟩ |
          ⟨htyped, hfilled, -, heq⟩
      · have hauto : AUTO_KINDS field.type = false := by
          revert himage
          cases field.type <;> simp [IMAGE_KINDS, AUTO_KINDS]
        rw [heq, ih]
        simp [writes, Typed, himage, hauto]
      · rw [heq]
        by_cases hid : field.id = id
        · subst hid
          simp [writes, written, hauto]
        · simp [hid, Function.update_of_ne (Ne.symm hid), ih]
      · have hnot : writes clientValues field = false := by
          simp [writes, hempty, not_auto_of_typed htyped]
        rw [heq]
        split <;> simp [hnot, ih]
      · exact absurd (hvalid field (by simp) htyped hfilled) hfails
      · have hnot : AUTO_KINDS field.type = false := not_auto_of_typed htyped
        rw [heq]
        by_cases hid : field.id = id
        · subst hid
          simp [writes, written, hnot, htyped, hfilled]
        · simp [hid, Function.update_of_ne (Ne.symm hid), ih]

end ESignSoft.Signing
