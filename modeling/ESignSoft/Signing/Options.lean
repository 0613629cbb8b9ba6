import ESignSoft.Signing.Ceremony
import ESignSoft.Signing.PrintedText

/-!
# Choosing an offered option

A choice box holds one of the sender's options as the sender wrote it.  The page and the server look up
what is left of it after trimming, in the list that is not trimmed.

* `values_of_only` — what the record holds for a typed field;
* `option_chosen_iff` — an option can be chosen exactly when it has no blank at either end;
* `padded_option_refused` — an option that the page refuses.
-/

namespace ESignSoft.Signing

open ESignSoft.Lib.JsText ESignSoft.Contracts Ceremony

theorem resolveField_values_other (P : Platform) (clientValues : Values) (signedAt : Int)
    (r : ResolvedFieldValues) {field : TemplateField} {id : JsString} (h : id ≠ field.id) :
    (resolveField P clientValues signedAt r field).values id = r.values id := by
  rcases resolveField_cases P clientValues signedAt r field with
    ⟨-, heq⟩ | ⟨-, heq⟩ | ⟨-, -, heq⟩ | ⟨-, -, -, heq⟩ | ⟨-, -, -, heq⟩
  · rw [heq]
  · rw [heq]
    exact Function.update_of_ne h _ _
  · rw [heq]
    split <;> rfl
  · rw [heq]
  · rw [heq]
    exact Function.update_of_ne h _ _

/-- A typed field that shares its id with no other holds what was sent for it, if that passes. -/
theorem values_of_only {P : Platform} {fields : List TemplateField} {f : TemplateField}
    (clientValues : Values) (signedAt : Int) (htyped : Typed f = true)
    (honly : ∀ g ∈ fields, g.id = f.id → g = f) :
    (resolveFieldValues P fields clientValues signedAt).values f.id =
      if f ∈ fields ∧ supplied clientValues f ≠ [] ∧ Passes P clientValues f then
        some (supplied clientValues f)
      else none := by
  induction fields using List.reverseRecOn with
  | nil => rw [if_neg fun h => List.not_mem_nil h.1]; rfl
  | append_singleton fields g ih =>
      have ih := ih fun g' hg' => honly g' (List.mem_append_left _ hg')
      rw [resolveFieldValues_concat]
      by_cases hid : g.id = f.id
      · obtain rfl := honly g (by simp) hid
        have hlast : g ∈ fields ++ [g] := by simp
        rcases resolveField_cases P clientValues signedAt
            (resolveFieldValues P fields clientValues signedAt) g with
          ⟨himage, -⟩ | ⟨hauto, -⟩ | ⟨-, hempty, heq⟩ | ⟨-, -, hfails, heq⟩ | ⟨-, hfilled, hpasses, heq⟩
        · rw [not_image_of_typed htyped] at himage
          cases himage
        · rw [not_auto_of_typed htyped] at hauto
          cases hauto
        · have hkept : (if g.required then
              { resolveFieldValues P fields clientValues signedAt with
                missingRequired := (resolveFieldValues P fields clientValues signedAt).missingRequired ++ [g.id] }
              else resolveFieldValues P fields clientValues signedAt).values =
              (resolveFieldValues P fields clientValues signedAt).values := by
            split <;> rfl
          rw [heq, hkept, ih, if_neg fun h => h.2.1 hempty, if_neg fun h => h.2.1 hempty]
        · rw [heq, if_neg fun h => hfails h.2.2]
          exact ih.trans (if_neg fun h => hfails h.2.2)
        · rw [heq, if_pos ⟨hlast, hfilled, hpasses⟩]
          exact Function.update_self _ _ _
      · rw [resolveField_values_other P clientValues signedAt _ (Ne.symm hid), ih]
        have hmem : f ∈ fields ++ [g] ↔ f ∈ fields := by
          rw [List.mem_append, List.mem_singleton, or_iff_left]
          rintro rfl
          exact hid rfl
        simp only [hmem]

/-! ## Choosing an option -/

/-- The page has nothing against the option, the box counts as filled, and the server neither misses nor
refuses it and stores that option. -/
structure Chosen (P : Platform) (fields : List TemplateField) (filled : Values) (signedAt : Int)
    (f : TemplateField) (option : JsString) : Prop where
  noProblem : fieldProblem P f option = none
  signed : f ∉ unsignedFields fields filled
  notMissing : f.id ∉ (resolveFieldValues P fields (onFinish fields filled) signedAt).missingRequired
  notInvalid : f.id ∉ (resolveFieldValues P fields (onFinish fields filled) signedAt).invalid
  stored : (resolveFieldValues P fields (onFinish fields filled) signedAt).values f.id = some option

theorem choice_rule (P : Platform) {f : TemplateField} (h : CHOICE_KINDS f.type = true) :
    FIELD_VALUE_RULES P f.type = some choice := by
  cases htype : f.type <;> simp [CHOICE_KINDS, htype] at h <;> rfl

theorem typed_of_choice {f : TemplateField} (h : CHOICE_KINDS f.type = true) : Typed f = true := by
  cases htype : f.type <;> simp [CHOICE_KINDS, htype] at h <;>
    simp [Typed, IMAGE_KINDS, Signing.AUTO_KINDS, htype]

/-- An option as the schema has it. -/
theorem option_length {P : Platform} {f : TemplateField} (hschema : TemplateFieldSchema P f = true)
    {option : JsString} (ho : option ∈ f.options.getD []) : 1 ≤ option.length ∧ option.length ≤ 120 := by
  simp only [TemplateFieldSchema, Bool.and_eq_true] at hschema
  have hall := hschema.1.1.2
  cases hoptions : f.options with
  | none =>
      rw [hoptions] at ho
      exact absurd ho List.not_mem_nil
  | some options =>
      rw [hoptions] at ho hall
      simp only [Option.all_some, Bool.and_eq_true, List.all_eq_true] at hall
      have hone := hall.2 option ho
      simpa using hone

/-- **An option can be chosen exactly when trimming leaves it as it is.** -/
theorem option_chosen_iff {P : Platform} {fields : List TemplateField} {f : TemplateField} (signedAt : Int)
    {filled : Values} {option : JsString} (hschema : TemplateFieldSchema P f = true)
    (hchoice : CHOICE_KINDS f.type = true) (ho : option ∈ f.options.getD []) (hf : f ∈ fields)
    (honly : ∀ g ∈ fields, g.id = f.id → g = f) (hfilled : filled f.id = some option) :
    Chosen P fields filled signedAt f option ↔ trim option = option := by
  have htyped := typed_of_choice hchoice
  have hinput := (fieldKind_input_iff f).mpr htyped
  have hshown : shown filled f.id = trim option := by rw [shown, hfilled, Option.getD_some]
  have hsupplied : supplied (onFinish fields filled) f = trim option := by
    rw [supplied_onFinish filled hf (by simp [hinput]), hshown]
  have hvalues := values_of_only (P := P) (onFinish fields filled) signedAt htyped honly
  rw [hsupplied] at hvalues
  -- The page sends the option trimmed, and what is sent is what is stored.
  constructor
  · intro hchosen
    have hstored := hchosen.stored
    rw [hvalues] at hstored
    split at hstored
    · exact Option.some.inj hstored
    · cases hstored
  · intro htrim
    obtain ⟨hlow, hhigh⟩ := option_length hschema ho
    have hne : option ≠ [] := fun h => by
      rw [h] at hlow
      exact absurd hlow (by decide)
    have hproblem : fieldValueProblem P f.type option = none := by
      unfold fieldValueProblem
      rw [choice_rule P hchoice]
      simp only [htrim, if_neg hne]
      have hvalid : choice.valid option = true := rfl
      have hmax : ¬ option.length > choice.max := not_lt.mpr hhigh
      simp [hvalid, hmax]
    have hpasses : Passes P (onFinish fields filled) f := by
      unfold Passes offered
      rw [hsupplied, htrim]
      refine ⟨?_, hproblem⟩
      rw [hchoice, Bool.not_true, Bool.false_or, List.contains_iff_mem]
      exact ho
    rw [htrim] at hsupplied hvalues hshown
    refine ⟨?_, ?_, ?_, ?_, ?_⟩
    · exact (fieldProblem_eq_none_iff (hsupplied.trans htrim.symm)).mpr fun _ _ => hpasses
    · rw [unsignedFields_eq, List.mem_filter]
      rintro ⟨-, h⟩
      simp [hshown, hne] at h
    · rw [missingRequired_eq, List.mem_map]
      rintro ⟨g, hg, hid⟩
      obtain ⟨hg, hempty⟩ := List.mem_filter.mp hg
      obtain rfl := honly g hg hid
      simp [hsupplied, hne] at hempty
    · rw [invalid_eq, List.mem_map]
      rintro ⟨g, hg, hid⟩
      obtain ⟨hg, hfails⟩ := List.mem_filter.mp hg
      obtain rfl := honly g hg hid
      simp [hpasses] at hfails
    · rw [hvalues, if_pos ⟨hf, hne, hpasses⟩]

/-! ## Two answers -/

/-- A dropdown with two options, one of them with a blank before it. -/
def answerField : TemplateField := boxField .dropdown (some [js " Yes", js "No"])

theorem option_chosen_plain :
    Chosen boxPlatform [answerField] (fun _ => some (js "No")) 0 answerField (js "No") := by
  have hschema : TemplateFieldSchema boxPlatform answerField = true := by decide +kernel
  have ho : js "No" ∈ answerField.options.getD [] := by decide +kernel
  have htrim : trim (js "No") = js "No" := by decide +kernel
  exact (option_chosen_iff 0 hschema rfl ho (List.mem_singleton_self _)
    (fun _ hg _ => List.mem_singleton.mp hg) rfl).mpr htrim

/-- The page refuses the other option with "Choose one of the offered options". -/
theorem padded_option_refused :
    ¬ ∀ (P : Platform) (fields : List TemplateField) (f : TemplateField) (signedAt : Int) (filled : Values)
      (option : JsString), TemplateFieldSchema P f = true → CHOICE_KINDS f.type = true →
        option ∈ f.options.getD [] → f ∈ fields → (∀ g ∈ fields, g.id = f.id → g = f) →
          filled f.id = some option → Chosen P fields filled signedAt f option := by
  intro h
  have hchosen := h boxPlatform [answerField] answerField 0 (fun _ => some (js " Yes")) (js " Yes")
    (by decide +kernel) rfl (by decide +kernel) (List.mem_singleton_self _)
    (fun _ hg _ => List.mem_singleton.mp hg) rfl
  have hrefused : fieldProblem boxPlatform answerField (js " Yes") ≠ none := by decide +kernel
  exact hrefused hchosen.noProblem

end ESignSoft.Signing
