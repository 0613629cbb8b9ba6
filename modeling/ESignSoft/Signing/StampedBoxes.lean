import ESignSoft.Signing.PrintedValues

/-!
# Whether each box shows only what its own field admits

Values are checked field by field but stored under the field's id, and nothing keeps two fields of a
layout from sharing one.  A field that comes later then overwrites what an earlier one with its id
stored, Date Signed included; and a stored value is printed in the characters of the PDF font, which
need not be one the field admits any more.

* `Undisturbed` — what keeps both from happening, said of the fields and of what was submitted;
* `stamped_boxes_own_iff` — for every list of fields and every accepted submission, the boxes show only
  what their fields admit exactly then;
* `date_box_overwritten` — a submission that has Date Signed print a text of the client's.
-/

namespace ESignSoft.Signing

open ESignSoft.Lib.JsText ESignSoft.Lib.JsDate ESignSoft.Contracts

/-- The date the server stamps. -/
def signingDate (signedAt : Int) : JsString := autoValue .date signedAt

/-- The texts a field admits in its box.  A ticked checkbox is shown as `X`. -/
def Admits (P : Platform) (signedAt : Int) (field : TemplateField) (text : JsString) : Prop :=
  match field.type with
  | .date => text = signingDate signedAt
  | .dropdown | .radio => text ∈ field.options.getD []
  | .checkbox => text = js "X"
  | _ => fieldValueProblem P field.type text = none

/-- Every box on a page that exists shows a text its field admits, or nothing where the field is
optional and was left empty. -/
def ShowsOwn (P : Platform) (pages : List Page) (own : List TemplateField) (clientValues : Values)
    (signedAt : Int) (stamps : List Stamp) : Prop :=
  ∀ f ∈ own, IMAGE_KINDS f.type = false → (pageOf pages f).isSome →
    (∀ text, Prints stamps f text → Admits P signedAt f text) ∧
      ((∃ text, Prints stamps f text) ∨
        (Typed f = true ∧ f.required = false ∧ supplied clientValues f = []))

/-- One of the fields under this id is Date Signed. -/
def sharesDate (own : List TemplateField) (id : JsString) : Bool :=
  own.any fun f => f.id == id && AUTO_KINDS f.type

/-- The submission without unknown keys and without values for Date Signed fields. -/
def knownOnly (own : List TemplateField) (clientValues : Values) : Values := fun id =>
  if (own.any fun f => f.id == id) && !sharesDate own id then clientValues id else none

/-- Every address the library accepts has an `@`. -/
def AddressesHaveAt (P : Platform) : Prop := ∀ v, P.email v = true → 0x40 ∈ v

/-- The boxes a signing date may stand in: those for any text and for a phone number, a calendar date in
range, a choice that offers it.  A box to tick has to be left alone. -/
def TakesDate (clientValues : Values) (signedAt : Int) (f : TemplateField) : Prop :=
  match f.type with
  | .company | .title | .text | .address | .phone => True
  | .date_input => isCalendarDate (signingDate signedAt) = true
  | .dropdown | .radio => signingDate signedAt ∈ f.options.getD []
  | .checkbox => supplied clientValues f = []
  | _ => False

/-- A valid value is still one on the page.  Free text needs room for the points of its ellipses; a choice
is made of Latin characters, or comes out as another option of the field; the other boxes take nothing that
could change. -/
def PrintsWithin (f : TemplateField) (v : JsString) : Prop :=
  match f.type with
  | .company => v.length + 2 * v.count 0x2026 ≤ 200
  | .title => v.length + 2 * v.count 0x2026 ≤ 120
  | .text => v.length + 2 * v.count 0x2026 ≤ 500
  | .address => v.length + 2 * v.count 0x2026 ≤ 300
  | .dropdown | .radio =>
      (∀ u ∈ v, isLatin u.toNat) ∨ ∃ option ∈ f.options.getD [], option ≠ v ∧ RespelledAs v option
  | _ => True

/-- What has to be so of the fields and of what was submitted for them.  Under each id, what counts is the
last field that is Date Signed or filled. -/
structure Undisturbed (pages : List Page) (own : List TemplateField) (clientValues : Values)
    (signedAt : Int) : Prop where
  /-- A value that overwrites Date Signed is the signing date. -/
  overwritten : ∀ f ∈ own, IMAGE_KINDS f.type = false → (pageOf pages f).isSome →
    ∀ w, lastWriter own clientValues f.id = some w → Typed w = true → sharesDate own f.id = true →
      WritesDate (supplied clientValues f) (signingDate signedAt)
  /-- Where Date Signed comes last, the typed boxes under its id are of kinds that take the signing date. -/
  dated : ∀ f ∈ own, Typed f = true → (pageOf pages f).isSome →
    ∀ w, lastWriter own clientValues f.id = some w → AUTO_KINDS w.type = true →
      TakesDate clientValues signedAt f
  /-- A value that was filled in keeps within its box on the page. -/
  filled : ∀ f ∈ own, Typed f = true → (pageOf pages f).isSome →
    ∀ w, lastWriter own clientValues f.id = some w → Typed w = true →
      PrintsWithin f (supplied clientValues f)

/-! ## The signing date -/

/-- Year, month and day; a year that takes more than four digits leaves no room for the day. -/
theorem signingDate_cases (signedAt : Int) :
    (∃ year month date, signingDate signedAt = padded 4 year ++ 0x2D :: (padded 2 month ++ 0x2D :: padded 2 date)) ∨
      ∃ sign ∈ [(0x2B : UInt16), 0x2D], ∃ year month,
        signingDate signedAt = sign :: (padded 6 year ++ 0x2D :: padded 2 month) := by
  have hhyphen : js "-" = [0x2D] := by decide
  have hplus : js "+" = [0x2B] := by decide
  have hdate : signingDate signedAt = (toISOString signedAt).take 10 := by
    unfold signingDate autoValue
    rw [if_pos rfl]
  rw [hdate]
  unfold toISOString isoYear
  generalize getUTCFullYear signedAt = year, (getUTCMonth signedAt + 1).toNat = month,
    (getUTCDate signedAt).toNat = date
  simp only [hhyphen, hplus, List.append_assoc]
  split
  · refine Or.inl ⟨year.toNat, month, date, ?_⟩
    have hsplit (rest : JsString) :
        padded 4 year.toNat ++ ([0x2D] ++ (padded 2 month ++ ([0x2D] ++ (padded 2 date ++ rest)))) =
          (padded 4 year.toNat ++ 0x2D :: (padded 2 month ++ 0x2D :: padded 2 date)) ++ rest := by
      simp
    rw [hsplit, List.take_left' (by simp [length_padded])]
  · refine Or.inr ⟨if year < 0 then 0x2D else 0x2B, by split <;> simp, year.natAbs, month, ?_⟩
    have hsign : (if year < 0 then [(0x2D : UInt16)] else [0x2B]) = [if year < 0 then 0x2D else 0x2B] := by
      split <;> rfl
    have hsplit (sign : UInt16) (rest : JsString) :
        [sign] ++ padded 6 year.natAbs ++ ([0x2D] ++ (padded 2 month ++ rest)) =
          (sign :: (padded 6 year.natAbs ++ 0x2D :: padded 2 month)) ++ rest := by
      simp
    rw [hsign, hsplit, List.take_left' (by simp [length_padded])]

/-- The signing date is written in the signs of a date, and in no others. -/
theorem isDateSign_signingDate (signedAt : Int) : ∀ u ∈ signingDate signedAt, isDateSign u = true := by
  have hdigit (width n : Nat) : ∀ u ∈ padded width n, isDateSign u = true := fun u hu => by
    rw [isDateSign, isDigit_padded width n u hu]
    rfl
  have hhyphen : isDateSign 0x2D = true := by decide
  rcases signingDate_cases signedAt with ⟨year, month, date, h⟩ | ⟨sign, hsign, year, month, h⟩
  · rw [h]
    intro u hu
    simp only [List.mem_append, List.mem_cons] at hu
    rcases hu with hu | rfl | hu | rfl | hu
    · exact hdigit 4 year u hu
    · exact hhyphen
    · exact hdigit 2 month u hu
    · exact hhyphen
    · exact hdigit 2 date u hu
  · rw [h]
    intro u hu
    simp only [List.mem_append, List.mem_cons] at hu
    rcases hu with rfl | hu | rfl | hu
    · exact List.all_eq_true.mp (by decide : [(0x2B : UInt16), 0x2D].all isDateSign = true) u hsign
    · exact hdigit 6 year u hu
    · exact hhyphen
    · exact hdigit 2 month u hu

theorem bounds_of_dateSign {u : UInt16} (h : isDateSign u = true) :
    (0x30 ≤ u.toNat ∧ u.toNat ≤ 0x39) ∨ u.toNat = 0x2B ∨ u.toNat = 0x2D := by
  simpa [isDateSign, isDigit, UInt16.le_iff_toNat_le, ← UInt16.toNat_inj, or_assoc] using h

theorem countP_padded (width n : Nat) : (padded width n).countP isDigit = width := by
  rw [List.countP_eq_length.mpr (isDigit_padded width n), length_padded]

/-- The signing date has a hyphen past its first sign, and eight digits. -/
theorem signingDate_shape (signedAt : Int) :
    0x2D ∈ (signingDate signedAt).tail ∧ (signingDate signedAt).countP isDigit = 8 ∧
      ∀ u ∈ (signingDate signedAt).tail, isDigit u = true ∨ u = 0x2D := by
  have hhyphen : isDigit 0x2D = false := by decide
  rcases signingDate_cases signedAt with ⟨year, month, date, h⟩ | ⟨sign, hsign, year, month, h⟩
  · have hne : padded 4 year ≠ [] := List.ne_nil_of_length_eq_add_one (length_padded 4 year)
    rw [h]
    refine ⟨?_, by simp [countP_padded, hhyphen], fun u hu => ?_⟩
    · rw [List.tail_append_of_ne_nil hne]
      simp
    · have hu := List.mem_of_mem_tail hu
      simp only [List.mem_append, List.mem_cons] at hu
      rcases hu with hu | rfl | hu | rfl | hu
      · exact Or.inl (isDigit_padded 4 year u hu)
      · exact Or.inr rfl
      · exact Or.inl (isDigit_padded 2 month u hu)
      · exact Or.inr rfl
      · exact Or.inl (isDigit_padded 2 date u hu)
  · have hcount : isDigit sign = false := by
      simp only [List.mem_cons, List.not_mem_nil, or_false] at hsign
      rcases hsign with rfl | rfl <;> decide
    rw [h, List.tail_cons]
    refine ⟨by simp, by simp [countP_padded, hcount, hhyphen], fun u hu => ?_⟩
    simp only [List.mem_append, List.mem_cons] at hu
    rcases hu with hu | rfl | hu
    · exact Or.inl (isDigit_padded 6 year u hu)
    · exact Or.inr rfl
    · exact Or.inl (isDigit_padded 2 month u hu)

theorem length_signingDate (signedAt : Int) : (signingDate signedAt).length = 10 := by
  have h := length_toISOString signedAt
  unfold signingDate autoValue
  rw [if_pos rfl, List.length_take]
  omega

theorem toPdfSafeText_signingDate (signedAt : Int) :
    toPdfSafeText (signingDate signedAt) = signingDate signedAt := by
  refine toPdfSafeText_of_printable fun u hu => ?_
  unfold signingDate autoValue at hu
  rw [if_pos rfl] at hu
  exact printable_toISOString signedAt u (List.mem_of_mem_take hu)

theorem boxText_signingDate (signedAt : Int) (field : TemplateField) :
    boxText field (signingDate signedAt) =
      if field.type = .checkbox then none else some (signingDate signedAt) := by
  have hlength := length_signingDate signedAt
  have hnonempty : signingDate signedAt ≠ [] := by
    intro h
    rw [h] at hlength
    cases hlength
  have hticked : signingDate signedAt ≠ js "true" := by
    intro h
    rw [h] at hlength
    revert hlength
    decide
  simp only [boxText, if_neg hnonempty, if_neg hticked, toPdfSafeText_signingDate]

/-! ### What takes the signing date -/

theorem isPhone_signingDate (signedAt : Int) : isPhone (signingDate signedAt) = true := by
  obtain ⟨hhyphen, hcount, htail⟩ := signingDate_shape signedAt
  have hall := isDateSign_signingDate signedAt
  generalize signingDate signedAt = date at hhyphen hcount htail hall
  cases date with
  | nil => cases hhyphen
  | cons first rest =>
      have hrest : rest.all (fun u => isDigit u || u == 0x20 || u == 0x28 || u == 0x29 || u == 0x2D) = true := by
        refine List.all_eq_true.mpr fun u hu => ?_
        rcases htail u hu with hdigit | rfl
        · simp [hdigit]
        · decide
      have hne : rest ≠ [] := List.ne_nil_of_mem hhyphen
      unfold isPhone
      simp only [hcount]
      by_cases hplus : first = 0x2B
      · simp [hplus, hne, hrest]
      · have hfirst : (isDigit first || first == 0x20 || first == 0x28 || first == 0x29 || first == 0x2D) = true := by
          have hsign := hall first (by simp)
          simp only [isDateSign, Bool.or_eq_true, beq_iff_eq, hplus, or_false] at hsign
          rcases hsign with hdigit | rfl
          · simp [hdigit]
          · decide
        simp only [List.head?_cons, beq_iff_eq, Option.some.injEq, hplus, if_false, List.isEmpty_cons, List.all_cons,
          hfirst, hrest]
        decide

theorem not_isNumber_signingDate (signedAt : Int) : isNumber (signingDate signedAt) = false := by
  obtain ⟨hhyphen, -, -⟩ := signingDate_shape signedAt
  by_contra hnumber
  have hunits := fun u hu => units_of_unsigned (by simpa using hnumber) (u := u) hu
  have hmem : 0x2D ∈ (if (signingDate signedAt).head? == some 0x2D then (signingDate signedAt).tail
      else signingDate signedAt) := by
    split
    · exact hhyphen
    · exact List.mem_of_mem_tail hhyphen
  exact absurd (hunits 0x2D hmem) (by decide)

theorem not_personName_signingDate (signedAt : Int) : PERSON_NAME (signingDate signedAt) = false := by
  by_contra hname
  simp only [PERSON_NAME, Bool.not_eq_false, Bool.and_eq_true, List.any_eq_true] at hname
  obtain ⟨⟨u, hu, hletter⟩, -⟩ := hname
  have hsign := bounds_of_dateSign (isDateSign_signingDate signedAt u hu)
  simp only [isLatinLetter, Bool.or_eq_true, Bool.and_eq_true, decide_eq_true_eq,
    UInt16.le_iff_toNat_le, UInt16.reduceToNat] at hletter
  omega

theorem trim_signingDate (signedAt : Int) : trim (signingDate signedAt) = signingDate signedAt := by
  have hblank : ∀ u ∈ signingDate signedAt, isWhiteSpace u = false := by
    intro u hu
    have hsign := bounds_of_dateSign (isDateSign_signingDate signedAt u hu)
    rw [Bool.eq_false_iff]
    intro hwhite
    simp only [isWhiteSpace, Bool.or_eq_true, Bool.and_eq_true, decide_eq_true_eq, beq_iff_eq,
      UInt16.le_iff_toNat_le, ← UInt16.toNat_inj, UInt16.reduceToNat] at hwhite
    omega
  exact trim_eq_self_iff.mpr ⟨fun u hu => hblank u (List.mem_of_mem_head? hu),
    fun u hu => hblank u (List.mem_of_getLast? hu)⟩

theorem noProblem_signingDate_iff (P : Platform) (signedAt : Int) (type : FieldType) (rule : FieldValueRule)
    (hrule : FIELD_VALUE_RULES P type = some rule) (hmax : 10 ≤ rule.max) :
    fieldValueProblem P type (signingDate signedAt) = none ↔ rule.valid (signingDate signedAt) = true := by
  have hlength := length_signingDate signedAt
  have hne : signingDate signedAt ≠ [] := List.ne_nil_of_length_eq_add_one hlength
  rw [noProblem_iff hrule (trim_signingDate signedAt) hne, hlength, and_iff_right hmax]

/-- The boxes that admit the signing date. -/
theorem admits_signingDate_iff {P : Platform} (hat : AddressesHaveAt P) (clientValues : Values) (signedAt : Int)
    {f : TemplateField} (htyped : Typed f = true) (hcheckbox : f.type ≠ .checkbox) :
    Admits P signedAt f (signingDate signedAt) ↔ TakesDate clientValues signedAt f := by
  have hname (max : Nat) : (personName P max).valid (signingDate signedAt) = true ↔ False := by
    simp only [personName, not_personName_signingDate, Bool.false_eq_true]
  have hprintable : PRINTABLE (signingDate signedAt) = true := by
    unfold signingDate
    exact printable_autoValue .date signedAt
  have hfree (max : Nat) : (printable max).valid (signingDate signedAt) = true ↔ True := by
    simp only [printable, hprintable]
  have hproblem := noProblem_signingDate_iff P signedAt
  have hphone := isPhone_signingDate signedAt
  have hnumber := not_isNumber_signingDate signedAt
  have hsigns := isDateSign_signingDate signedAt
  unfold Admits TakesDate
  -- From here on the date is a text like any other.
  generalize signingDate signedAt = date at *
  cases htype : f.type with
  | signature | initial | stamp | date => simp [Typed, htype, IMAGE_KINDS, AUTO_KINDS] at htyped
  | checkbox => exact absurd htype hcheckbox
  | name => exact (hproblem .name (personName P 100) rfl (show 10 ≤ 100 by decide)).trans (hname 100)
  | first_name => exact (hproblem .first_name (personName P 60) rfl (show 10 ≤ 60 by decide)).trans (hname 60)
  | last_name => exact (hproblem .last_name (personName P 60) rfl (show 10 ≤ 60 by decide)).trans (hname 60)
  | email =>
      refine (hproblem .email _ rfl (show 10 ≤ 254 by decide)).trans (iff_false_intro fun hemail => ?_)
      exact absurd (hsigns _ (hat _ hemail)) (by decide)
  | company => exact (hproblem .company (printable 200) rfl (show 10 ≤ 200 by decide)).trans (hfree 200)
  | title => exact (hproblem .title (printable 120) rfl (show 10 ≤ 120 by decide)).trans (hfree 120)
  | text => exact (hproblem .text (printable 500) rfl (show 10 ≤ 500 by decide)).trans (hfree 500)
  | address => exact (hproblem .address (printable 300) rfl (show 10 ≤ 300 by decide)).trans (hfree 300)
  | number =>
      refine (hproblem .number _ rfl (show 10 ≤ 30 by decide)).trans ?_
      simp only [hnumber, Bool.false_eq_true]
  | phone =>
      refine (hproblem .phone _ rfl (show 10 ≤ 30 by decide)).trans ?_
      simp only [hphone]
  | date_input => exact hproblem .date_input _ rfl (show 10 ≤ 10 by decide)
  | dropdown | radio => simp only

/-! ## Values in print -/

/-- The boxes that admit their value as it is printed. -/
theorem admits_printed_iff {P : Platform} (hemail : AddressesAreAscii P) {clientValues : Values} (signedAt : Int)
    {f : TemplateField} (htyped : Typed f = true) (hcheckbox : f.type ≠ .checkbox)
    (hfilled : supplied clientValues f ≠ []) (hpasses : Passes P clientValues f) :
    Admits P signedAt f (toPdfSafeText (supplied clientValues f)) ↔
      PrintsWithin f (supplied clientValues f) := by
  obtain ⟨hoffered, hproblem⟩ := hpasses
  have htrim := trim_supplied clientValues f
  generalize supplied clientValues f = v at hoffered hproblem htrim hfilled
  cases hchoice : CHOICE_KINDS f.type with
  | true =>
      have hv : v ∈ f.options.getD [] := by simpa [offered, hchoice] using hoffered
      have hchosen : toPdfSafeText v ∈ f.options.getD [] ↔
          (∀ u ∈ v, isLatin u.toNat) ∨ ∃ option ∈ f.options.getD [], option ≠ v ∧ RespelledAs v option := by
        simp only [respelledAs_iff, ← toPdfSafeText_eq_self_iff]
        by_cases hself : toPdfSafeText v = v
        · simp [hself, hv]
        · constructor
          · exact fun h => Or.inr ⟨_, h, hself, rfl⟩
          · rintro (h | ⟨option, ho, -, rfl⟩)
            · exact absurd h hself
            · exact ho
      unfold Admits PrintsWithin
      cases htype : f.type <;> simp only [htype] at hchoice ⊢ <;> first | exact hchosen | cases hchoice
  | false =>
      obtain ⟨rule, hrule⟩ : ∃ rule, FIELD_VALUE_RULES P f.type = some rule := by
        refine Option.ne_none_iff_exists'.mp fun hnone => ?_
        rw [rule_eq_none_iff, not_image_of_typed htyped, not_auto_of_typed htyped] at hnone
        cases hnone
      obtain ⟨hlength, hvalid⟩ := (noProblem_iff hrule htrim hfilled).mp hproblem
      have hprint := noProblem_printed_iff hemail hrule hchoice hfilled htrim hvalid
      cases hfree : FREE_TEXT f.type with
      | true =>
          unfold Admits PrintsWithin
          cases htype : f.type <;> simp only [htype] at hfree hrule hprint ⊢ <;>
            first | (cases hrule; exact hprint) | cases hfree
      | false =>
          have hcount := count_ellipsis_eq_zero hemail hrule hchoice hfree hvalid
          have hadmits : fieldValueProblem P f.type (toPdfSafeText v) = none := hprint.mpr (by omega)
          unfold Admits PrintsWithin
          cases htype : f.type <;> simp only [htype] at hfree hchoice hadmits ⊢ <;>
            first | exact iff_of_true hadmits trivial | cases hfree; done | cases hchoice; done | skip
          · simp [Typed, htype, IMAGE_KINDS, AUTO_KINDS] at htyped
          · exact absurd htype hcheckbox

/-! ## Who writes what a box shows -/

theorem lastWriter_spec {own : List TemplateField} {clientValues : Values} {id : JsString}
    {w : TemplateField} (h : lastWriter own clientValues id = some w) :
    w ∈ own ∧ w.id = id ∧ writes clientValues w = true := by
  have hmem := List.mem_of_getLast? h
  rw [List.mem_filter, Bool.and_eq_true, beq_iff_eq] at hmem
  exact hmem

theorem lastWriter_eq_none_iff {own : List TemplateField} {clientValues : Values} {id : JsString} :
    lastWriter own clientValues id = none ↔
      ∀ f ∈ own, f.id = id → writes clientValues f = false := by
  unfold lastWriter
  rw [List.getLast?_eq_none_iff, List.filter_eq_nil_iff]
  simp

theorem typed_of_writes {clientValues : Values} {w : TemplateField} (h : writes clientValues w = true)
    (hauto : AUTO_KINDS w.type = false) : Typed w = true ∧ supplied clientValues w ≠ [] := by
  simpa [writes, hauto] using h

theorem written_auto {clientValues : Values} {signedAt : Int} {w : TemplateField}
    (h : AUTO_KINDS w.type = true) : written clientValues signedAt w = signingDate signedAt := by
  have hdate : w.type = .date := by simpa [AUTO_KINDS] using h
  simp [written, signingDate, hdate, AUTO_KINDS]

/-- A checkbox only passes ticked. -/
theorem supplied_checkbox {P : Platform} {clientValues : Values} {f : TemplateField}
    (htype : f.type = .checkbox) (hfilled : supplied clientValues f ≠ [])
    (hpasses : Passes P clientValues f) : supplied clientValues f = js "true" := by
  have htrim : trim (supplied clientValues f) = supplied clientValues f := by
    unfold supplied
    split
    · exact trim_trim _
    · rfl
  have hrule := hpasses.2
  rw [htype] at hrule
  simp only [fieldValueProblem, FIELD_VALUE_RULES, htrim, if_neg hfilled] at hrule
  by_contra hne
  simp [hne] at hrule

section Boxes

variable {P : Platform} {own : List TemplateField} {clientValues : Values} {signedAt : Int}

/-- What a box shows, by who wrote last under its id. -/
theorem textOf_values
    (hvalid : ∀ f ∈ own, Typed f = true → supplied clientValues f ≠ [] → Passes P clientValues f)
    {f : TemplateField} (himage : IMAGE_KINDS f.type = false) :
    textOf (resolveFieldValues P own clientValues signedAt).values f =
      (lastWriter own clientValues f.id).bind fun w =>
        boxText f (written clientValues signedAt w) := by
  unfold textOf
  rw [if_neg (by simp [himage]), values_eq_lastWriter hvalid, Option.bind_map]
  rfl

/-- Without its stray values the submission is still valid. -/
theorem valid_knownOnly
    (hvalid : ∀ f ∈ own, Typed f = true → supplied clientValues f ≠ [] → Passes P clientValues f) :
    ∀ f ∈ own, Typed f = true → supplied (knownOnly own clientValues) f ≠ [] →
      Passes P (knownOnly own clientValues) f := by
  intro f hf htyped hfilled
  have hsame : supplied (knownOnly own clientValues) f = supplied clientValues f := by
    unfold supplied knownOnly at hfilled ⊢
    split_ifs at hfilled ⊢ with hknown
    · rfl
    · simp at hfilled
  unfold Passes
  rw [hsame] at hfilled ⊢
  exact hvalid f hf htyped hfilled

/-- Under an id of Date Signed, the submission without its stray values leaves the signing date. -/
theorem lastWriter_knownOnly_shared (clientValues : Values) {id : JsString} (hshared : sharesDate own id = true) :
    ∃ w, lastWriter own (knownOnly own clientValues) id = some w ∧ AUTO_KINDS w.type = true := by
  cases hlast : lastWriter own (knownOnly own clientValues) id with
  | none =>
      obtain ⟨d, hd, hdate⟩ := List.any_eq_true.mp hshared
      rw [Bool.and_eq_true, beq_iff_eq] at hdate
      have hnone := lastWriter_eq_none_iff.mp hlast d hd hdate.1
      simp [writes, hdate.2] at hnone
  | some w =>
      obtain ⟨-, hid, hwrites⟩ := lastWriter_spec hlast
      refine ⟨w, rfl, ?_⟩
      by_contra hauto
      have hfilled := (typed_of_writes hwrites (by simpa using hauto)).2
      simp [supplied, knownOnly, hid, hshared] at hfilled

/-- Under any other id of the list it leaves what the submission left. -/
theorem lastWriter_knownOnly_unshared (clientValues : Values) {f : TemplateField} (hf : f ∈ own)
    (hunshared : sharesDate own f.id = false) :
    lastWriter own (knownOnly own clientValues) f.id = lastWriter own clientValues f.id ∧
      supplied (knownOnly own clientValues) f = supplied clientValues f := by
  have hknown : (own.any fun g => g.id == f.id) = true :=
    List.any_eq_true.mpr ⟨f, hf, by simp⟩
  have hclient : knownOnly own clientValues f.id = clientValues f.id := by
    simp [knownOnly, hknown, hunshared]
  refine ⟨?_, by unfold supplied; rw [hclient]⟩
  unfold lastWriter
  refine congrArg List.getLast? (List.filter_congr fun g _ => ?_)
  by_cases hid : g.id = f.id
  · simp [hid, writes, supplied, hclient]
  · rw [beq_eq_false_iff_ne.mpr hid, Bool.false_and, Bool.false_and]

/-- The texts of the boxes, with and without the stray values of the submission. -/
theorem textOf_knownOnly
    (hvalid : ∀ f ∈ own, Typed f = true → supplied clientValues f ≠ [] → Passes P clientValues f)
    {f : TemplateField} (hf : f ∈ own) (himage : IMAGE_KINDS f.type = false) :
    textOf (resolveFieldValues P own (knownOnly own clientValues) signedAt).values f =
      if sharesDate own f.id then boxText f (signingDate signedAt)
      else textOf (resolveFieldValues P own clientValues signedAt).values f := by
  rw [textOf_values (valid_knownOnly hvalid) himage]
  cases hshared : sharesDate own f.id with
  | true =>
      obtain ⟨w, hlast, hauto⟩ := lastWriter_knownOnly_shared clientValues hshared
      rw [hlast, Option.bind_some, written_auto hauto, if_pos rfl]
  | false =>
      obtain ⟨hlast, -⟩ := lastWriter_knownOnly_unshared clientValues hf hshared
      rw [hlast, if_neg (by simp), textOf_values hvalid himage]
      cases hw : lastWriter own clientValues f.id with
      | none => rfl
      | some w =>
          obtain ⟨hwown, hid, -⟩ := lastWriter_spec hw
          have hw' : sharesDate own w.id = false := by rw [hid]; exact hshared
          obtain ⟨-, hsupplied⟩ := lastWriter_knownOnly_unshared clientValues hwown hw'
          simp only [Option.bind_some, written, hsupplied]

/-! ## One box -/

/-- A box is as it should be: its text is admitted, an empty box is optional and was left empty, and the
stray values of the submission make no difference to it. -/
def BoxOwn (P : Platform) (own : List TemplateField) (clientValues : Values) (signedAt : Int)
    (f : TemplateField) : Prop :=
  let values := (resolveFieldValues P own clientValues signedAt).values
  (∀ text, textOf values f = some text → Admits P signedAt f text) ∧
    ((∃ text, textOf values f = some text) ∨
      (Typed f = true ∧ f.required = false ∧ supplied clientValues f = [])) ∧
    textOf (resolveFieldValues P own (knownOnly own clientValues) signedAt).values f = textOf values f

/-- Nobody writes under the id: the box is an optional one left empty. -/
private theorem boxOwn_of_none
    (hvalid : ∀ f ∈ own, Typed f = true → supplied clientValues f ≠ [] → Passes P clientValues f)
    (hmissing : ∀ f ∈ own, Typed f = true → supplied clientValues f = [] → f.required = false)
    {f : TemplateField} (hf : f ∈ own) (himage : IMAGE_KINDS f.type = false)
    (hlast : lastWriter own clientValues f.id = none) : BoxOwn P own clientValues signedAt f := by
  have hnone := lastWriter_eq_none_iff.mp hlast
  have hwrites := hnone f hf rfl
  have hauto : AUTO_KINDS f.type = false := by
    by_contra hauto
    simp [writes, hauto] at hwrites
  have htyped : Typed f = true := by simp [Typed, himage, hauto]
  have hempty : supplied clientValues f = [] := by simpa [writes, hauto, htyped] using hwrites
  have hunshared : sharesDate own f.id = false := by
    by_contra hshared
    obtain ⟨d, hd, hdate⟩ := List.any_eq_true.mp (by simpa using hshared : sharesDate own f.id = true)
    rw [Bool.and_eq_true, beq_iff_eq] at hdate
    have hd' := hnone d hd hdate.1
    simp [writes, hdate.2] at hd'
  have htext : textOf (resolveFieldValues P own clientValues signedAt).values f = none := by
    rw [textOf_values hvalid himage, hlast]
    rfl
  refine ⟨fun text h => ?_, Or.inr ⟨htyped, hmissing f hf htyped hempty, hempty⟩, ?_⟩
  · rw [htext] at h
    cases h
  · rw [textOf_knownOnly hvalid hf himage, hunshared]
    rfl

/-- Date Signed writes last under the id. -/
private theorem boxOwn_iff_of_auto (hat : AddressesHaveAt P)
    (hvalid : ∀ f ∈ own, Typed f = true → supplied clientValues f ≠ [] → Passes P clientValues f)
    (hmissing : ∀ f ∈ own, Typed f = true → supplied clientValues f = [] → f.required = false)
    {f w : TemplateField} (hf : f ∈ own) (himage : IMAGE_KINDS f.type = false)
    (hlast : lastWriter own clientValues f.id = some w) (hauto : AUTO_KINDS w.type = true) :
    BoxOwn P own clientValues signedAt f ↔ (Typed f = true → TakesDate clientValues signedAt f) := by
  obtain ⟨hw, hid, -⟩ := lastWriter_spec hlast
  have hshared : sharesDate own f.id = true :=
    List.any_eq_true.mpr ⟨w, hw, by simp [hid, hauto]⟩
  have htext : textOf (resolveFieldValues P own clientValues signedAt).values f =
      if f.type = .checkbox then none else some (signingDate signedAt) := by
    rw [textOf_values hvalid himage, hlast, Option.bind_some, written_auto hauto, boxText_signingDate]
  have hstray : textOf (resolveFieldValues P own (knownOnly own clientValues) signedAt).values f =
      textOf (resolveFieldValues P own clientValues signedAt).values f := by
    rw [textOf_knownOnly hvalid hf himage, hshared, if_pos rfl, boxText_signingDate, htext]
  unfold BoxOwn
  simp only [hstray, htext, and_true]
  by_cases hcheckbox : f.type = .checkbox
  · have htyped : Typed f = true := by simp [Typed, hcheckbox, IMAGE_KINDS, AUTO_KINDS]
    have htakes : TakesDate clientValues signedAt f ↔ supplied clientValues f = [] := by
      unfold TakesDate
      rw [hcheckbox]
    simp only [if_pos hcheckbox, htakes]
    constructor
    · rintro ⟨-, ⟨_, h⟩ | ⟨-, -, hempty⟩⟩ -
      · cases h
      · exact hempty
    · intro h
      have hempty := h htyped
      exact ⟨fun _ h => (by cases h), Or.inr ⟨htyped, hmissing f hf htyped hempty, hempty⟩⟩
  · simp only [if_neg hcheckbox, Option.some.injEq]
    constructor
    · rintro ⟨hadmits, -⟩ htyped
      exact (admits_signingDate_iff hat clientValues signedAt htyped hcheckbox).mp (hadmits _ rfl)
    · intro h
      refine ⟨fun text heq => ?_, Or.inl ⟨_, rfl⟩⟩
      subst heq
      by_cases htyped : Typed f = true
      · exact (admits_signingDate_iff hat clientValues signedAt htyped hcheckbox).mpr (h htyped)
      · -- The field is Date Signed itself.
        have hdate : f.type = .date := by
          simpa [Typed, himage, AUTO_KINDS] using htyped
        simp [Admits, hdate]

/-- A ticked box does not write the date. -/
theorem not_writesDate_ticked (signedAt : Int) : ¬ WritesDate (js "true") (signingDate signedAt) := by
  intro h
  have hlength := h.length_eq
  rw [length_signingDate] at hlength
  revert hlength
  decide

/-- A field the signer filled writes last under the id. -/
private theorem boxOwn_iff_of_typed (hemail : AddressesAreAscii P)
    (hvalid : ∀ f ∈ own, Typed f = true → supplied clientValues f ≠ [] → Passes P clientValues f)
    {f w : TemplateField} (hf : f ∈ own) (himage : IMAGE_KINDS f.type = false)
    (hlast : lastWriter own clientValues f.id = some w) (htypedw : Typed w = true) :
    BoxOwn P own clientValues signedAt f ↔
      (sharesDate own f.id = true → WritesDate (supplied clientValues f) (signingDate signedAt)) ∧
      (Typed f = true → PrintsWithin f (supplied clientValues f)) := by
  obtain ⟨hw, hid, hwrites⟩ := lastWriter_spec hlast
  have hauto := not_auto_of_typed htypedw
  have hfilled := (typed_of_writes hwrites hauto).2
  have hsame : supplied clientValues w = supplied clientValues f := supplied_congr clientValues hid
  have htext : textOf (resolveFieldValues P own clientValues signedAt).values f =
      boxText f (supplied clientValues f) := by
    rw [textOf_values hvalid himage, hlast, Option.bind_some, written, if_neg (by simp [hauto]), hsame]
  have hX : toPdfSafeText (js "X") = js "X" := toPdfSafeText_of_printable (List.all_eq_true.mp (by decide))
  rw [hsame] at hfilled
  unfold BoxOwn
  simp only [textOf_knownOnly hvalid hf himage, htext]
  by_cases hcheckbox : f.type = .checkbox
  · have htyped : Typed f = true := by simp [Typed, hcheckbox, IMAGE_KINDS, AUTO_KINDS]
    have hticked := supplied_checkbox hcheckbox hfilled (hvalid f hf htyped hfilled)
    have hbox : boxText f (supplied clientValues f) = some (js "X") := by
      simp [boxText, hcheckbox, hticked, hX, show js "true" ≠ [] by decide]
    have hwithin : PrintsWithin f (supplied clientValues f) := by
      unfold PrintsWithin
      rw [hcheckbox]
      trivial
    have hnot : ¬ WritesDate (supplied clientValues f) (signingDate signedAt) := by
      rw [hticked]
      exact not_writesDate_ticked signedAt
    simp only [hbox, boxText_signingDate, hcheckbox, if_true, hwithin, hnot]
    cases hshared : sharesDate own f.id with
    | true => simp
    | false => simp [Admits, hcheckbox]
  · have hbox : boxText f (supplied clientValues f) =
        some (toPdfSafeText (supplied clientValues f)) := by
      simp only [boxText, if_neg hfilled, if_neg hcheckbox]
    have hwrites : WritesDate (supplied clientValues f) (signingDate signedAt) ↔
        toPdfSafeText (supplied clientValues f) = signingDate signedAt :=
      (writesDate_iff (isDateSign_signingDate signedAt)).symm
    have hwithin (htyped : Typed f = true) :=
      admits_printed_iff hemail signedAt htyped hcheckbox hfilled (hvalid f hf htyped hfilled)
    have hdate : Typed f = false → f.type = .date ∧ sharesDate own f.id = true := by
      intro htyped
      have hdate : f.type = .date := by simpa [Typed, himage, AUTO_KINDS] using htyped
      exact ⟨hdate, List.any_eq_true.mpr ⟨f, hf, by simp [hdate, AUTO_KINDS]⟩⟩
    simp only [hbox, boxText_signingDate, if_neg hcheckbox, hwrites]
    constructor
    · rintro ⟨hadmits, -, hstray⟩
      refine ⟨fun hshared => ?_, fun htyped => (hwithin htyped).mp (hadmits _ rfl)⟩
      rw [hshared, if_pos rfl] at hstray
      exact (Option.some.inj hstray).symm
    · rintro ⟨hshared, hprints⟩
      refine ⟨fun text heq => ?_, Or.inl ⟨_, rfl⟩, ?_⟩
      · obtain rfl := Option.some.inj heq
        cases htyped : Typed f with
        | true => exact (hwithin htyped).mpr (hprints htyped)
        | false =>
            obtain ⟨hdate, hs⟩ := hdate htyped
            simpa [Admits, hdate] using hshared hs
      · split
        · rename_i hs
          rw [hshared hs]
        · rfl

end Boxes

/-! ## Every box -/

/-- **When the boxes show only what is theirs.**  For every list of fields one signer may have and every
submission the server accepts: each box shows the signing date, an offered option or a text its rule
admits, and neither unknown keys nor values sent for Date Signed make any difference, if and only if the
fields leave Date Signed alone and what was filled in keeps within its box. -/
theorem stamped_boxes_own_iff {P : Platform} (hemail : AddressesAreAscii P) (hat : AddressesHaveAt P)
    {T : StampTools} {pages : List Page} {own : List TemplateField} {clientValues : Values} {signedAt : Int}
    {stamps : List Stamp}
    (haccepted : (resolveFieldValues P own clientValues signedAt).accepted = true)
    (hstamps : stampPdf T pages own (resolveFieldValues P own clientValues signedAt).values =
      .ok stamps) :
    (ShowsOwn P pages own clientValues signedAt stamps ∧
      stampPdf T pages own (resolveFieldValues P own (knownOnly own clientValues) signedAt).values =
        .ok stamps) ↔
    Undisturbed pages own clientValues signedAt := by
  rw [ResolvedFieldValues.accepted, Bool.and_eq_true, List.isEmpty_iff, List.isEmpty_iff] at haccepted
  have hmissing := (missingRequired_eq_nil_iff P own clientValues signedAt).mp haccepted.1
  have hvalid := (invalid_eq_nil_iff P own clientValues signedAt).mp haccepted.2
  -- Both sides, box by box.
  have hboxes : (ShowsOwn P pages own clientValues signedAt stamps ∧
      stampPdf T pages own (resolveFieldValues P own (knownOnly own clientValues) signedAt).values =
        .ok stamps) ↔
      ∀ f ∈ own, IMAGE_KINDS f.type = false → (pageOf pages f).isSome →
        BoxOwn P own clientValues signedAt f := by
    constructor
    · rintro ⟨hshows, hstray⟩ f hf himage hpage
      have hprints := fun text => prints_iff hstamps f text
      simp only [hf, hpage, true_and] at hprints
      obtain ⟨hadmits, hsome⟩ := hshows f hf himage hpage
      simp only [hprints] at hadmits hsome
      refine ⟨hadmits, hsome, Option.ext fun text => ?_⟩
      have hprints' := prints_iff hstray f text
      simp only [hf, hpage, true_and] at hprints'
      rw [← hprints', hprints]
    · intro h
      refine ⟨fun f hf himage hpage => ?_, ?_⟩
      · obtain ⟨hadmits, hsome, -⟩ := h f hf himage hpage
        have hprints := fun text => prints_iff hstamps f text
        simp only [hf, hpage, true_and] at hprints
        simp only [hprints]
        exact ⟨hadmits, hsome⟩
      · rw [← hstamps]
        refine stampPdf_congr fun f hf hpage => ?_
        cases himage : IMAGE_KINDS f.type with
        | true => simp [textOf, himage]
        | false => exact (h f hf himage hpage).2.2
  rw [hboxes]
  constructor
  · intro h
    refine ⟨fun f hf himage hpage w hlast htypedw => ?_, fun f hf htyped hpage w hlast hauto => ?_,
      fun f hf htyped hpage w hlast htypedw => ?_⟩
    · exact ((boxOwn_iff_of_typed hemail hvalid hf himage hlast htypedw).mp (h f hf himage hpage)).1
    · have himage := not_image_of_typed htyped
      exact (boxOwn_iff_of_auto hat hvalid hmissing hf himage hlast hauto).mp (h f hf himage hpage) htyped
    · have himage := not_image_of_typed htyped
      exact ((boxOwn_iff_of_typed hemail hvalid hf himage hlast htypedw).mp (h f hf himage hpage)).2 htyped
  · intro h f hf himage hpage
    cases hlast : lastWriter own clientValues f.id with
    | none => exact boxOwn_of_none hvalid hmissing hf himage hlast
    | some w =>
        cases hauto : AUTO_KINDS w.type with
        | true =>
            exact (boxOwn_iff_of_auto hat hvalid hmissing hf himage hlast hauto).mpr
              fun htyped => h.dated f hf htyped hpage w hlast hauto
        | false =>
            have htypedw := (typed_of_writes (lastWriter_spec hlast).2.2 hauto).1
            exact (boxOwn_iff_of_typed hemail hvalid hf himage hlast htypedw).mpr
              ⟨h.overwritten f hf himage hpage w hlast htypedw,
                fun htyped => h.filled f hf htyped hpage w hlast htypedw⟩

/-! ## Two fields under one id -/

/-- The id both fields of the examples carry. -/
def sharedId : JsString := js "5f0c1d1e-8a55-4c1b-9c53-0f6f2f6f4a11"

/-- A runtime that knows the one id of the examples. -/
def examplePlatform : Platform where
  email _ := false
  uuid id := id == sharedId
  isLetter _ := false
  isMark _ := false

def exampleField (type : FieldType) (y : ℚ) : TemplateField where
  id := sharedId
  type := type
  page := 1
  x := 1 / 10
  y := y
  w := 1 / 5
  h := 1 / 20
  required := true
  recipientKey := js "signer"
  label := none
  options := none

def exampleTools : StampTools where
  signatureWidth := 200
  signatureHeight := 80
  widthOfTextAtSize text size := text.length * size / 2

def examplePages : List Page := [⟨0, 595, 842, 0, 0⟩]

def exampleClient (text : JsString) : Values := fun id => if id = sharedId then some text else none

/-- A record that has Date Signed print what the client sent for a text field of the same id. -/
theorem date_box_overwritten :
    let own := [exampleField .date (1 / 10), exampleField .text (1 / 5)]
    let resolved := resolveFieldValues examplePlatform own (exampleClient (js "01 Jan 2020")) 0
    TemplateFieldsSchema examplePlatform own = true ∧ resolved.accepted = true ∧
      ∃ stamps, stampPdf exampleTools examplePages own resolved.values = .ok stamps ∧
        Prints stamps (exampleField .date (1 / 10)) (js "01 Jan 2020") ∧
        ¬ ShowsOwn examplePlatform examplePages own (exampleClient (js "01 Jan 2020")) 0 stamps := by
  intro own resolved
  have hupright : ∀ p ∈ examplePages, p.turned = 0 := by decide
  obtain ⟨stamps, hstamps⟩ := stampPdf_upright hupright exampleTools own resolved.values
  have hprints : Prints stamps (exampleField .date (1 / 10)) (js "01 Jan 2020") :=
    (prints_iff hstamps _ _).mpr ⟨by simp [own], by decide +kernel, by decide +kernel⟩
  refine ⟨by decide +kernel, by decide +kernel, stamps, hstamps, hprints, fun hshows => ?_⟩
  have hadmits := (hshows (exampleField .date (1 / 10)) (by simp [own]) (by decide)
    (by decide +kernel)).1 _ hprints
  have hdate : signingDate 0 ≠ js "01 Jan 2020" := by decide +kernel
  exact hdate hadmits.symm

/-- The same two fields when the client sends the signing date itself: nothing is disturbed. -/
theorem stamped_boxes_own_same_date :
    let own := [exampleField .date (1 / 10), exampleField .text (1 / 5)]
    let resolved := resolveFieldValues examplePlatform own (exampleClient (js "1970-01-01")) 0
    ∃ stamps, stampPdf exampleTools examplePages own resolved.values = .ok stamps ∧
      ShowsOwn examplePlatform examplePages own (exampleClient (js "1970-01-01")) 0 stamps := by
  intro own resolved
  have hupright : ∀ p ∈ examplePages, p.turned = 0 := by decide
  obtain ⟨stamps, hstamps⟩ := stampPdf_upright hupright exampleTools own resolved.values
  have hlast : lastWriter own (exampleClient (js "1970-01-01")) sharedId =
      some (exampleField .text (1 / 5)) := by
    decide +kernel
  have hdate : signingDate 0 = js "1970-01-01" := by decide +kernel
  have hemail : AddressesAreAscii examplePlatform := fun v hv => by cases hv
  have hat : AddressesHaveAt examplePlatform := fun v hv => by cases hv
  have hwrites : WritesDate (supplied (exampleClient (js "1970-01-01")) (exampleField .text (1 / 5)))
      (signingDate 0) := by
    rw [hdate, show supplied (exampleClient (js "1970-01-01")) (exampleField .text (1 / 5)) = js "1970-01-01" by
      decide +kernel]
    exact List.forall₂_same.mpr fun _ _ => Or.inl rfl
  refine ⟨stamps, hstamps, ((stamped_boxes_own_iff hemail hat (by decide +kernel) hstamps).mpr
    ⟨fun f hf _ _ w hw _ _ => ?_, fun f hf _ _ w hw hauto => ?_, fun f hf htyped _ w hw _ => ?_⟩).1⟩
  all_goals
    obtain rfl | rfl : f = exampleField .date (1 / 10) ∨ f = exampleField .text (1 / 5) := by
      simpa [own] using hf
    all_goals
      obtain rfl := Option.some.inj (hlast.symm.trans hw)
  · exact hwrites
  · exact hwrites
  · cases hauto
  · cases hauto
  · cases htyped
  · show List.length _ + 2 * List.count _ _ ≤ 500
    decide +kernel

end ESignSoft.Signing
