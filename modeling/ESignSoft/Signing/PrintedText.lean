import ESignSoft.Signing.StampPdf

/-!
# What an accepted value looks like in print

The rules of the boxes and the character set of the sealed PDF are written in different packages.
`PRINTABLE` and `toPdfSafeText` do line up: a text prints as typed exactly when it is `PRINTABLE`.  Every
rule but one asks for at least that; the rule of the choice fields asks for nothing, and an option is
whatever the sender wrote.

* `printsAsTyped_eq` — printing as typed is `PRINTABLE`;
* `printable_of_valid` — every rule but that of the choice fields implies it;
* `accepted_prints_iff` — when a stored value prints as typed.
-/

namespace ESignSoft.Signing

open ESignSoft.Lib.JsText ESignSoft.Lib.JsDate ESignSoft.Contracts

/-- A character is printed as it is, or as its listed transliteration. -/
def charPrintsAsTyped (ch : Nat × JsString) : Bool :=
  toPdfSafeChar ch == ch.2 || TRANSLITERATIONS ch.1 == some (toPdfSafeChar ch)

/-- Every character of a text is. -/
def printsAsTyped (value : JsString) : Bool := (codePoints value).all charPrintsAsTyped

/-! ## One character -/

/-- The characters with a transliteration: the typographic marks, and the no-break space. -/
theorem transliterated_iff {u : UInt16} :
    (TRANSLITERATIONS u.toNat).isSome = true ↔ u ∈ typographicMarks ∨ u.toNat = 0xA0 := by
  unfold TRANSLITERATIONS typographicMarks
  simp only [List.mem_cons, List.not_mem_nil, or_false, ← UInt16.toNat_inj, UInt16.reduceToNat]
  split_ifs <;> simp only [Option.isSome_some, Option.isSome_none, Bool.false_eq_true, true_iff,
    false_iff] <;> omega

theorem isPrintable_iff {u : UInt16} :
    isPrintable u = true ↔
      ((0x20 ≤ u.toNat ∧ u.toNat ≤ 0x7E) ∨ (0xA0 ≤ u.toNat ∧ u.toNat ≤ 0xFF)) ∨
        (TRANSLITERATIONS u.toNat).isSome = true := by
  rw [transliterated_iff]
  simp only [isPrintable, Bool.or_eq_true, Bool.and_eq_true, decide_eq_true_eq,
    UInt16.le_iff_toNat_le, UInt16.reduceToNat, List.contains_iff_mem]
  constructor
  · rintro (h | h)
    · exact Or.inl h
    · exact Or.inr (Or.inl h)
  · rintro (h | h | h)
    · exact Or.inl h
    · exact Or.inr h
    · exact Or.inl (Or.inr (by omega))

/-- A character beyond the first 65536 is printed as `?`. -/
theorem charPrintsAsTyped_pair {code : Nat} {u v : UInt16} (h : 0x10000 ≤ code) :
    charPrintsAsTyped (code, [u, v]) = false := by
  have hnone : TRANSLITERATIONS code = none := by
    unfold TRANSLITERATIONS
    split_ifs <;> first | rfl | omega
  have hprint : toPdfSafeChar (code, [u, v]) = js "?" := by
    unfold toPdfSafeChar
    dsimp only
    rw [if_neg (by omega), hnone]
    exact if_neg (by omega)
  have hlength : js "?" ≠ [u, v] := fun heq => by
    have htwo : (js "?").length = 2 := congrArg List.length heq
    revert htwo
    decide
  unfold charPrintsAsTyped
  simp only [hprint, hnone, Bool.or_eq_false_iff, beq_eq_false_iff_ne]
  exact ⟨hlength, (Option.some_ne_none _).symm⟩

theorem charPrintsAsTyped_single (u : UInt16) :
    charPrintsAsTyped (u.toNat, [u]) = isPrintable u := by
  rw [Bool.eq_iff_iff, isPrintable_iff]
  unfold charPrintsAsTyped toPdfSafeChar
  dsimp only
  by_cases hpass : (0x20 ≤ u.toNat ∧ u.toNat ≤ 0x7E) ∨ (0xA0 ≤ u.toNat ∧ u.toNat ≤ 0xFF)
  · simp [hpass]
  · rw [if_neg hpass]
    cases hmark : TRANSLITERATIONS u.toNat with
    | some text => simp
    | none =>
        -- What is left is printed as a space or as `?`, and is neither.
        have hspace : js " " = [0x20] := by decide
        have hquestion : js "?" = [0x3F] := by decide
        have h20 : u ≠ 0x20 := fun h => hpass (Or.inl (by rw [h]; decide))
        have h3F : u ≠ 0x3F := fun h => hpass (Or.inl (by rw [h]; decide))
        have hne : (if u.toNat = 0x09 ∨ u.toNat = 0x0A ∨ u.toNat = 0x0D then js " " else js "?") ≠
            [u] := by
          split
          · simpa [hspace] using h20.symm
          · simpa [hquestion] using h3F.symm
        simp [hpass, hne]

theorem not_printable_of_high {u : UInt16} (h : isHighSurrogate u = true) :
    isPrintable u = false := by
  simp only [isHighSurrogate, Bool.and_eq_true, decide_eq_true_eq, UInt16.le_iff_toNat_le,
    UInt16.reduceToNat] at h
  rw [Bool.eq_false_iff, Ne, isPrintable_iff, transliterated_iff]
  unfold typographicMarks
  simp only [List.mem_cons, List.not_mem_nil, or_false, ← UInt16.toNat_inj, UInt16.reduceToNat]
  omega

/-- **The two character classes line up.** -/
theorem printsAsTyped_eq (value : JsString) : printsAsTyped value = PRINTABLE value := by
  unfold printsAsTyped PRINTABLE
  fun_induction codePoints value with
  | case1 => rfl
  | case2 u => simp [charPrintsAsTyped_single]
  | case3 u v rest hpair ih =>
      simp only [Bool.and_eq_true] at hpair
      rw [List.all_cons, List.all_cons, charPrintsAsTyped_pair (by omega),
        not_printable_of_high hpair.1]
      rfl
  | case4 u v rest hpair ih =>
      rw [List.all_cons, List.all_cons, charPrintsAsTyped_single, ih]

/-! ## The rules -/

/-- What the validation library's address pattern admits: letters, digits and `_`, `'`, `+`, `-`, `.`,
`@`. -/
def addressUnit (u : UInt16) : Bool :=
  isDigit u || (0x41 ≤ u && u ≤ 0x5A) || (0x61 ≤ u && u ≤ 0x7A) ||
    [0x5F, 0x27, 0x2B, 0x2D, 0x2E, 0x40].contains u

/-- The addresses the library accepts are written in these characters. -/
def AddressesAreAscii (P : Platform) : Prop := ∀ v, P.email v = true → v.all addressUnit = true

theorem printable_of_bounds {u : UInt16} (h : (0x20 ≤ u.toNat ∧ u.toNat ≤ 0x7E) ∨
    (0xA0 ≤ u.toNat ∧ u.toNat ≤ 0xFF)) : isPrintable u = true :=
  isPrintable_iff.mpr (Or.inl h)

theorem printable_of_digit {u : UInt16} (h : isDigit u = true) : isPrintable u = true := by
  simp only [isDigit, Bool.and_eq_true, decide_eq_true_eq, UInt16.le_iff_toNat_le,
    UInt16.reduceToNat] at h
  exact printable_of_bounds (Or.inl (by omega))

theorem printable_of_latinLetter {u : UInt16} (h : isLatinLetter u = true) :
    isPrintable u = true := by
  simp only [isLatinLetter, Bool.or_eq_true, Bool.and_eq_true, decide_eq_true_eq,
    UInt16.le_iff_toNat_le, UInt16.reduceToNat] at h
  exact printable_of_bounds (by omega)

theorem printable_of_addressUnit {u : UInt16} (h : addressUnit u = true) : isPrintable u = true := by
  simp only [addressUnit, Bool.or_eq_true, Bool.and_eq_true, decide_eq_true_eq,
    UInt16.le_iff_toNat_le, UInt16.reduceToNat, List.contains_iff_mem] at h
  rcases h with ((h | h) | h) | h
  · exact printable_of_digit h
  · exact printable_of_bounds (Or.inl (by omega))
  · exact printable_of_bounds (Or.inl (by omega))
  · exact List.all_eq_true.mp (by decide) u h

theorem printable_of_personName {v : JsString} (h : PERSON_NAME v = true) : PRINTABLE v = true := by
  have hjoins : ∀ u ∈ nameJoins, isPrintable u = true := List.all_eq_true.mp (by decide)
  simp only [PERSON_NAME, Bool.and_eq_true, List.all_eq_true, Bool.or_eq_true,
    List.contains_iff_mem] at h
  refine List.all_eq_true.mpr fun u hu => ?_
  rcases h.2 u hu with hletter | hjoin
  · exact printable_of_latinLetter hletter
  · exact hjoins u hjoin

/-- A list is its head, if that is the given one, in front of the rest. -/
theorem mem_of_sign {v : JsString} (sign : UInt16) {u : UInt16} (hu : u ∈ v) :
    u = sign ∨ u ∈ (if v.head? == some sign then v.tail else v) := by
  split
  · rename_i hhead
    cases v with
    | nil => cases hu
    | cons w rest =>
        simp only [List.head?_cons, beq_iff_eq, Option.some.injEq] at hhead
        rcases List.mem_cons.mp hu with rfl | hrest
        · exact Or.inl hhead
        · exact Or.inr hrest
  · exact Or.inr hu

/-- After its minus a number is written with digits and decimal marks. -/
theorem units_of_unsigned {v : JsString} (h : isNumber v = true) {u : UInt16}
    (hu : u ∈ (if v.head? == some 0x2D then v.tail else v)) : isDigit u = true ∨ u = 0x2E ∨ u = 0x2C := by
  unfold isNumber at h
  generalize (if v.head? == some 0x2D then v.tail else v) = unsigned at h hu
  simp only [Bool.and_eq_true] at h
  rw [← List.takeWhile_append_dropWhile (p := isDigit) (l := unsigned)] at hu
  rcases List.mem_append.mp hu with hwhole | hrest
  · exact Or.inl (List.mem_takeWhile_imp hwhole)
  · have hfraction := h.2
    generalize unsigned.dropWhile isDigit = rest at hfraction hrest
    cases rest with
    | nil => cases hrest
    | cons mark fraction =>
        simp only [Bool.and_eq_true, Bool.or_eq_true, beq_iff_eq, List.all_eq_true] at hfraction
        rcases List.mem_cons.mp hrest with rfl | hdigit
        · exact Or.inr hfraction.1.1
        · exact Or.inl (hfraction.2 u hdigit)

/-- A number is written with digits, decimal marks and a minus. -/
theorem units_of_number {v : JsString} (h : isNumber v = true) {u : UInt16} (hu : u ∈ v) :
    isDigit u = true ∨ u = 0x2E ∨ u = 0x2C ∨ u = 0x2D := by
  rcases mem_of_sign 0x2D hu with rfl | hu
  · exact Or.inr (Or.inr (Or.inr rfl))
  · rcases units_of_unsigned h hu with hdigit | hpoint | hcomma
    · exact Or.inl hdigit
    · exact Or.inr (Or.inl hpoint)
    · exact Or.inr (Or.inr (Or.inl hcomma))

/-- A phone number is written with digits, a plus, spaces, parentheses and hyphens. -/
theorem units_of_phone {v : JsString} (h : isPhone v = true) {u : UInt16} (hu : u ∈ v) :
    isDigit u = true ∨ u = 0x2B ∨ u = 0x28 ∨ u = 0x29 ∨ u = 0x20 ∨ u = 0x2D := by
  rcases mem_of_sign 0x2B hu with rfl | hu
  · exact Or.inr (Or.inl rfl)
  · unfold isPhone at h
    generalize (if v.head? == some 0x2B then v.tail else v) = body at h hu
    simp only [Bool.and_eq_true, List.all_eq_true, Bool.or_eq_true, beq_iff_eq] at h
    rcases h.1.1.2 u hu with (((hdigit | hspace) | hopen) | hclose) | hhyphen
    · exact Or.inl hdigit
    all_goals simp [*]

theorem printable_of_number {v : JsString} (h : isNumber v = true) : PRINTABLE v = true := by
  refine List.all_eq_true.mpr fun u hu => ?_
  rcases units_of_number h hu with hdigit | rfl | rfl | rfl
  · exact printable_of_digit hdigit
  all_goals decide

theorem printable_of_phone {v : JsString} (h : isPhone v = true) : PRINTABLE v = true := by
  refine List.all_eq_true.mpr fun u hu => ?_
  rcases units_of_phone h hu with hdigit | rfl | rfl | rfl | rfl | rfl
  · exact printable_of_digit hdigit
  all_goals decide

theorem drop_of_getElem? {v : JsString} {i : Nat} {u : UInt16} (h : v[i]? = some u) :
    v.drop i = u :: v.drop (i + 1) := by
  obtain ⟨hi, rfl⟩ := List.getElem?_eq_some_iff.mp h
  exact List.drop_eq_getElem_cons hi

/-- A calendar date is ten characters long: three runs of digits with a hyphen between. -/
theorem units_of_calendarDate {v : JsString} (h : isCalendarDate v = true) {u : UInt16} (hu : u ∈ v) :
    isDigit u = true ∨ u = 0x2D := by
  unfold isCalendarDate at h
  dsimp only at h
  split at h
  · cases h
  · rename_i hshape
    rw [Bool.not_eq_true, Bool.or_eq_false_iff, Bool.or_eq_false_iff, Bool.not_eq_false'] at hshape
    have hshape := hshape.1.1
    simp only [Bool.and_eq_true, beq_iff_eq, List.all_eq_true] at hshape
    obtain ⟨⟨⟨⟨⟨-, hyear⟩, hmonth⟩, hdate⟩, hfirst⟩, hsecond⟩ := hshape
    have hsplit : v = v.take 4 ++ 0x2D :: ((v.drop 5).take 2 ++ 0x2D :: v.drop 8) := by
      have hmiddle : (v.drop 5).drop 2 = 0x2D :: v.drop 8 := by
        rw [List.drop_drop]
        exact drop_of_getElem? hsecond
      calc v = v.take 4 ++ v.drop 4 := (List.take_append_drop 4 v).symm
        _ = v.take 4 ++ 0x2D :: v.drop 5 := by rw [drop_of_getElem? hfirst]
        _ = v.take 4 ++ 0x2D :: ((v.drop 5).take 2 ++ (v.drop 5).drop 2) := by
            rw [List.take_append_drop]
        _ = v.take 4 ++ 0x2D :: ((v.drop 5).take 2 ++ 0x2D :: v.drop 8) := by rw [hmiddle]
    rw [hsplit] at hu
    rcases List.mem_append.mp hu with hu | hu
    · exact Or.inl (hyear u hu)
    · rcases List.mem_cons.mp hu with rfl | hu
      · exact Or.inr rfl
      · rcases List.mem_append.mp hu with hu | hu
        · exact Or.inl (hmonth u hu)
        · rcases List.mem_cons.mp hu with rfl | hu
          · exact Or.inr rfl
          · exact Or.inl (hdate u hu)

theorem printable_of_calendarDate {v : JsString} (h : isCalendarDate v = true) : PRINTABLE v = true := by
  refine List.all_eq_true.mpr fun u hu => ?_
  rcases units_of_calendarDate h hu with hdigit | rfl
  · exact printable_of_digit hdigit
  · decide

/-- Every rule but that of the choice fields asks for printable text. -/
theorem printable_of_valid {P : Platform} (hemail : AddressesAreAscii P) {type : FieldType}
    {rule : FieldValueRule} (hrule : FIELD_VALUE_RULES P type = some rule)
    (hchoice : CHOICE_KINDS type = false) {v : JsString} (hvalid : rule.valid v = true) :
    PRINTABLE v = true := by
  cases type with
  | signature => cases hrule
  | initial => cases hrule
  | stamp => cases hrule
  | date => cases hrule
  | name => cases hrule; exact printable_of_personName hvalid
  | first_name => cases hrule; exact printable_of_personName hvalid
  | last_name => cases hrule; exact printable_of_personName hvalid
  | email =>
      cases hrule
      have hunits := List.all_eq_true.mp (hemail v hvalid)
      exact List.all_eq_true.mpr fun u hu => printable_of_addressUnit (hunits u hu)
  | company => cases hrule; exact hvalid
  | title => cases hrule; exact hvalid
  | text => cases hrule; exact hvalid
  | number => cases hrule; exact printable_of_number hvalid
  | phone => cases hrule; exact printable_of_phone hvalid
  | address => cases hrule; exact hvalid
  | checkbox =>
      cases hrule
      rw [beq_iff_eq.mp hvalid]
      decide
  | dropdown => cases hchoice
  | radio => cases hchoice
  | date_input => cases hrule; exact printable_of_calendarDate hvalid

/-- A value without a complaint is valid under its field's rule. -/
theorem valid_of_noProblem {P : Platform} {type : FieldType} {rule : FieldValueRule} {v : JsString}
    (hrule : FIELD_VALUE_RULES P type = some rule) (hv : trim v ≠ [])
    (h : fieldValueProblem P type v = none) : rule.valid (trim v) = true := by
  unfold fieldValueProblem at h
  rw [hrule] at h
  dsimp only at h
  rw [if_neg hv] at h
  split at h
  · cases h
  · rename_i hok
    rw [Bool.not_eq_true, Bool.or_eq_false_iff, Bool.not_eq_false'] at hok
    exact hok.2

theorem length_of_noProblem {P : Platform} {type : FieldType} {rule : FieldValueRule} {v : JsString}
    (hrule : FIELD_VALUE_RULES P type = some rule) (hv : trim v ≠ [])
    (h : fieldValueProblem P type v = none) : (trim v).length ≤ rule.max := by
  unfold fieldValueProblem at h
  rw [hrule] at h
  dsimp only at h
  rw [if_neg hv] at h
  split at h
  · cases h
  · rename_i hok
    rw [Bool.not_eq_true, Bool.or_eq_false_iff, decide_eq_false_iff_not, not_lt] at hok
    exact hok.1

/-! ## What the record holds -/

/-- The server's date is printable. -/
theorem printable_autoValue (type : FieldType) (signedAt : Int) :
    PRINTABLE (autoValue type signedAt) = true := by
  unfold autoValue
  split
  · refine List.all_eq_true.mpr fun u hu => ?_
    have hascii := printable_toISOString signedAt u (List.mem_of_mem_take hu)
    exact printable_of_bounds (Or.inl (isPrintableAscii_iff.mp hascii))
  · rfl

theorem trim_supplied (clientValues : Values) (f : TemplateField) :
    trim (supplied clientValues f) = supplied clientValues f := by
  unfold supplied
  split
  · exact trim_trim _
  · rfl

/-- **When a stored value prints as typed.**  Take any layout, any submission and any field that writes
into the record and is not refused: what it writes is printed as typed, up to the listed transliterations,
exactly if the field is not a choice or the chosen option is `PRINTABLE`. -/
theorem accepted_prints_iff {P : Platform} (hemail : AddressesAreAscii P)
    {fields : List TemplateField} {clientValues : Values} {signedAt : Int} {f : TemplateField}
    (hf : f ∈ fields) (hwrites : writes clientValues f = true)
    (haccepted : f.id ∉ (resolveFieldValues P fields clientValues signedAt).invalid) :
    printsAsTyped (written clientValues signedAt f) = true ↔
      (CHOICE_KINDS f.type = true → PRINTABLE (written clientValues signedAt f) = true) := by
  rw [printsAsTyped_eq]
  refine ⟨fun h _ => h, fun h => ?_⟩
  cases hchoice : CHOICE_KINDS f.type with
  | true => exact h hchoice
  | false =>
      unfold written
      split
      · exact printable_autoValue f.type signedAt
      · rename_i hauto
        simp only [writes, hauto, Bool.false_or, Bool.and_eq_true, bne_iff_ne] at hwrites
        obtain ⟨htyped, hfilled⟩ := hwrites
        have hpasses : Passes P clientValues f := by
          by_contra hfails
          refine haccepted ?_
          rw [invalid_eq]
          exact List.mem_map.mpr ⟨f, List.mem_filter.mpr ⟨hf, by simp [htyped, hfilled, hfails]⟩, rfl⟩
        obtain ⟨rule, hrule⟩ : ∃ rule, FIELD_VALUE_RULES P f.type = some rule := by
          refine Option.ne_none_iff_exists'.mp fun hnone => ?_
          rw [rule_eq_none_iff, not_image_of_typed htyped, not_auto_of_typed htyped] at hnone
          cases hnone
        have hvalid := valid_of_noProblem hrule (by rwa [trim_supplied]) hpasses.2
        rw [trim_supplied] at hvalid
        exact printable_of_valid hemail hrule hchoice hvalid

/-! ## Two boxes -/

/-- The library as it behaves on the boxes below. -/
def boxPlatform : Platform where
  email := fun v => v.all addressUnit && v.contains 0x40
  uuid := fun v => v.length == 36
  isLetter := fun _ => false
  isMark := fun _ => false

theorem boxPlatform_addresses : AddressesAreAscii boxPlatform := by
  intro v hv
  simp only [boxPlatform, Bool.and_eq_true] at hv
  exact hv.1

def boxField (type : FieldType) (options : Option (List JsString)) : TemplateField where
  id := js "6f9619ff-8b86-4d01-b42d-00cf4fc964ff"
  type := type
  page := 1
  x := 1 / 10
  y := 1 / 10
  w := 1 / 5
  h := 1 / 20
  required := true
  recipientKey := js "signer"
  label := none
  options := options

/-- A submission that puts one text into every box. -/
def typing (text : String) : Values := fun _ => some (js text)

theorem accepted_prints_email :
    printsAsTyped (written (typing "ali@sign.uz") 0 (boxField .email none)) = true :=
  (accepted_prints_iff boxPlatform_addresses
    (List.mem_singleton_self _) (by decide +kernel) (by decide +kernel)).mpr
    fun h => absurd h (by decide)

/-- A dropdown that offers an answer in Cyrillic: the layout is valid, the answer is accepted and stored,
and the page shows two question marks. -/
theorem cyrillic_option_prints_questions :
    let layout := [boxField .dropdown (some [js "Ҳа"])]
    let resolved := resolveFieldValues boxPlatform layout (typing "Ҳа") 0
    TemplateFieldsSchema boxPlatform layout = true ∧ resolved.accepted = true ∧
      resolved.values (boxField .dropdown none).id = some (js "Ҳа") ∧
      toPdfSafeText (js "Ҳа") = js "??" ∧ printsAsTyped (js "Ҳа") = false := by
  decide +kernel

end ESignSoft.Signing
