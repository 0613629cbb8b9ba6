import ESignSoft.Lib.CodePoints
import ESignSoft.Signing.PrintedText

/-!
# What becomes of a value's rule in print

`toPdfSafeText` writes a typographic mark in plain characters, and what the font does not have as a space or
a question mark.  Whether the text on the page still obeys the rule of its box can be read off the value.

* `respelledAs_iff` — the text on the page, character by character;
* `noProblem_printed_iff` — outside the choice fields only the ellipses count, which take three characters;
* `writesDate_iff` — the values that come out as a date.
-/

namespace ESignSoft.Signing

open ESignSoft.Lib.JsText ESignSoft.Lib.Utf8 ESignSoft.Contracts

/-- Printable ASCII and Latin-1: the code points that are printed as they are. -/
def isLatin (code : Nat) : Prop := (0x20 ≤ code ∧ code ≤ 0x7E) ∨ (0xA0 ≤ code ∧ code ≤ 0xFF)

instance : DecidablePred isLatin := fun _ => inferInstanceAs (Decidable (_ ∨ _))

/-- A character and what stands for it on the page. -/
inductive PrintsAs : Nat × JsString → JsString → Prop
  | itself {ch} (h : isLatin ch.1) : PrintsAs ch ch.2
  | mark {ch text} (h : ¬ isLatin ch.1) (hmark : TRANSLITERATIONS ch.1 = some text) : PrintsAs ch text
  | blank {ch} (h : ch.1 = 0x09 ∨ ch.1 = 0x0A ∨ ch.1 = 0x0D) : PrintsAs ch (js " ")
  | unknown {ch} (h : ¬ isLatin ch.1) (hmark : TRANSLITERATIONS ch.1 = none)
      (hblank : ¬ (ch.1 = 0x09 ∨ ch.1 = 0x0A ∨ ch.1 = 0x0D)) : PrintsAs ch (js "?")

/-- One text spelled in the characters another has on the page. -/
def RespelledAs (value text : JsString) : Prop :=
  ∃ parts, List.Forall₂ PrintsAs (codePoints value) parts ∧ text = parts.flatten

/-- A value that comes out as the date: letter by letter, with a dash or a bullet for any hyphen. -/
def WritesDate (value date : JsString) : Prop :=
  List.Forall₂ (fun u d => u = d ∨ (d = 0x2D ∧ u ∈ [0x2013, 0x2014, 0x2022])) value date

/-! ## Character by character -/

theorem toPdfSafeChar_eq (ch : Nat × JsString) :
    toPdfSafeChar ch =
      if isLatin ch.1 then ch.2
      else
        match TRANSLITERATIONS ch.1 with
        | some text => text
        | none => if ch.1 = 0x09 ∨ ch.1 = 0x0A ∨ ch.1 = 0x0D then js " " else js "?" :=
  rfl

theorem printsAs_iff {ch : Nat × JsString} {text : JsString} : PrintsAs ch text ↔ text = toPdfSafeChar ch := by
  rw [toPdfSafeChar_eq]
  constructor
  · intro h
    cases h with
    | itself h => rw [if_pos h]
    | mark h hmark => simp only [if_neg h, hmark]
    | blank h =>
        have hlatin : ¬ isLatin ch.1 := by unfold isLatin; omega
        have hmark : TRANSLITERATIONS ch.1 = none := by
          unfold TRANSLITERATIONS
          split_ifs <;> first | rfl | omega
        simp only [if_neg hlatin, hmark, if_pos h]
    | unknown h hmark hblank => simp only [if_neg h, hmark, if_neg hblank]
  · rintro rfl
    by_cases hlatin : isLatin ch.1
    · rw [if_pos hlatin]
      exact .itself hlatin
    · rw [if_neg hlatin]
      cases hmark : TRANSLITERATIONS ch.1 with
      | some text => exact .mark hlatin hmark
      | none =>
          by_cases hblank : ch.1 = 0x09 ∨ ch.1 = 0x0A ∨ ch.1 = 0x0D
          · simpa only [if_pos hblank] using .blank hblank
          · simpa only [if_neg hblank] using .unknown hlatin hmark hblank

/-- **The text on the page.** -/
theorem respelledAs_iff {value text : JsString} : RespelledAs value text ↔ text = toPdfSafeText value := by
  unfold RespelledAs toPdfSafeText
  rw [List.flatMap_def]
  constructor
  · rintro ⟨parts, hparts, rfl⟩
    have heq : List.Forall₂ Eq parts ((codePoints value).map toPdfSafeChar) := by
      rw [List.forall₂_map_right_iff]
      exact hparts.flip.imp fun _ _ h => printsAs_iff.mp h
    rw [List.forall₂_eq_eq_eq] at heq
    rw [heq]
  · rintro rfl
    refine ⟨_, ?_, rfl⟩
    rw [List.forall₂_map_right_iff]
    exact List.forall₂_same.mpr fun _ _ => printsAs_iff.mpr rfl

/-- What stands for a mark of its own. -/
theorem mem_of_mark {code : Nat} {text : JsString} (h : ¬ isLatin code)
    (hmark : TRANSLITERATIONS code = some text) :
    text ∈ [js "'", js "\"", js "-", js "..."] ∧ (text = js "..." ↔ code = 0x2026) := by
  have hdots : js "'" ≠ js "..." ∧ js "\"" ≠ js "..." ∧ js "-" ≠ js "..." := by decide
  unfold isLatin at h
  unfold TRANSLITERATIONS at hmark
  split_ifs at hmark
  · obtain rfl := Option.some.inj hmark
    exact ⟨by simp, iff_of_false hdots.1 (by omega)⟩
  · obtain rfl := Option.some.inj hmark
    exact ⟨by simp, iff_of_false hdots.2.1 (by omega)⟩
  · obtain rfl := Option.some.inj hmark
    exact ⟨by simp, iff_of_false hdots.2.2 (by omega)⟩
  · obtain rfl := Option.some.inj hmark
    exact ⟨by simp, iff_of_true rfl (by omega)⟩
  · omega

/-- The units on the page are Latin. -/
theorem isLatin_of_mem_printed {value : JsString} {u : UInt16} (hu : u ∈ toPdfSafeText value) :
    isLatin u.toNat := by
  have hplain : ∀ text ∈ [js "'", js "\"", js "-", js "...", js " ", js "?"], ∀ x ∈ text, isLatin x.toNat := by
    simpa [List.all_eq_true] using (by decide : ([js "'", js "\"", js "-", js "...", js " ", js "?"].all fun text =>
      text.all fun x => decide (isLatin x.toNat)) = true)
  obtain ⟨ch, hch, hu⟩ := List.mem_flatMap.mp hu
  have hspelled := (spelled_of_mem hch).1
  generalize htext : toPdfSafeChar ch = text at hu
  cases printsAs_iff.mpr htext.symm with
  | itself h =>
      cases hspelled with
      | single x =>
          obtain rfl := List.mem_singleton.mp hu
          exact h
      | pair x y =>
          unfold isLatin at h
          dsimp only at h
          omega
  | mark h hmark =>
      have hlisted := (mem_of_mark h hmark).1
      exact hplain text (List.mem_append_left [js " ", js "?"] hlisted) u hu
  | blank h => exact hplain (js " ") (by simp) u hu
  | unknown h => exact hplain (js "?") (by simp) u hu

/-- Latin text, and no other, is printed as it is. -/
theorem toPdfSafeText_eq_self_iff {value : JsString} :
    toPdfSafeText value = value ↔ ∀ u ∈ value, isLatin u.toNat := by
  constructor
  · intro h u hu
    rw [← h] at hu
    exact isLatin_of_mem_printed hu
  · intro h
    have hsame : ∀ ch ∈ codePoints value, toPdfSafeChar ch = ch.2 := by
      intro ch hch
      obtain ⟨hspelled, hunits⟩ := spelled_of_mem hch
      cases hspelled with
      | single u => exact if_pos (h u (hunits u (by simp)))
      | pair u v hhigh hlow =>
          have hlatin := h u (hunits u (by simp))
          rw [isHighSurrogate_iff] at hhigh
          unfold isLatin at hlatin
          omega
    calc toPdfSafeText value = (codePoints value).flatMap Prod.snd := List.flatMap_congr hsame
      _ = value := flatMap_codePoints value

/-! ## Printable text, unit by unit -/

/-- What is printed for one unit. -/
def printUnit (u : UInt16) : JsString := toPdfSafeChar (u.toNat, [u])

theorem toPdfSafeText_of_PRINTABLE {value : JsString} (h : PRINTABLE value = true) :
    toPdfSafeText value = value.flatMap printUnit := by
  induction value with
  | nil => rfl
  | cons u value ih =>
      rw [PRINTABLE, List.all_cons, Bool.and_eq_true] at h
      have hhigh : isHighSurrogate u = false := by
        by_contra hhigh
        rw [not_printable_of_high (by simpa using hhigh)] at h
        cases h.1
      rw [toPdfSafeText, codePoints_cons_of_not_high hhigh, List.flatMap_cons, List.flatMap_cons]
      exact congrArg (printUnit u ++ ·) (ih h.2)

/-- A printable unit stands for itself, or is a mark. -/
theorem printUnit_cases {u : UInt16} (h : isPrintable u = true) :
    (isLatin u.toNat ∧ printUnit u = [u]) ∨
      (¬ isLatin u.toNat ∧ TRANSLITERATIONS u.toNat = some (printUnit u)) := by
  by_cases hlatin : isLatin u.toNat
  · exact Or.inl ⟨hlatin, if_pos hlatin⟩
  · rcases isPrintable_iff.mp h with hbounds | hmark
    · exact absurd hbounds hlatin
    · obtain ⟨text, hmark⟩ := Option.isSome_iff_exists.mp hmark
      have hprint : printUnit u = text := by
        unfold printUnit
        rw [toPdfSafeChar_eq]
        simp only [if_neg hlatin, hmark]
      exact Or.inr ⟨hlatin, by rw [hmark, hprint]⟩

theorem length_printUnit {u : UInt16} (h : isPrintable u = true) :
    (printUnit u).length = 1 + 2 * (if u = 0x2026 then 1 else 0) := by
  rcases printUnit_cases h with ⟨hlatin, hprint⟩ | ⟨hlatin, hmark⟩
  · have hne : u ≠ 0x2026 := by
      rintro rfl
      revert hlatin
      decide
    rw [hprint, if_neg hne]
    rfl
  · obtain ⟨hmem, hdots⟩ := mem_of_mark hlatin hmark
    have hunit : u.toNat = 0x2026 ↔ u = 0x2026 := ⟨fun h => UInt16.toNat_inj.mp h, fun h => by rw [h]; rfl⟩
    rw [hunit] at hdots
    by_cases hu : u = 0x2026
    · rw [if_pos hu, hdots.mpr hu]
      rfl
    · rw [if_neg hu]
      simp only [List.mem_cons, List.not_mem_nil, or_false] at hmem
      rcases hmem with hmem | hmem | hmem | hmem
      · rw [hmem]; rfl
      · rw [hmem]; rfl
      · rw [hmem]; rfl
      · exact absurd (hdots.mp hmem) hu

/-- **The length on the page**: an ellipsis is printed as three points. -/
theorem length_printed {value : JsString} (h : PRINTABLE value = true) :
    (toPdfSafeText value).length = value.length + 2 * value.count 0x2026 := by
  rw [toPdfSafeText_of_PRINTABLE h]
  induction value with
  | nil => rfl
  | cons u value ih =>
      rw [PRINTABLE, List.all_cons, Bool.and_eq_true] at h
      rw [List.flatMap_cons, List.length_append, length_printUnit h.1, ih h.2, List.length_cons, List.count_cons]
      simp only [beq_iff_eq]
      omega

/-- A unit that is not blank is not printed blank. -/
theorem notBlank_printUnit {u : UInt16} (h : isPrintable u = true) (hu : isWhiteSpace u = false) :
    printUnit u ≠ [] ∧ ∀ x ∈ printUnit u, isWhiteSpace x = false := by
  have hmarks : ∀ text ∈ [js "'", js "\"", js "-", js "..."], text ≠ [] ∧ ∀ x ∈ text, isWhiteSpace x = false := by
    simpa [List.all_eq_true] using (by decide : ([js "'", js "\"", js "-", js "..."].all fun text =>
      decide (text ≠ []) && text.all fun x => isWhiteSpace x == false) = true)
  rcases printUnit_cases h with ⟨-, hprint⟩ | ⟨hlatin, hmark⟩
  · rw [hprint]
    exact ⟨List.cons_ne_nil u [], fun x hx => by rwa [List.mem_singleton.mp hx]⟩
  · exact hmarks _ (mem_of_mark hlatin hmark).1

/-- Printing a text without blanks around it puts none there. -/
theorem trim_printed {value : JsString} (h : PRINTABLE value = true) (htrim : trim value = value) :
    trim (toPdfSafeText value) = toPdfSafeText value := by
  have hall := List.all_eq_true.mp h
  rw [toPdfSafeText_of_PRINTABLE h]
  rw [trim_eq_self_iff] at htrim ⊢
  constructor
  · cases value with
    | nil => simp
    | cons u value =>
        obtain ⟨hne, hblank⟩ := notBlank_printUnit (hall u (by simp)) (htrim.1 u rfl)
        intro x hx
        rw [List.flatMap_cons, List.head?_append_of_ne_nil _ hne] at hx
        exact hblank x (List.mem_of_mem_head? hx)
  · cases value using List.reverseRecOn with
    | nil => simp
    | append_singleton value u =>
        obtain ⟨hne, hblank⟩ := notBlank_printUnit (hall u (by simp)) (htrim.2 u (by simp))
        intro x hx
        rw [List.flatMap_append, List.flatMap_singleton, List.getLast?_append_of_ne_nil _ hne] at hx
        exact hblank x (List.mem_of_getLast? hx)

/-! ## The rules -/

theorem noProblem_iff {P : Platform} {type : FieldType} {rule : FieldValueRule}
    (hrule : FIELD_VALUE_RULES P type = some rule) {value : JsString} (htrim : trim value = value)
    (hne : value ≠ []) :
    fieldValueProblem P type value = none ↔ value.length ≤ rule.max ∧ rule.valid value = true := by
  constructor
  · intro h
    have hlength := length_of_noProblem hrule (by rwa [htrim]) h
    have hvalid := valid_of_noProblem hrule (by rwa [htrim]) h
    rw [htrim] at hlength hvalid
    exact ⟨hlength, hvalid⟩
  · rintro ⟨hlength, hvalid⟩
    unfold fieldValueProblem
    simp [hrule, htrim, hne, hlength, hvalid]

theorem printable_of_isLatin {u : UInt16} (h : isLatin u.toNat) : isPrintable u = true :=
  isPrintable_iff.mpr (Or.inl h)

theorem PRINTABLE_printed (value : JsString) : PRINTABLE (toPdfSafeText value) = true :=
  List.all_eq_true.mpr fun _ hu => printable_of_isLatin (isLatin_of_mem_printed hu)

/-- A name stays one: of its marks only apostrophes are left. -/
theorem personName_printed {value : JsString} (h : PERSON_NAME value = true) :
    PERSON_NAME (toPdfSafeText value) = true := by
  have hjoins : ∀ u ∈ nameJoins, ∀ x ∈ printUnit u, nameJoins.contains x = true := by
    simpa [List.all_eq_true] using (by decide : (nameJoins.all fun u =>
      (printUnit u).all fun x => nameJoins.contains x) = true)
  have hletter : ∀ u, isLatinLetter u = true → printUnit u = [u] := by
    intro u hu
    simp only [isLatinLetter, Bool.or_eq_true, Bool.and_eq_true, decide_eq_true_eq,
      UInt16.le_iff_toNat_le, UInt16.reduceToNat] at hu
    exact if_pos (by omega)
  rw [toPdfSafeText_of_PRINTABLE (printable_of_personName h)]
  simp only [PERSON_NAME, Bool.and_eq_true, List.any_eq_true, List.all_eq_true, Bool.or_eq_true,
    List.contains_iff_mem] at h hjoins ⊢
  obtain ⟨⟨u, hu, hlatin⟩, hall⟩ := h
  refine ⟨⟨u, List.mem_flatMap.mpr ⟨u, hu, by simp [hletter u hlatin]⟩, hlatin⟩, fun x hx => ?_⟩
  obtain ⟨w, hw, hx⟩ := List.mem_flatMap.mp hx
  rcases hall w hw with hlatin | hjoin
  · rw [hletter w hlatin, List.mem_singleton] at hx
    exact Or.inl (hx ▸ hlatin)
  · exact Or.inr (hjoins w hjoin x hx)

theorem isPrintableAscii_of_addressUnit {u : UInt16} (h : addressUnit u = true) :
    isPrintableAscii u = true := by
  simp only [addressUnit, Bool.or_eq_true, Bool.and_eq_true, decide_eq_true_eq,
    UInt16.le_iff_toNat_le, UInt16.reduceToNat, List.contains_iff_mem] at h
  rcases h with ((h | h) | h) | h
  · exact printable_of_isDigit h
  · exact isPrintableAscii_iff.mpr (by omega)
  · exact isPrintableAscii_iff.mpr (by omega)
  · exact List.all_eq_true.mp (by decide) u h

/-- What the rule of a box takes is still taken in print, its length aside; the choice fields have no rule of
their own. -/
theorem valid_printed {P : Platform} (hemail : AddressesAreAscii P) {type : FieldType} {rule : FieldValueRule}
    (hrule : FIELD_VALUE_RULES P type = some rule) (hchoice : CHOICE_KINDS type = false) {value : JsString}
    (hvalid : rule.valid value = true) : rule.valid (toPdfSafeText value) = true := by
  -- Plain ASCII is printed as it is.
  have hascii (h : ∀ u ∈ value, isPrintableAscii u = true) : rule.valid (toPdfSafeText value) = true := by
    rw [toPdfSafeText_of_printable h]
    exact hvalid
  cases type with
  | signature | initial | stamp | date => cases hrule
  | name | first_name | last_name =>
      cases hrule
      exact personName_printed hvalid
  | company | title | text | address =>
      cases hrule
      exact PRINTABLE_printed value
  | email =>
      cases hrule
      exact hascii fun u hu => isPrintableAscii_of_addressUnit (List.all_eq_true.mp (hemail value hvalid) u hu)
  | number =>
      cases hrule
      refine hascii fun u hu => ?_
      rcases units_of_number hvalid hu with hdigit | rfl | rfl | rfl
      · exact printable_of_isDigit hdigit
      all_goals decide
  | phone =>
      cases hrule
      refine hascii fun u hu => ?_
      rcases units_of_phone hvalid hu with hdigit | rfl | rfl | rfl | rfl | rfl
      · exact printable_of_isDigit hdigit
      all_goals decide
  | date_input =>
      cases hrule
      refine hascii fun u hu => ?_
      rcases units_of_calendarDate hvalid hu with hdigit | rfl
      · exact printable_of_isDigit hdigit
      · decide
  | checkbox =>
      cases hrule
      refine hascii ?_
      rw [beq_iff_eq.mp hvalid]
      exact List.all_eq_true.mp (by decide)
  | dropdown | radio => cases hchoice

/-- **A valid value in print.**  Outside the choice fields the page shows something its box takes exactly when
there is room for the points of the ellipses. -/
theorem noProblem_printed_iff {P : Platform} (hemail : AddressesAreAscii P) {type : FieldType}
    {rule : FieldValueRule} (hrule : FIELD_VALUE_RULES P type = some rule) (hchoice : CHOICE_KINDS type = false)
    {value : JsString} (hne : value ≠ []) (htrim : trim value = value) (hvalid : rule.valid value = true) :
    fieldValueProblem P type (toPdfSafeText value) = none ↔
      value.length + 2 * value.count 0x2026 ≤ rule.max := by
  have hprintable := printable_of_valid hemail hrule hchoice hvalid
  have hlength := length_printed hprintable
  have hprinted : toPdfSafeText value ≠ [] := by
    intro hnil
    rw [hnil] at hlength
    have := List.length_pos_iff.mpr hne
    simp only [List.length_nil] at hlength
    omega
  rw [noProblem_iff hrule (trim_printed hprintable htrim) hprinted, hlength,
    and_iff_left (valid_printed hemail hrule hchoice hvalid)]

/-- Free text: the boxes whose rule is `PRINTABLE` and a length. -/
def FREE_TEXT (type : FieldType) : Bool :=
  type == .company || type == .title || type == .text || type == .address

/-- Only free text and the choices can have an ellipsis in them. -/
theorem count_ellipsis_eq_zero {P : Platform} (hemail : AddressesAreAscii P) {type : FieldType}
    {rule : FieldValueRule} (hrule : FIELD_VALUE_RULES P type = some rule) (hchoice : CHOICE_KINDS type = false)
    (hfree : FREE_TEXT type = false) {value : JsString} (hvalid : rule.valid value = true) :
    value.count 0x2026 = 0 := by
  refine List.count_eq_zero.mpr fun hmem => ?_
  cases type with
  | signature | initial | stamp | date => cases hrule
  | name | first_name | last_name =>
      cases hrule
      have hname : PERSON_NAME value = true := hvalid
      simp only [PERSON_NAME, Bool.and_eq_true, List.all_eq_true] at hname
      exact absurd (hname.2 _ hmem) (by decide)
  | company | title | text | address => cases hfree
  | email =>
      cases hrule
      exact absurd (List.all_eq_true.mp (hemail value hvalid) _ hmem) (by decide)
  | number =>
      cases hrule
      exact absurd (units_of_number hvalid hmem) (by decide)
  | phone =>
      cases hrule
      exact absurd (units_of_phone hvalid hmem) (by decide)
  | date_input =>
      cases hrule
      exact absurd (units_of_calendarDate hvalid hmem) (by decide)
  | checkbox =>
      cases hrule
      rw [beq_iff_eq.mp hvalid] at hmem
      exact absurd hmem (by decide)
  | dropdown | radio => cases hchoice

/-! ## Dates -/

theorem dash_of_mark {code : Nat} (hmark : TRANSLITERATIONS code = some (js "-")) :
    code = 0x2013 ∨ code = 0x2014 ∨ code = 0x2022 := by
  have hother : js "'" ≠ js "-" ∧ js "\"" ≠ js "-" ∧ js "..." ≠ js "-" ∧ js " " ≠ js "-" := by decide
  unfold TRANSLITERATIONS at hmark
  split_ifs at hmark with h1 h2 h3
  · exact absurd (Option.some.inj hmark) hother.1
  · exact absurd (Option.some.inj hmark) hother.2.1
  · exact h3
  · exact absurd (Option.some.inj hmark) hother.2.2.1
  · exact absurd (Option.some.inj hmark) hother.2.2.2

/-- Where neither a blank nor a question mark is printed, all of the value is printable. -/
theorem printable_of_printed {value : JsString} (hblank : 0x20 ∉ toPdfSafeText value)
    (hquestion : 0x3F ∉ toPdfSafeText value) : PRINTABLE value = true := by
  rw [← printsAsTyped_eq]
  refine List.all_eq_true.mpr fun ch hch => ?_
  have hmem : ∀ u ∈ toPdfSafeChar ch, u ∈ toPdfSafeText value :=
    fun u hu => List.mem_flatMap.mpr ⟨ch, hch, hu⟩
  unfold charPrintsAsTyped
  generalize htext : toPdfSafeChar ch = text at hmem
  cases printsAs_iff.mpr htext.symm with
  | itself h => simp
  | mark h hmark => simp [hmark]
  | blank h => exact absurd (hmem 0x20 (by decide)) hblank
  | unknown h => exact absurd (hmem 0x3F (by decide)) hquestion

/-- The signs a date is written with. -/
def isDateSign (u : UInt16) : Bool := isDigit u || u == 0x2B || u == 0x2D

/-- A unit that comes out as a sign of a date is that sign, or a dash. -/
theorem sign_of_printUnit {u : UInt16} (hu : isPrintable u = true) (hsigns : ∀ x ∈ printUnit u, isDateSign x = true) :
    ∃ d, printUnit u = [d] ∧ (u = d ∨ (d = 0x2D ∧ u ∈ [0x2013, 0x2014, 0x2022])) := by
  rcases printUnit_cases hu with ⟨-, hself⟩ | ⟨hother, hmark⟩
  · exact ⟨u, hself, Or.inl rfl⟩
  · -- Of what stands for a mark, only the hyphen is a sign of a date.
    have hhyphen : printUnit u = js "-" := by
      have hlisted : ([js "'", js "\"", js "-", js "..."].all fun text =>
          text == js "-" || !text.all isDateSign) = true := by decide
      have hone := List.all_eq_true.mp hlisted _ (mem_of_mark hother hmark).1
      rw [List.all_eq_true.mpr hsigns, Bool.not_true, Bool.or_false] at hone
      exact beq_iff_eq.mp hone
    rw [hhyphen] at hmark
    refine ⟨0x2D, hhyphen, Or.inr ⟨rfl, ?_⟩⟩
    simpa [← UInt16.toNat_inj] using dash_of_mark hmark

theorem printUnit_of_sign {u d : UInt16} (hd : isDateSign d = true)
    (hu : u = d ∨ (d = 0x2D ∧ u ∈ [0x2013, 0x2014, 0x2022])) : isPrintable u = true ∧ printUnit u = [d] := by
  rcases hu with rfl | ⟨rfl, hu⟩
  · have hlatin : isLatin u.toNat := by
      simp only [isDateSign, Bool.or_eq_true, beq_iff_eq] at hd
      rcases hd with (hd | rfl) | rfl
      · exact Or.inl (isPrintableAscii_iff.mp (printable_of_isDigit hd))
      all_goals decide
    exact ⟨printable_of_isLatin hlatin, if_pos hlatin⟩
  · simp only [List.mem_cons, List.not_mem_nil, or_false] at hu
    rcases hu with rfl | rfl | rfl <;> decide

theorem writesDate_of_flatMap {value date : JsString} (hdate : ∀ u ∈ date, isDateSign u = true)
    (hprintable : PRINTABLE value = true) (h : value.flatMap printUnit = date) : WritesDate value date := by
  induction value generalizing date with
  | nil =>
      subst h
      exact .nil
  | cons u value ih =>
      rw [PRINTABLE, List.all_cons, Bool.and_eq_true] at hprintable
      subst h
      rw [List.flatMap_cons] at hdate ⊢
      obtain ⟨d, hprint, hsign⟩ :=
        sign_of_printUnit hprintable.1 fun x hx => hdate x (List.mem_append_left _ hx)
      rw [hprint]
      exact .cons hsign (ih (fun x hx => hdate x (List.mem_append_right _ hx)) hprintable.2 rfl)

theorem flatMap_of_writesDate {value date : JsString} (hdate : ∀ u ∈ date, isDateSign u = true)
    (h : WritesDate value date) : PRINTABLE value = true ∧ value.flatMap printUnit = date := by
  induction h with
  | nil => exact ⟨rfl, rfl⟩
  | cons hone _ ih =>
      obtain ⟨hunit, hprint⟩ := printUnit_of_sign (hdate _ (by simp)) hone
      obtain ⟨hall, hrest⟩ := ih fun x hx => hdate x (List.mem_cons_of_mem _ hx)
      refine ⟨?_, by rw [List.flatMap_cons, hprint, hrest]; rfl⟩
      rw [PRINTABLE, List.all_cons, hunit]
      exact hall

/-- **What comes out as a date.** -/
theorem writesDate_iff {value date : JsString} (hdate : ∀ u ∈ date, isDateSign u = true) :
    toPdfSafeText value = date ↔ WritesDate value date := by
  constructor
  · intro h
    have hprintable : PRINTABLE value = true := by
      refine printable_of_printed (fun hmem => ?_) fun hmem => ?_
      · exact absurd (hdate _ (h ▸ hmem)) (by decide)
      · exact absurd (hdate _ (h ▸ hmem)) (by decide)
    rw [toPdfSafeText_of_PRINTABLE hprintable] at h
    exact writesDate_of_flatMap hdate hprintable h
  · intro h
    obtain ⟨hprintable, hprint⟩ := flatMap_of_writesDate hdate h
    rw [toPdfSafeText_of_PRINTABLE hprintable]
    exact hprint

end ESignSoft.Signing
