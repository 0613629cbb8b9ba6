import ESignSoft.Lib.CodePoints
import ESignSoft.Signing.PrintedText

/-!
# What may be typed

While a signer types, `sanitizeFieldInput` drops the characters no valid value can contain and cuts what
is left to the box's length.  The characters it lets through and the values a box accepts are written down
apart, and a cut can fall inside a surrogate pair.

* `sanitizeFieldInput_eq_self` — what the filter leaves alone;
* `typing_filter` — it leaves every beginning of a valid value alone, and what has been filtered once
  unless the cut has split a pair.

What is taken from the runtime: Latin letters and the two modifier letters are letters, and surrogates are
neither letters nor marks.
-/

namespace ESignSoft.Signing

open ESignSoft.Lib.JsText ESignSoft.Lib.Utf8 ESignSoft.Contracts

structure UnicodeClasses (P : Platform) : Prop where
  latin : ∀ u, isLatinLetter u = true → P.isLetter u.toNat = true
  /-- U+02BB and U+02BC. -/
  modifiers : P.isLetter 0x02BB = true ∧ P.isLetter 0x02BC = true
  surrogates : ∀ c, 0xD800 ≤ c → c ≤ 0xDFFF → P.isLetter c = false ∧ P.isMark c = false

/-- The library's addresses hold no white space. -/
def AddressesHaveNoBlank (P : Platform) : Prop := ∀ v, P.email v = true → ∀ u ∈ v, isWhiteSpace u = false

/-- What is left of the typed text before it is cut. -/
def keptInput (chars : Option (Nat × JsString → Bool)) (raw : JsString) : JsString :=
  match chars with
  | some chars => ((codePoints raw).filter chars).flatMap Prod.snd
  | none => raw

theorem sanitizeFieldInput_eq {P : Platform} {type : FieldType} {rule : FieldValueRule}
    (hrule : FIELD_VALUE_RULES P type = some rule) (raw : JsString) :
    sanitizeFieldInput P type raw = (keptInput rule.chars raw).take rule.max := by
  unfold sanitizeFieldInput
  rw [hrule]
  rfl

/-- No character of the text is dropped. -/
def AllKept (chars : Option (Nat × JsString → Bool)) (s : JsString) : Prop :=
  ∀ keep ∈ chars, ∀ ch ∈ codePoints s, keep ch = true

theorem keptInput_eq_self {chars : Option (Nat × JsString → Bool)} {s : JsString} (h : AllKept chars s) :
    keptInput chars s = s := by
  cases chars with
  | none => rfl
  | some keep =>
      rw [keptInput, List.filter_eq_self.mpr (h keep rfl)]
      exact flatMap_codePoints s

/-- The filter leaves alone what is short enough and holds no character it drops. -/
theorem sanitizeFieldInput_eq_self {P : Platform} {type : FieldType} {rule : FieldValueRule}
    (hrule : FIELD_VALUE_RULES P type = some rule) {s : JsString} (h : AllKept rule.chars s)
    (hlength : s.length ≤ rule.max) : sanitizeFieldInput P type s = s := by
  rw [sanitizeFieldInput_eq hrule, keptInput_eq_self h, List.take_of_length_le hlength]

/-! ## Classes of single units -/

/-- Where every unit is of a class, so is a unit of every character. -/
theorem any_of_units {q : UInt16 → Bool} {s : JsString} (h : ∀ u ∈ s, q u = true) {ch : Nat × JsString}
    (hch : ch ∈ codePoints s) : ch.2.any q = true := by
  obtain ⟨hspelled, hunits⟩ := spelled_of_mem hch
  cases hspelled with
  | single u => simpa using h u (hunits u (by simp))
  | pair u v hhigh hlow => simp [h u (hunits u (by simp))]

/-- A class that never tells the two halves of a pair apart holds of all units it has kept. -/
theorem units_of_kept {q : UInt16 → Bool}
    (hpairs : ∀ u v, isHighSurrogate u = true → isLowSurrogate v = true → q u = q v) (raw : JsString) :
    ∀ u ∈ keptInput (some fun ch => ch.2.any q) raw, q u = true := by
  intro u hu
  obtain ⟨ch, hch, hu⟩ := List.mem_flatMap.mp hu
  obtain ⟨hch, hany⟩ := List.mem_filter.mp hch
  cases (spelled_of_mem hch).1 with
  | single v =>
      obtain rfl := List.mem_singleton.mp hu
      simpa using hany
  | pair v w hhigh hlow =>
      have hsame := hpairs v w hhigh hlow
      simp only [List.any_cons, List.any_nil, Bool.or_false, ← hsame, Bool.or_self] at hany
      rcases List.mem_pair.mp hu with rfl | rfl
      · exact hany
      · rwa [← hsame]

theorem surrogate_bounds {u : UInt16} (h : isHighSurrogate u = true ∨ isLowSurrogate u = true) :
    0xD800 ≤ u.toNat ∧ u.toNat ≤ 0xDFFF := by
  rw [isHighSurrogate_iff, isLowSurrogate_iff] at h
  omega

theorem isWhiteSpace_surrogate {u : UInt16} (h : 0xD800 ≤ u.toNat ∧ u.toNat ≤ 0xDFFF) :
    isWhiteSpace u = false := by
  rw [Bool.eq_false_iff]
  intro hwhite
  simp only [isWhiteSpace, Bool.or_eq_true, Bool.and_eq_true, decide_eq_true_eq, beq_iff_eq,
    UInt16.le_iff_toNat_le, ← UInt16.toNat_inj, UInt16.reduceToNat] at hwhite
  omega

theorem isDigit_surrogate {u : UInt16} (h : 0xD800 ≤ u.toNat ∧ u.toNat ≤ 0xDFFF) : isDigit u = false := by
  rw [Bool.eq_false_iff]
  intro hdigit
  simp only [isDigit, Bool.and_eq_true, decide_eq_true_eq, UInt16.le_iff_toNat_le,
    UInt16.reduceToNat] at hdigit
  omega

/-- A class without surrogates tells no pair apart. -/
theorem class_agrees_on_pairs {q : UInt16 → Bool} (h : ∀ u, 0xD800 ≤ u.toNat ∧ u.toNat ≤ 0xDFFF → q u = false)
    (u v : UInt16) (hhigh : isHighSurrogate u = true) (hlow : isLowSurrogate v = true) : q u = q v := by
  rw [h u (surrogate_bounds (Or.inl hhigh)), h v (surrogate_bounds (Or.inr hlow))]

theorem numberUnit_surrogate {u : UInt16} (h : 0xD800 ≤ u.toNat ∧ u.toNat ≤ 0xDFFF) :
    (isDigit u || u == 0x2E || u == 0x2C || u == 0x2D) = false := by
  rw [isDigit_surrogate h, Bool.eq_false_iff]
  simp only [Bool.false_or, Bool.or_eq_true, beq_iff_eq, ← UInt16.toNat_inj, UInt16.reduceToNat, ne_eq]
  omega

theorem phoneUnit_surrogate {u : UInt16} (h : 0xD800 ≤ u.toNat ∧ u.toNat ≤ 0xDFFF) :
    (isDigit u || u == 0x2B || u == 0x28 || u == 0x29 || u == 0x20 || u == 0x2D) = false := by
  rw [isDigit_surrogate h, Bool.eq_false_iff]
  simp only [Bool.false_or, Bool.or_eq_true, beq_iff_eq, ← UInt16.toNat_inj, UInt16.reduceToNat, ne_eq]
  omega

/-! ## Names -/

theorem nameChar_of_unit {P : Platform} (hunicode : UnicodeClasses P) {u : UInt16}
    (h : (isLatinLetter u || nameJoins.contains u) = true) : NAME_CHAR P (u.toNat, [u]) = true := by
  unfold NAME_CHAR
  rcases Bool.or_eq_true _ _ ▸ h with hletter | hjoin
  · simp [hunicode.latin u hletter]
  · simp only [nameJoins, List.contains_iff_mem, List.mem_cons, List.not_mem_nil, or_false] at hjoin
    rcases hjoin with rfl | rfl | rfl | rfl | rfl | rfl | rfl | rfl | rfl <;>
      simp [hunicode.modifiers]

theorem high_of_name_unit {u : UInt16} (h : (isLatinLetter u || nameJoins.contains u) = true) :
    isHighSurrogate u = false := by
  rw [Bool.eq_false_iff, Ne, isHighSurrogate_iff]
  simp only [isLatinLetter, nameJoins, Bool.or_eq_true, Bool.and_eq_true, decide_eq_true_eq,
    UInt16.le_iff_toNat_le, List.contains_iff_mem, List.mem_cons, List.not_mem_nil, or_false,
    ← UInt16.toNat_inj, UInt16.reduceToNat] at h
  omega

theorem allKept_name {P : Platform} (hunicode : UnicodeClasses P) {s : JsString}
    (h : ∀ u ∈ s, (isLatinLetter u || nameJoins.contains u) = true) :
    AllKept (some (NAME_CHAR P)) s := by
  rintro keep hkeep ch hch
  obtain rfl := Option.some.inj hkeep
  obtain ⟨hspelled, hunits⟩ := spelled_of_mem hch
  cases hspelled with
  | single u => exact nameChar_of_unit hunicode (h u (hunits u (by simp)))
  | pair u v hhigh hlow =>
      rw [high_of_name_unit (h u (hunits u (by simp)))] at hhigh
      cases hhigh

/-- A character of a name box holds no surrogate of its own. -/
theorem own_of_nameChar {P : Platform} (hunicode : UnicodeClasses P) {ch : Nat × JsString}
    (h : NAME_CHAR P ch = true) : ch.1 < 0xD800 ∨ 0xDFFF < ch.1 := by
  by_contra hrange
  obtain ⟨hletter, hmark⟩ := hunicode.surrogates ch.1 (by omega) (by omega)
  simp only [NAME_CHAR, hletter, hmark, Bool.or_self, Bool.false_or, List.contains_iff_mem, List.mem_cons,
    List.not_mem_nil, or_false] at h
  omega

/-! ## The rules -/

/-- How a rule tells characters apart: not at all, as a name, or by a class of units that holds of all units
of a valid value and never of one half of a pair alone. -/
inductive CharsOf (P : Platform) (rule : FieldValueRule) : Prop
  | anything (hchars : rule.chars = none)
  | name (hchars : rule.chars = some (NAME_CHAR P)) (hvalid : rule.valid = PERSON_NAME)
  | units (q : UInt16 → Bool) (hchars : rule.chars = some fun ch => ch.2.any q)
      (hvalid : ∀ v, rule.valid v = true → ∀ u ∈ v, q u = true)
      (hpairs : ∀ u v, isHighSurrogate u = true → isLowSurrogate v = true → q u = q v)

theorem charsOf_rule {P : Platform} (hemail : AddressesHaveNoBlank P) {type : FieldType} {rule : FieldValueRule}
    (hrule : FIELD_VALUE_RULES P type = some rule) : CharsOf P rule := by
  cases type with
  | signature => cases hrule
  | initial => cases hrule
  | stamp => cases hrule
  | date => cases hrule
  | name => cases hrule; exact .name rfl rfl
  | first_name => cases hrule; exact .name rfl rfl
  | last_name => cases hrule; exact .name rfl rfl
  | email =>
      cases hrule
      refine .units _ rfl (fun v hvalid u hu => by simp [hemail v hvalid u hu]) fun u v hhigh hlow => ?_
      rw [isWhiteSpace_surrogate (surrogate_bounds (Or.inl hhigh)),
        isWhiteSpace_surrogate (surrogate_bounds (Or.inr hlow))]
  | number =>
      cases hrule
      refine .units _ rfl (fun v hvalid u hu => ?_) (class_agrees_on_pairs fun _ => numberUnit_surrogate)
      rcases units_of_number hvalid hu with hdigit | rfl | rfl | rfl
      · simp [hdigit]
      all_goals simp
  | phone =>
      cases hrule
      refine .units _ rfl (fun v hvalid u hu => ?_) (class_agrees_on_pairs fun _ => phoneUnit_surrogate)
      rcases units_of_phone hvalid hu with hdigit | rfl | rfl | rfl | rfl | rfl
      · simp [hdigit]
      all_goals simp
  | company => cases hrule; exact .anything rfl
  | title => cases hrule; exact .anything rfl
  | text => cases hrule; exact .anything rfl
  | address => cases hrule; exact .anything rfl
  | checkbox => cases hrule; exact .anything rfl
  | dropdown => cases hrule; exact .anything rfl
  | radio => cases hrule; exact .anything rfl
  | date_input => cases hrule; exact .anything rfl

/-- Everything a valid value is written with passes the filter of its box. -/
theorem allKept_of_valid {P : Platform} (hunicode : UnicodeClasses P) {rule : FieldValueRule}
    (hrule : CharsOf P rule) {v p : JsString} (hvalid : rule.valid v = true) (hp : ∀ u ∈ p, u ∈ v) :
    AllKept rule.chars p := by
  cases hrule with
  | anything hchars =>
      rw [hchars]
      exact fun keep hkeep => by cases hkeep
  | name hchars hperson =>
      rw [hchars]
      rw [hperson] at hvalid
      simp only [PERSON_NAME, Bool.and_eq_true, List.all_eq_true] at hvalid
      exact allKept_name hunicode fun u hu => hvalid.2 u (hp u hu)
  | units q hchars hunits hpairs =>
      rw [hchars]
      rintro keep hkeep ch hch
      obtain rfl := Option.some.inj hkeep
      exact any_of_units (fun u hu => hunits v hvalid u (hp u hu)) hch

/-- Nothing of what has been kept would be dropped the next time. -/
theorem allKept_keptInput {P : Platform} (hunicode : UnicodeClasses P) {rule : FieldValueRule}
    (hrule : CharsOf P rule) (raw : JsString) : AllKept rule.chars (keptInput rule.chars raw) := by
  cases hrule with
  | anything hchars =>
      rw [hchars]
      exact fun keep hkeep => by cases hkeep
  | name hchars =>
      rw [hchars]
      rintro keep hkeep ch hch
      obtain rfl := Option.some.inj hkeep
      -- No character of a name ends or begins with a surrogate, so what is kept reads as what was kept.
      have hread : codePoints (keptInput (some (NAME_CHAR P)) raw) = (codePoints raw).filter (NAME_CHAR P) :=
        codePoints_flatMap (fun c hc => (spelled_of_mem (List.mem_filter.mp hc).1).1)
          fun c hc => own_of_nameChar hunicode (List.mem_filter.mp hc).2
      rw [hread] at hch
      exact (List.mem_filter.mp hch).2
  | units q hchars hunits hpairs =>
      rw [hchars]
      rintro keep hkeep ch hch
      obtain rfl := Option.some.inj hkeep
      exact any_of_units (units_of_kept hpairs raw) hch

/-- The cut at the box's length falls inside a pair of surrogates of what has been kept. -/
def CutSplits (P : Platform) (type : FieldType) (raw : JsString) : Prop :=
  ∃ rule, FIELD_VALUE_RULES P type = some rule ∧
    Splits ((keptInput rule.chars raw).take rule.max) ((keptInput rule.chars raw).drop rule.max)

theorem sanitizeFieldInput_of_no_rule {P : Platform} {type : FieldType} (hrule : FIELD_VALUE_RULES P type = none)
    (raw : JsString) : sanitizeFieldInput P type raw = raw := by
  unfold sanitizeFieldInput
  rw [hrule]

/-- **The typing filter never destroys a valid value**: any beginning of one can stand in the box while it
is typed; and filtering twice is filtering once, where the cut does not split a pair. -/
theorem typing_filter {P : Platform} (hunicode : UnicodeClasses P) (hemail : AddressesHaveNoBlank P)
    (type : FieldType) :
    (∀ v p, v ≠ [] → trim v = v → fieldValueProblem P type v = none → p <+: v →
      sanitizeFieldInput P type p = p) ∧
    ∀ raw, ¬ CutSplits P type raw →
      sanitizeFieldInput P type (sanitizeFieldInput P type raw) = sanitizeFieldInput P type raw := by
  cases hrule : FIELD_VALUE_RULES P type with
  | none =>
      have hkeeps := sanitizeFieldInput_of_no_rule hrule
      exact ⟨fun _ p _ _ _ _ => hkeeps p, fun raw _ => hkeeps _⟩
  | some rule =>
      constructor
      · intro v p hne htrim hproblem hprefix
        have hvalid := valid_of_noProblem hrule (by rwa [htrim]) hproblem
        have hlength := length_of_noProblem hrule (by rwa [htrim]) hproblem
        rw [htrim] at hvalid hlength
        exact sanitizeFieldInput_eq_self hrule
          (allKept_of_valid hunicode (charsOf_rule hemail hrule) hvalid fun u hu => hprefix.subset hu)
          (le_trans hprefix.length_le hlength)
      · intro raw hcut
        have hkept := allKept_keptInput hunicode (charsOf_rule hemail hrule) raw
        -- A cut that splits no pair leaves characters of what was kept, and no others.
        have happend := codePoints_append fun hsplits => hcut ⟨rule, hrule, hsplits⟩
        rw [List.take_append_drop] at happend
        rw [sanitizeFieldInput_eq hrule raw]
        refine sanitizeFieldInput_eq_self hrule (fun keep hkeep ch hch => ?_) (List.length_take_le _ _)
        exact hkept keep hkeep ch (by rw [happend]; exact List.mem_append_left _ hch)

/-! ## A name -/

/-- The runtime's letters as far as Latin-1 and the two modifier letters go. -/
def latinPlatform : Platform where
  email := boxPlatform.email
  uuid := boxPlatform.uuid
  isLetter := fun c => (0x41 ≤ c && c ≤ 0x5A) || (0x61 ≤ c && c ≤ 0x7A) || (0xC0 ≤ c && c ≤ 0xD6) ||
    (0xD8 ≤ c && c ≤ 0xF6) || (0xF8 ≤ c && c ≤ 0xFF) || c == 0x02BB || c == 0x02BC
  isMark := fun _ => false

theorem latinPlatform_classes : UnicodeClasses latinPlatform where
  latin := by
    intro u hu
    simp only [isLatinLetter, Bool.or_eq_true, Bool.and_eq_true, decide_eq_true_eq,
      UInt16.le_iff_toNat_le, UInt16.reduceToNat] at hu
    simp only [latinPlatform, Bool.or_eq_true, Bool.and_eq_true, decide_eq_true_eq, beq_iff_eq]
    exact Or.inl (Or.inl hu)
  modifiers := ⟨rfl, rfl⟩
  surrogates := by
    intro c hlow hhigh
    refine ⟨?_, rfl⟩
    rw [Bool.eq_false_iff]
    simp only [latinPlatform, Bool.or_eq_true, Bool.and_eq_true, decide_eq_true_eq, beq_iff_eq, ne_eq]
    omega

theorem latinPlatform_addresses : AddressesHaveNoBlank latinPlatform := by
  intro v hv u hu
  have hunit : addressUnit u = true := List.all_eq_true.mp (boxPlatform_addresses v hv) u hu
  rw [Bool.eq_false_iff]
  intro hwhite
  simp only [addressUnit, isWhiteSpace, isDigit, Bool.or_eq_true, Bool.and_eq_true, decide_eq_true_eq,
    beq_iff_eq, List.contains_iff_mem, List.mem_cons, List.not_mem_nil, or_false,
    UInt16.le_iff_toNat_le, ← UInt16.toNat_inj, UInt16.reduceToNat] at hunit hwhite
  omega

theorem typing_filter_name :
    sanitizeFieldInput latinPlatform .name (js "Oʻ") = js "Oʻ" ∧
      sanitizeFieldInput latinPlatform .name (sanitizeFieldInput latinPlatform .name (js "Ali 7😀")) =
        sanitizeFieldInput latinPlatform .name (js "Ali 7😀") := by
  have hfilter := typing_filter latinPlatform_classes latinPlatform_addresses .name
  refine ⟨hfilter.1 (js "Oʻktam") (js "Oʻ") (by decide) (by decide) (by decide +kernel) ?_,
    hfilter.2 _ ?_⟩
  · exact ⟨js "ktam", rfl⟩
  · rintro ⟨rule, hrule, u, hu, v, hv, -⟩
    cases hrule
    have hnil : (keptInput (personName latinPlatform 100).chars (js "Ali 7😀")).drop 100 = [] := by
      decide +kernel
    rw [show (personName latinPlatform 100).max = 100 from rfl, hnil] at hv
    cases hv

end ESignSoft.Signing
