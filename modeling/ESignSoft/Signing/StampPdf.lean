import ESignSoft.Signing.FieldValues
import Mathlib.Algebra.Order.Floor.Defs
import Mathlib.Data.Rat.Floor

/-!
# Stamping the signed PDF

`toPdfSafeText` puts a text into the characters the standard PDF font has; `stampPdf` draws one signer's
adopted signature and values into the pages of the document.  A page is what the PDF library reports
about it, and the width of a text in the font is the library's too; lengths are exact rationals.

* `toPdfSafeText_of_printable` — plain ASCII prints as it is;
* `prints_iff` — which texts end up in which boxes;
* `stampPdf_congr` — the pages are the same for two records that print the same texts.
-/

namespace ESignSoft.Signing

open ESignSoft.Lib.JsText ESignSoft.Contracts

/-- `TRANSLITERATIONS`, by code point. -/
def TRANSLITERATIONS (code : Nat) : Option JsString :=
  if code = 0x2018 ∨ code = 0x2019 ∨ code = 0x02BB ∨ code = 0x02BC then some (js "'")
  else if code = 0x201C ∨ code = 0x201D then some (js "\"")
  else if code = 0x2013 ∨ code = 0x2014 ∨ code = 0x2022 then some (js "-")
  else if code = 0x2026 then some (js "...")
  else if code = 0xA0 then some (js " ")
  else none

/-- What stands for a mark is short and plain. -/
theorem plain_of_transliterated {code : Nat} {text : JsString} (h : TRANSLITERATIONS code = some text) :
    text.all isPrintableAscii = true ∧ text.length ≤ 3 := by
  unfold TRANSLITERATIONS at h
  split_ifs at h <;> obtain rfl := Option.some.inj h <;> decide

/-- What one code point of the text is printed as. -/
def toPdfSafeChar (ch : Nat × JsString) : JsString :=
  if (0x20 ≤ ch.1 ∧ ch.1 ≤ 0x7E) ∨ (0xA0 ≤ ch.1 ∧ ch.1 ≤ 0xFF) then ch.2
  else
    match TRANSLITERATIONS ch.1 with
    | some text => text
    | none => if ch.1 = 0x09 ∨ ch.1 = 0x0A ∨ ch.1 = 0x0D then js " " else js "?"

def toPdfSafeText (value : JsString) : JsString := (codePoints value).flatMap toPdfSafeChar

/-- A page of the source PDF. -/
structure Page where
  rotation : Int
  width : ℚ
  height : ℚ
  mediaX : ℚ
  mediaY : ℚ

structure Box where
  x : ℚ
  y : ℚ
  width : ℚ
  height : ℚ

/-- Normalized top-left box to PDF bottom-left box, in points. -/
def toPdfBox (field : TemplateField) (pageWidth pageHeight : ℚ) : Box :=
  let width := field.w * pageWidth
  let height := field.h * pageHeight
  { x := field.x * pageWidth, y := pageHeight - field.y * pageHeight - height, width, height }

/-- What is drawn into one box. -/
inductive Mark
  | image (x y width height : ℚ)
  | text (text : JsString) (x y size : ℚ)

/-- A mark together with the field whose box it is drawn into. -/
structure Stamp where
  field : TemplateField
  mark : Mark

/-- The adopted signature's size and the font's measure. -/
structure StampTools where
  signatureWidth : ℚ
  signatureHeight : ℚ
  widthOfTextAtSize : JsString → ℚ → ℚ

/-- How often the size can be taken down by half a point before it is 5 or less. -/
def shrinkSteps (size : ℚ) : Nat := ⌈(size - 5) * 2⌉.toNat

/-- `while (size > 5 && width > box.width) size -= 0.5`, at most the given number of times. -/
def shrink (T : StampTools) (text : JsString) (boxWidth : ℚ) : Nat → ℚ → ℚ
  | 0, size => size
  | n + 1, size =>
      if size > 5 ∧ T.widthOfTextAtSize text size > boxWidth then
        shrink T text boxWidth n (size - 1 / 2)
      else size

/-- What is drawn for a field, in its box. -/
def stampMark (T : StampTools) (fieldValues : Values) (field : TemplateField) (box : Box) :
    Option Mark :=
  if IMAGE_KINDS field.type then
    let scale := min (box.width / T.signatureWidth) (box.height / T.signatureHeight)
    let drawW := T.signatureWidth * scale
    let drawH := T.signatureHeight * scale
    some (.image (box.x + (box.width - drawW) / 2) (box.y + (box.height - drawH) / 2) drawW drawH)
  else
    match fieldValues field.id with
    | none => none
    | some raw =>
        if raw = [] then none
        else if field.type = .checkbox then
          if raw = js "true" then
            some (.text (toPdfSafeText (js "X")) (box.x + box.width * (15 / 100))
              (box.y + box.height * (15 / 100)) (max 6 (box.height * (8 / 10))))
          else none
        else
          let start := min 12 (max 6 (box.height * (7 / 10)))
          let text := toPdfSafeText raw
          let size := shrink T text box.width (shrinkSteps start) start
          some (.text text (box.x + 1) (box.y + max 1 ((box.height - size) / 2)) size)

/-- `pages[field.page - 1]`. -/
def pageOf (pages : List Page) (field : TemplateField) : Option Page :=
  if field.page < 1 then none else pages[(field.page - 1).toNat]?

/-- The field's box on the page, moved to where the page's media box starts. -/
def Page.place (page : Page) (field : TemplateField) : Box :=
  let box := toPdfBox field page.width page.height
  { box with x := box.x + page.mediaX, y := box.y + page.mediaY }

/-- The rotation of a page, brought into `0 … 359`. -/
def Page.turned (p : Page) : Int := (p.rotation.tmod 360 + 360).tmod 360

inductive StampError
  /-- `stamp: page … is rotated …deg — fields cannot be placed accurately`. -/
  | rotated (page rotation : Int)
  deriving DecidableEq, Repr

/-- The box a field is drawn into, or the failure on a rotated page. -/
def stampBox (page : Page) (field : TemplateField) : Except StampError Box :=
  if page.turned ≠ 0 then .error (.rotated field.page page.turned) else .ok (page.place field)

/-- One turn of the loop: nothing for a field past the document. -/
def stampField (T : StampTools) (pages : List Page) (fieldValues : Values) (field : TemplateField) :
    Except StampError (List Stamp) :=
  match pageOf pages field with
  | none => .ok []
  | some page =>
      (stampBox page field).map fun box =>
        (stampMark T fieldValues field box).toList.map fun mark => ⟨field, mark⟩

def stampPdf (T : StampTools) (pages : List Page) :
    List TemplateField → Values → Except StampError (List Stamp)
  | [], _ => .ok []
  | field :: rest, fieldValues => do
      let here ← stampField T pages fieldValues field
      let there ← stampPdf T pages rest fieldValues
      return here ++ there

/-! ## What the boxes show -/

theorem toPdfSafeText_of_printable {s : JsString} (h : ∀ u ∈ s, isPrintableAscii u = true) :
    toPdfSafeText s = s := by
  have hchar : ∀ u ∈ s, toPdfSafeChar (u.toNat, [u]) = [u] := by
    intro u hu
    unfold toPdfSafeChar
    rw [if_pos (Or.inl (isPrintableAscii_iff.mp (h u hu)))]
  unfold toPdfSafeText
  rw [codePoints_of_printable h, List.flatMap_map]
  calc s.flatMap (fun u => toPdfSafeChar (u.toNat, [u])) = s.flatMap (fun u => [u]) :=
        List.flatMap_congr hchar
    _ = s := List.flatMap_singleton' s

/-- A text is drawn into a field's box. -/
def Prints (stamps : List Stamp) (field : TemplateField) (text : JsString) : Prop :=
  ∃ x y size, (⟨field, .text text x y size⟩ : Stamp) ∈ stamps

/-- The text a value puts into a field's box, if any. -/
def boxText (field : TemplateField) (raw : JsString) : Option JsString :=
  if raw = [] then none
  else if field.type = .checkbox then
    if raw = js "true" then some (toPdfSafeText (js "X")) else none
  else some (toPdfSafeText raw)

/-- The text a record puts into a field's box, if any. -/
def textOf (fieldValues : Values) (field : TemplateField) : Option JsString :=
  if IMAGE_KINDS field.type then none else (fieldValues field.id).bind (boxText field)

theorem stampMark_text_iff (T : StampTools) (box : Box) {fieldValues : Values}
    {field : TemplateField} {text : JsString} :
    (∃ x y size, stampMark T fieldValues field box = some (.text text x y size)) ↔
      textOf fieldValues field = some text := by
  unfold stampMark textOf
  by_cases himage : IMAGE_KINDS field.type = true
  · simp [himage]
  · simp only [if_neg himage]
    cases fieldValues field.id with
    | none => simp
    | some raw =>
        simp only [Option.bind_some, boxText]
        by_cases hempty : raw = []
        · simp [hempty]
        · by_cases hcheckbox : field.type = .checkbox
          · by_cases htrue : raw = js "true"
            · simp [hcheckbox, htrue, show js "true" ≠ [] by decide]
            · simp [hempty, hcheckbox, htrue]
          · simp [hempty, hcheckbox]

/-- Position and size of a text follow from the text. -/
theorem stampMark_congr {T : StampTools} {v v' : Values} {field : TemplateField} {box : Box}
    (h : textOf v field = textOf v' field) : stampMark T v field box = stampMark T v' field box := by
  unfold textOf at h
  unfold stampMark
  by_cases himage : IMAGE_KINDS field.type = true
  · simp [himage]
  · simp only [if_neg himage] at h ⊢
    cases hv : v field.id with
    | none =>
        cases hv' : v' field.id with
        | none => rfl
        | some raw' =>
            simp only [hv, hv', Option.bind_none, Option.bind_some, boxText] at h
            grind
    | some raw =>
        cases hv' : v' field.id with
        | none =>
            simp only [hv, hv', Option.bind_none, Option.bind_some, boxText] at h
            grind
        | some raw' =>
            simp only [hv, hv', Option.bind_some, boxText] at h
            grind

theorem stampField_congr {T : StampTools} {pages : List Page} {v v' : Values} {field : TemplateField}
    (h : (pageOf pages field).isSome → textOf v field = textOf v' field) :
    stampField T pages v field = stampField T pages v' field := by
  unfold stampField
  cases hpage : pageOf pages field with
  | none => rfl
  | some page =>
      rw [hpage] at h
      simp only [stampMark_congr (T := T) (h rfl)]

/-- Records that print the same texts stamp the same pages. -/
theorem stampPdf_congr {T : StampTools} {pages : List Page} {fields : List TemplateField}
    {v v' : Values}
    (h : ∀ f ∈ fields, (pageOf pages f).isSome → textOf v f = textOf v' f) :
    stampPdf T pages fields v = stampPdf T pages fields v' := by
  induction fields with
  | nil => rfl
  | cons field rest ih =>
      simp only [stampPdf]
      rw [stampField_congr (h field (by simp)), ih fun f hf => h f (by simp [hf])]

theorem stampField_ok {T : StampTools} {pages : List Page} {v : Values} {field : TemplateField}
    {stamps : List Stamp} (h : stampField T pages v field = .ok stamps) (st : Stamp) :
    st ∈ stamps ↔ ∃ page, pageOf pages field = some page ∧
      ∃ mark, stampMark T v field (page.place field) = some mark ∧ st = ⟨field, mark⟩ := by
  unfold stampField at h
  cases hpage : pageOf pages field with
  | none =>
      rw [hpage] at h
      cases h
      simp
  | some page =>
      rw [hpage] at h
      simp only [stampBox] at h
      split at h
      · cases h
      · cases h
        simp [eq_comm]

/-- Every stamp belongs to one of the fields, on a page that exists. -/
theorem mem_stampPdf {T : StampTools} {pages : List Page} {fields : List TemplateField} {v : Values}
    {stamps : List Stamp} (h : stampPdf T pages fields v = .ok stamps) (st : Stamp) :
    st ∈ stamps ↔ ∃ f ∈ fields, ∃ page, pageOf pages f = some page ∧
      ∃ mark, stampMark T v f (page.place f) = some mark ∧ st = ⟨f, mark⟩ := by
  induction fields generalizing stamps with
  | nil =>
      cases h
      simp
  | cons field rest ih =>
      simp only [stampPdf] at h
      cases hhere : stampField T pages v field with
      | error e =>
          rw [hhere] at h
          cases h
      | ok here =>
          cases hthere : stampPdf T pages rest v with
          | error e =>
              rw [hhere, hthere] at h
              cases h
          | ok there =>
              rw [hhere, hthere] at h
              cases h
              simp only [List.mem_append, stampField_ok hhere st, ih hthere, List.mem_cons,
                exists_eq_or_imp]

/-- **What is printed where.**  A text stands in a field's box exactly when the field is one of those
stamped, its page exists and the record holds that text for it. -/
theorem prints_iff {T : StampTools} {pages : List Page} {fields : List TemplateField} {v : Values}
    {stamps : List Stamp} (h : stampPdf T pages fields v = .ok stamps) (field : TemplateField)
    (text : JsString) :
    Prints stamps field text ↔
      field ∈ fields ∧ (pageOf pages field).isSome ∧ textOf v field = some text := by
  constructor
  · rintro ⟨x, y, size, hmem⟩
    obtain ⟨f, hf, page, hpage, mark, hmark, heq⟩ := (mem_stampPdf h _).mp hmem
    obtain ⟨rfl, rfl⟩ := Stamp.mk.inj heq
    exact ⟨hf, by simp [hpage], (stampMark_text_iff T _).mp ⟨x, y, size, hmark⟩⟩
  · rintro ⟨hf, hsome, htext⟩
    obtain ⟨page, hpage⟩ := Option.isSome_iff_exists.mp hsome
    obtain ⟨x, y, size, hmark⟩ := (stampMark_text_iff T (page.place field)).mpr htext
    exact ⟨x, y, size, (mem_stampPdf h _).mpr ⟨field, hf, page, hpage, _, hmark, rfl⟩⟩

/-- Where no field is on a rotated page, the stamping succeeds. -/
theorem stampPdf_ok {pages : List Page} {fields : List TemplateField}
    (hupright : ∀ f ∈ fields, ∀ page, pageOf pages f = some page → page.turned = 0) (T : StampTools)
    (v : Values) : ∃ stamps, stampPdf T pages fields v = .ok stamps := by
  induction fields with
  | nil => exact ⟨[], rfl⟩
  | cons field rest ih =>
      obtain ⟨there, hthere⟩ := ih fun f hf => hupright f (List.mem_cons_of_mem field hf)
      have hhere : ∃ here, stampField T pages v field = .ok here := by
        unfold stampField
        cases hpage : pageOf pages field with
        | none => exact ⟨[], rfl⟩
        | some page => simp [stampBox, hupright field List.mem_cons_self page hpage, Except.map]
      obtain ⟨here, hhere⟩ := hhere
      exact ⟨here ++ there, by simp only [stampPdf, hhere, hthere]; rfl⟩

theorem mem_of_pageOf {pages : List Page} {field : TemplateField} {page : Page}
    (h : pageOf pages field = some page) : page ∈ pages := by
  unfold pageOf at h
  split at h
  · cases h
  · exact List.mem_of_getElem? h

/-- Pages that are not rotated are stamped without failure. -/
theorem stampPdf_upright {pages : List Page} (hupright : ∀ p ∈ pages, p.turned = 0) (T : StampTools)
    (fields : List TemplateField) (v : Values) : ∃ stamps, stampPdf T pages fields v = .ok stamps :=
  stampPdf_ok (fun _ _ page hpage => hupright page (mem_of_pageOf hpage)) T v

end ESignSoft.Signing
