import ESignSoft.Signing.StampPdf
import ESignSoft.Signing.StampedBoxes

/-!
# The box the signer sees and the box that is stamped

A field is kept as fractions of a page.  The editor and the ceremony lay those out over the viewport of
the viewer, which spans the page's crop box; `stampPdf` lays them out over the media box.

* `ceremonyBox_eq`, `editorBox_eq` — at any zoom both views show the fractions of the crop box;
* `shown_iff_stamped` — on a page of an accepted upload, that is the box stamped exactly when the page is
  not cropped.

Lengths are exact rationals, so nothing here is about rounding.
-/

namespace ESignSoft.Signing

open ESignSoft.Lib.JsText ESignSoft.Contracts

/-- A page of an upload: the media box the PDF library reports and the crop box inside it the viewer
shows, both in points from the bottom left. -/
structure PdfPage where
  rotation : Int
  mediaBox : Box
  cropBox : Box
  cropWidth_pos : 0 < cropBox.width
  cropHeight_pos : 0 < cropBox.height
  inside_x : mediaBox.x ≤ cropBox.x ∧ cropBox.x + cropBox.width ≤ mediaBox.x + mediaBox.width
  inside_y : mediaBox.y ≤ cropBox.y ∧ cropBox.y + cropBox.height ≤ mediaBox.y + mediaBox.height

/-- A page that is nothing but a box. -/
def Page.ofBox (rotation : Int) (box : Box) : Page where
  rotation := rotation
  width := box.width
  height := box.height
  mediaX := box.x
  mediaY := box.y

/-- `getRotation`, `getSize` and `getMediaBox`. -/
def PdfPage.measured (page : PdfPage) : Page := Page.ofBox page.rotation page.mediaBox

/-- The page as the viewer displays it. -/
def PdfPage.displayed (page : PdfPage) : Page := Page.ofBox page.rotation page.cropBox

/-! ## Accepted uploads -/

structure PdfGeometry where
  pageCount : Nat
  pageSizes : List (ℚ × ℚ)

inductive GeometryError
  /-- `PDF has no pages`. -/
  | noPages
  /-- `PDF exceeds 300 pages`. -/
  | tooManyPages
  /-- `PDF contains rotated pages, which are not supported yet`. -/
  | rotatedPages
  deriving DecidableEq

def MAX_PAGES : Nat := 300

def readPdfGeometry (pages : List PdfPage) : Except GeometryError PdfGeometry :=
  if pages.length = 0 then .error .noPages
  else if pages.length > MAX_PAGES then .error .tooManyPages
  else if pages.any fun page => page.measured.turned != 0 then .error .rotatedPages
  else
    .ok {
      pageCount := pages.length
      pageSizes := pages.map fun page => (page.measured.width, page.measured.height) }

theorem turned_of_readPdfGeometry {pages : List PdfPage} {geometry : PdfGeometry}
    (h : readPdfGeometry pages = .ok geometry) {page : PdfPage} (hpage : page ∈ pages) :
    page.measured.turned = 0 := by
  unfold readPdfGeometry at h
  split at h
  · cases h
  · split at h
    · cases h
    · split at h
      · cases h
      · rename_i hnone
        simp only [List.any_eq_true, bne_iff_ne, ne_eq, not_exists, not_and, not_not] at hnone
        exact hnone page hpage

/-! ## What the two views show -/

/-- Where an element stands over the viewport, in pixels from the top left. -/
structure Style where
  left : ℚ
  top : ℚ
  width : ℚ
  height : ℚ

/-- `getViewport({ scale })`: the size in pixels of the page shown. -/
def PdfPage.viewport (page : PdfPage) (scale : ℚ) : ℚ × ℚ :=
  (page.cropBox.width * scale, page.cropBox.height * scale)

/-- The place on the page an element over the viewport covers: the viewer puts the top left corner of the
crop box at the origin and scales. -/
def PdfPage.covered (page : PdfPage) (scale : ℚ) (style : Style) : Box where
  x := page.cropBox.x + style.left / scale
  y := page.cropBox.y + page.cropBox.height - (style.top + style.height) / scale
  width := style.width / scale
  height := style.height / scale

def BASE_WIDTH : ℚ := 820

/-- The scale the ceremony renders a page at. -/
def ceremonyScale (page : PdfPage) (zoom : ℚ) : ℚ := BASE_WIDTH * zoom / (page.viewport 1).1

/-- The ceremony's style: the fractions times the measured page. -/
def ceremonyStyle (field : TemplateField) (size : ℚ × ℚ) : Style where
  left := field.x * size.1
  top := field.y * size.2
  width := field.w * size.1
  height := field.h * size.2

/-- The editor's style: the fractions as percentages of the page. -/
def editorStyle (field : TemplateField) (size : ℚ × ℚ) : Style where
  left := field.x * 100 / 100 * size.1
  top := field.y * 100 / 100 * size.2
  width := field.w * 100 / 100 * size.1
  height := field.h * 100 / 100 * size.2

/-- The box of a field in the ceremony. -/
def ceremonyBox (page : PdfPage) (zoom : ℚ) (field : TemplateField) : Box :=
  let scale := ceremonyScale page zoom
  page.covered scale (ceremonyStyle field (page.viewport scale))

/-- The box of a field in the editor. -/
def editorBox (page : PdfPage) (scale : ℚ) (field : TemplateField) : Box :=
  page.covered scale (editorStyle field (page.viewport scale))

/-- Over a viewport of any scale, the fractions of its pixels are the fractions of the crop box. -/
theorem covered_ceremonyStyle (page : PdfPage) {scale : ℚ} (hscale : 0 < scale) (field : TemplateField) :
    page.covered scale (ceremonyStyle field (page.viewport scale)) = page.displayed.place field := by
  have hne : scale ≠ 0 := ne_of_gt hscale
  have hfraction (a b : ℚ) : a * (b * scale) / scale = a * b := by
    rw [← mul_assoc, mul_div_assoc, div_self hne, mul_one]
  have htop : (field.y * (page.cropBox.height * scale) + field.h * (page.cropBox.height * scale)) / scale =
      field.y * page.cropBox.height + field.h * page.cropBox.height := by
    rw [add_div, hfraction, hfraction]
  simp only [PdfPage.covered, ceremonyStyle, PdfPage.viewport, PdfPage.displayed, Page.ofBox, Page.place,
    toPdfBox, hfraction, htop, Box.mk.injEq, and_true]
  constructor <;> ring

theorem ceremonyBox_eq (page : PdfPage) {zoom : ℚ} (hzoom : 0 < zoom) (field : TemplateField) :
    ceremonyBox page zoom field = page.displayed.place field := by
  have hwidth := page.cropWidth_pos
  have hscale : 0 < ceremonyScale page zoom := by
    unfold ceremonyScale PdfPage.viewport BASE_WIDTH
    positivity
  exact covered_ceremonyStyle page hscale field

theorem editorBox_eq (page : PdfPage) {scale : ℚ} (hscale : 0 < scale) (field : TemplateField) :
    editorBox page scale field = page.displayed.place field := by
  have hstyle : editorStyle field (page.viewport scale) = ceremonyStyle field (page.viewport scale) := by
    have hpercent (a : ℚ) : a * 100 / 100 = a := mul_div_cancel_right₀ a (by decide)
    simp only [editorStyle, ceremonyStyle, hpercent]
  rw [editorBox, hstyle]
  exact covered_ceremonyStyle page hscale field

/-! ## What is stamped -/

/-- Fractions of two boxes that are neither empty are the same place only of one box. -/
theorem place_ofBox_inj {field : TemplateField} (hw : 0 < field.w) (hh : 0 < field.h) {rotation : Int}
    {a b : Box} :
    (Page.ofBox rotation a).place field = (Page.ofBox rotation b).place field ↔ a = b := by
  constructor
  · intro h
    obtain ⟨ax, ay, aw, ah⟩ := a
    obtain ⟨bx, bY, bw, bh⟩ := b
    simp only [Page.place, Page.ofBox, toPdfBox, Box.mk.injEq] at h
    obtain ⟨hx, hy, hwidth, hheight⟩ := h
    obtain rfl : aw = bw := mul_left_cancel₀ (ne_of_gt hw) hwidth
    obtain rfl : ah = bh := mul_left_cancel₀ (ne_of_gt hh) hheight
    obtain rfl : ax = bx := add_left_cancel hx
    obtain rfl : ay = bY := add_left_cancel hy
    rfl
  · rintro rfl
    rfl

theorem TemplateFieldSchema.size_pos {P : Platform} {field : TemplateField}
    (h : TemplateFieldSchema P field = true) : 0 < field.w ∧ 0 < field.h := by
  simp only [TemplateFieldSchema, Bool.and_eq_true, decide_eq_true_eq] at h
  obtain ⟨⟨⟨⟨⟨⟨⟨-, hw⟩, hh⟩, -⟩, -⟩, -⟩, -⟩, -⟩ := h
  have hsmall : (0 : ℚ) < 1 / 200 := by norm_num
  exact ⟨lt_of_lt_of_le hsmall hw.2, lt_of_lt_of_le hsmall hh.2⟩

/-- **The box shown is the box stamped exactly when the page is not cropped.** -/
theorem shown_iff_stamped {pages : List PdfPage} {geometry : PdfGeometry}
    (hread : readPdfGeometry pages = .ok geometry) {page : PdfPage} (hpage : page ∈ pages) {P : Platform}
    {field : TemplateField} (hfield : TemplateFieldSchema P field = true) {zoom scale : ℚ}
    (hzoom : 0 < zoom) (hscale : 0 < scale) :
    (stampBox page.measured field = .ok (ceremonyBox page zoom field) ∧
        stampBox page.measured field = .ok (editorBox page scale field)) ↔
      page.cropBox = page.mediaBox := by
  obtain ⟨hw, hh⟩ := TemplateFieldSchema.size_pos hfield
  have hupright := turned_of_readPdfGeometry hread hpage
  have hstamp : stampBox page.measured field = .ok (page.measured.place field) := by
    rw [stampBox, if_neg (not_not.mpr hupright)]
  rw [hstamp, ceremonyBox_eq page hzoom, editorBox_eq page hscale, and_self, Except.ok.injEq,
    PdfPage.measured, PdfPage.displayed, place_ofBox_inj hw hh]
  exact eq_comm

/-- A page of 612 by 792 points with the same margin cropped off each side. -/
def letterPage (margin : ℚ) (h0 : 0 ≤ margin) (h306 : margin < 306) : PdfPage where
  rotation := 0
  mediaBox := ⟨0, 0, 612, 792⟩
  cropBox := ⟨margin, margin, 612 - 2 * margin, 792 - 2 * margin⟩
  cropWidth_pos := by
    dsimp only
    linarith
  cropHeight_pos := by
    dsimp only
    linarith
  inside_x := by
    dsimp only
    constructor <;> linarith
  inside_y := by
    dsimp only
    constructor <;> linarith

/-- An upload of one such page, whole. -/
theorem shown_iff_stamped_letter :
    let page := letterPage 0 (by decide) (by decide)
    (stampBox page.measured (exampleField .signature (1 / 2)) =
          .ok (ceremonyBox page 1 (exampleField .signature (1 / 2))) ∧
        stampBox page.measured (exampleField .signature (1 / 2)) =
          .ok (editorBox page 1 (exampleField .signature (1 / 2)))) ↔
      page.cropBox = page.mediaBox := by
  have hread : readPdfGeometry [letterPage 0 (by decide) (by decide)] = .ok ⟨1, [(612, 792)]⟩ := rfl
  have hfield : TemplateFieldSchema examplePlatform (exampleField .signature (1 / 2)) = true := by
    decide +kernel
  exact shown_iff_stamped hread (List.mem_singleton_self _) hfield (by decide) (by decide)

/-- With half an inch cropped off, the upload is accepted and the signature is stamped beside the box the
signer saw. -/
theorem cropped_box_moves :
    ¬ ∀ (pages : List PdfPage) (geometry : PdfGeometry) (page : PdfPage) (P : Platform)
        (field : TemplateField) (zoom scale : ℚ),
      readPdfGeometry pages = .ok geometry → page ∈ pages → TemplateFieldSchema P field = true →
      0 < zoom → 0 < scale →
        stampBox page.measured field = .ok (ceremonyBox page zoom field) ∧
          stampBox page.measured field = .ok (editorBox page scale field) := by
  intro h
  have hbox := (h [letterPage 36 (by decide) (by decide)] ⟨1, [(612, 792)]⟩
    (letterPage 36 (by decide) (by decide)) examplePlatform (exampleField .signature (1 / 2)) 1 1 rfl
    (List.mem_singleton_self _) (by decide +kernel) (by decide) (by decide)).1
  simp only [stampBox] at hbox
  have hx := congrArg Box.x (Except.ok.inj hbox)
  exact absurd hx (by decide +kernel)

end ESignSoft.Signing
