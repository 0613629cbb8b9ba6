import ESignSoft.Lib.Rectangle
import ESignSoft.Signing.PageBoxes

/-!
# Where the stamps lie

Fields are fractions of the page from its top left corner, the PDF counts points from the bottom left, and
a media box may start anywhere.

* `place_rect` — the box of a field is that part of the media box;
* `stampMark_image` — the adopted signature is fitted into the box;
* `stamp_geometry` — both, for everything `stampPdf` draws on upright pages.
-/

namespace ESignSoft.Signing

open ESignSoft.Lib ESignSoft.Lib.JsText ESignSoft.Contracts

def Box.rect (box : Box) : Rect ℚ := ⟨box.x, box.y, box.width, box.height⟩

/-- `getMediaBox`. -/
def Page.mediaBox (page : Page) : Rect ℚ := ⟨page.mediaX, page.mediaY, page.width, page.height⟩

/-- The field's fractions of its page. -/
def fieldRect (field : TemplateField) : Rect ℚ := ⟨field.x, field.y, field.w, field.h⟩

/-- Where an image is drawn. -/
def Mark.rect : Mark → Option (Rect ℚ)
  | .image x y width height => some ⟨x, y, width, height⟩
  | .text .. => none

/-- How far past the page the schema lets a field reach, in fractions of the page. -/
def schemaTolerance : ℚ := 1 / 10000

theorem place_rect (page : Page) (field : TemplateField) :
    (page.place field).rect = page.mediaBox.part (fieldRect field) := by
  simp only [Box.rect, Page.place, toPdfBox, Page.mediaBox, Rect.part, fieldRect, Rect.mk.injEq, and_true]
  constructor <;> ring

theorem TemplateFieldSchema.fractions {P : Platform} {field : TemplateField}
    (h : TemplateFieldSchema P field = true) :
    0 ≤ field.x ∧ 0 ≤ field.y ∧ field.x + field.w ≤ 1 + schemaTolerance ∧
      field.y + field.h ≤ 1 + schemaTolerance := by
  simp only [TemplateFieldSchema, Bool.and_eq_true, decide_eq_true_eq] at h
  obtain ⟨⟨⟨⟨⟨⟨⟨⟨⟨-, hx⟩, hy⟩, -⟩, -⟩, -⟩, -⟩, -⟩, hright, hbottom⟩, -⟩ := h
  have hsum : (1 : ℚ) + schemaTolerance = 10001 / 10000 := by
    unfold schemaTolerance
    norm_num
  exact ⟨hx.1, hy.1, hsum ▸ hright, hsum ▸ hbottom⟩

/-- The adopted signature is fitted into the box. -/
theorem stampMark_image {field : TemplateField} (himage : IMAGE_KINDS field.type = true) (T : StampTools)
    (fieldValues : Values) (box : Box) :
    (stampMark T fieldValues field box).bind Mark.rect =
      some (box.rect.fit T.signatureWidth T.signatureHeight) := by
  unfold stampMark
  rw [if_pos himage]
  rfl

/-- A drawing lies inside the box and in the middle of it, has the signature's proportions, and reaches two
opposite sides. -/
def Fitted (T : StampTools) (box drawn : Rect ℚ) : Prop :=
  drawn.Within box ∧ drawn.SameCentre box ∧ drawn.aspect = T.signatureWidth / T.signatureHeight ∧
    drawn.Touches box

theorem fitted_fit {T : StampTools} (hwidth : 0 < T.signatureWidth) (hheight : 0 < T.signatureHeight)
    {box : Rect ℚ} (hbox : 0 < box.width ∧ 0 < box.height) :
    Fitted T box (box.fit T.signatureWidth T.signatureHeight) :=
  ⟨Rect.within_fit hwidth hheight, Rect.sameCentre_fit .., Rect.aspect_fit hbox hwidth hheight,
    Rect.touches_fit hwidth hheight⟩

/-- A field stays on its page, and can be read back from where it is. -/
def Placed (page : Page) (field : TemplateField) : Prop :=
  (page.place field).rect.Within (page.mediaBox.grown schemaTolerance) ∧
    page.mediaBox.fractions (page.place field).rect = fieldRect field

theorem placed_of_schema {P : Platform} {field : TemplateField} (hschema : TemplateFieldSchema P field = true)
    {page : Page} (hpage : 0 < page.width ∧ 0 < page.height) : Placed page field := by
  obtain ⟨hx, hy, hright, hbottom⟩ := TemplateFieldSchema.fractions hschema
  unfold Placed
  rw [place_rect]
  exact ⟨Rect.within_part hpage.1.le hpage.2.le hx hy hright hbottom,
    Rect.fractions_part hpage.1.ne' hpage.2.ne' _⟩

/-- **Stamp geometry.**  Where no field is on a rotated page the stamping succeeds; every valid field's box
lies within its page and is the field's part of it; and the signature is fitted into the box of every
signature field. -/
theorem stamp_geometry {P : Platform} {T : StampTools} {pages : List Page} {fields : List TemplateField}
    (hsignature : 0 < T.signatureWidth ∧ 0 < T.signatureHeight)
    (hpages : ∀ field ∈ fields, ∀ page, pageOf pages field = some page →
      page.turned = 0 ∧ 0 < page.width ∧ 0 < page.height)
    (fieldValues : Values) :
    ∃ stamps, stampPdf T pages fields fieldValues = .ok stamps ∧
      ∀ field ∈ fields, TemplateFieldSchema P field = true → ∀ page, pageOf pages field = some page →
        Placed page field ∧
          (IMAGE_KINDS field.type = true → (∃ mark, ⟨field, mark⟩ ∈ stamps) ∧
            ∀ mark, ⟨field, mark⟩ ∈ stamps →
              ∃ drawn, mark.rect = some drawn ∧ Fitted T (page.place field).rect drawn) := by
  obtain ⟨stamps, hstamps⟩ := stampPdf_ok (fun f hf p hp => (hpages f hf p hp).1) T fieldValues
  refine ⟨stamps, hstamps, fun field hfield hschema page hpage => ?_⟩
  have hsize := (hpages field hfield page hpage).2
  refine ⟨placed_of_schema hschema hsize, fun himage => ?_⟩
  obtain ⟨hw, hh⟩ := TemplateFieldSchema.size_pos hschema
  have hbox : 0 < (page.place field).rect.width ∧ 0 < (page.place field).rect.height :=
    ⟨mul_pos hw hsize.1, mul_pos hh hsize.2⟩
  obtain ⟨mark, hmark, hrect⟩ := Option.bind_eq_some_iff.mp
    (stampMark_image himage T fieldValues (page.place field))
  constructor
  · exact ⟨mark, (mem_stampPdf hstamps _).mpr ⟨field, hfield, page, hpage, mark, hmark, rfl⟩⟩
  · intro mark' hmark'
    -- A stamp carries its field, and so the box it was drawn in.
    obtain ⟨f, -, p, hp, m, hm, heq⟩ := (mem_stampPdf hstamps _).mp hmark'
    obtain ⟨rfl, rfl⟩ := Stamp.mk.inj heq
    obtain rfl : p = page := Option.some.inj (hp.symm.trans hpage)
    obtain rfl : mark = mark' := Option.some.inj (hmark.symm.trans hm)
    exact ⟨_, hrect, fitted_fit hsignature.1 hsignature.2 hbox⟩

/-- A signature of 400 by 150 pixels on a page whose media box starts off the origin. -/
theorem stamp_geometry_letter :
    let T : StampTools := ⟨400, 150, fun s size => s.length * size / 2⟩
    let page : Page := ⟨0, 612, 792, -20, 15⟩
    let field := exampleField .signature (1 / 2)
    Placed page field ∧ ∃ stamps, stampPdf T [page] [field] (fun _ => none) = .ok stamps ∧
      ∃ mark drawn, ⟨field, mark⟩ ∈ stamps ∧ mark.rect = some drawn ∧
        Fitted T (page.place field).rect drawn := by
  intro T page field
  have hpages : ∀ f ∈ [field], ∀ p, pageOf [page] f = some p → p.turned = 0 ∧ 0 < p.width ∧ 0 < p.height := by
    intro f _ p hp
    obtain rfl := List.mem_singleton.mp (mem_of_pageOf hp)
    decide +kernel
  have hschema : TemplateFieldSchema examplePlatform field = true := by decide +kernel
  obtain ⟨stamps, hstamps, hfields⟩ := stamp_geometry (P := examplePlatform)
    (T := T) ⟨by decide, by decide⟩ hpages fun _ => none
  obtain ⟨hplaced, himage⟩ := hfields field (List.mem_singleton_self _) hschema page rfl
  obtain ⟨⟨mark, hmark⟩, hall⟩ := himage rfl
  obtain ⟨drawn, hdrawn, hfitted⟩ := hall mark hmark
  exact ⟨hplaced, stamps, hstamps, mark, drawn, hmark, hdrawn, hfitted⟩

end ESignSoft.Signing
