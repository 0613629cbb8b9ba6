import ESignSoft.Lib.WhileLoop
import ESignSoft.Signing.PrintedText
import ESignSoft.Signing.StampGeometry
import Mathlib.Tactic.Positivity

/-!
# Text and the width of its box

A text starts at a size that suits the height of its box and loses half a point at a time while it is
wider than the box, down to the first size of 5 or less.

* `shrink_ends` — the loop ends, and `shrink` is where it ends;
* `stamped_text_fits_iff` — the text it leaves fits exactly when it does at the smallest size.

The font is the library's: widths are taken to be proportional to the size.
-/

namespace ESignSoft.Signing

open ESignSoft.Lib ESignSoft.Lib.JsText ESignSoft.Contracts

/-- The test of the loop. -/
def Overflows (T : StampTools) (text : JsString) (boxWidth size : ℚ) : Prop :=
  size > 5 ∧ T.widthOfTextAtSize text size > boxWidth

instance (T : StampTools) (text : JsString) (boxWidth : ℚ) : DecidablePred (Overflows T text boxWidth) :=
  fun _ => inferInstanceAs (Decidable (_ ∧ _))

/-- Its body. -/
def shrinkOnce (size : ℚ) : ℚ := size - 1 / 2

/-- The size a text starts at. -/
def startSize (boxHeight : ℚ) : ℚ := min 12 (max 6 (boxHeight * (7 / 10)))

/-- The smallest size a text can end at: the first that is 5 or less. -/
def floorSize (boxHeight : ℚ) : ℚ := startSize boxHeight - shrinkSteps (startSize boxHeight) / 2

structure Proportional (T : StampTools) : Prop where
  linear : ∀ text size, T.widthOfTextAtSize text size = size * T.widthOfTextAtSize text 1
  nonneg : ∀ text, 0 ≤ T.widthOfTextAtSize text 1

/-! ## The loop -/

theorem shrink_eq_run (T : StampTools) (text : JsString) (boxWidth : ℚ) (n : ℕ) (size : ℚ) :
    shrink T text boxWidth n size = run (Overflows T text boxWidth) shrinkOnce n size := by
  induction n generalizing size with
  | zero => rfl
  | succ n ih =>
      rw [shrink, run]
      exact if_congr Iff.rfl (ih _) rfl

theorem iterate_shrinkOnce (n : ℕ) (size : ℚ) : shrinkOnce^[n] size = size - n / 2 := by
  induction n generalizing size with
  | zero => simp
  | succ n ih =>
      rw [Function.iterate_succ_apply, ih, shrinkOnce]
      push_cast
      ring

/-- How many steps it takes to come to 5 or less. -/
theorem shrinkSteps_le_iff {size : ℚ} {n : ℕ} : shrinkSteps size ≤ n ↔ size - n / 2 ≤ 5 := by
  unfold shrinkSteps
  rw [Int.toNat_le, Int.ceil_le]
  push_cast
  constructor <;> intro h <;> linarith

/-- **The loop ends**, after no more turns than it takes to come to 5 or less. -/
theorem shrink_ends (T : StampTools) (text : JsString) (boxWidth size : ℚ) :
    ∃ n ≤ shrinkSteps size, EndsAfter (Overflows T text boxWidth) shrinkOnce size n ∧
      shrink T text boxWidth (shrinkSteps size) size = shrinkOnce^[n] size := by
  have hfloor : ¬ Overflows T text boxWidth (shrinkOnce^[shrinkSteps size] size) := by
    rw [iterate_shrinkOnce]
    exact fun h => absurd h.1 (not_lt.mpr (shrinkSteps_le_iff.mp le_rfl))
  obtain ⟨n, hn, hends⟩ := exists_endsAfter hfloor
  exact ⟨n, hn, hends, by rw [shrink_eq_run, run_eq hends hn]⟩

theorem width_mono {T : StampTools} (hfont : Proportional T) (text : JsString) {size size' : ℚ}
    (h : size ≤ size') : T.widthOfTextAtSize text size ≤ T.widthOfTextAtSize text size' := by
  rw [hfont.linear text size, hfont.linear text size']
  exact mul_le_mul_of_nonneg_right h (hfont.nonneg text)

/-- Where the loop ends, the text fits exactly when it does at the smallest size. -/
theorem fits_iff_of_ends {T : StampTools} (hfont : Proportional T) {text : JsString} {boxWidth size : ℚ}
    {n : ℕ} (hn : n ≤ shrinkSteps size) (hends : EndsAfter (Overflows T text boxWidth) shrinkOnce size n) :
    T.widthOfTextAtSize text (shrinkOnce^[n] size) ≤ boxWidth ↔
      T.widthOfTextAtSize text (size - shrinkSteps size / 2) ≤ boxWidth := by
  have hcast : (n : ℚ) ≤ shrinkSteps size := by exact_mod_cast hn
  constructor
  · intro hfits
    refine le_trans (width_mono hfont text ?_) hfits
    rw [iterate_shrinkOnce]
    linarith
  · intro hfits
    by_contra hover
    -- Still too wide, the loop was left at 5 or less, and that is the smallest size.
    have hfive : shrinkOnce^[n] size ≤ 5 := by
      by_contra hlarge
      exact hends.1 ⟨not_le.mp hlarge, not_le.mp hover⟩
    rw [iterate_shrinkOnce] at hfive hover
    obtain rfl : n = shrinkSteps size := le_antisymm hn (shrinkSteps_le_iff.mpr hfive)
    exact hover hfits

/-! ## What is stamped -/

/-- The text fields: neither signatures nor check marks. -/
def Lettered (field : TemplateField) : Prop :=
  IMAGE_KINDS field.type = false ∧ field.type ≠ .checkbox

theorem stampMark_text (T : StampTools) {fieldValues : Values} {field : TemplateField} {raw : JsString}
    (hfield : Lettered field) (hraw : fieldValues field.id = some raw) (hne : raw ≠ []) (box : Box) :
    ∃ x y, stampMark T fieldValues field box = some (.text (toPdfSafeText raw) x y
      (shrink T (toPdfSafeText raw) box.width (shrinkSteps (startSize box.height)) (startSize box.height))) := by
  unfold stampMark
  simp only [hfield.1, hfield.2, hraw, if_neg hne, Bool.false_eq_true, if_false]
  exact ⟨_, _, rfl⟩

/-- What is drawn for a text field, and nothing else. -/
theorem stamped_text {T : StampTools} {pages : List Page} {fields : List TemplateField} {fieldValues : Values}
    {stamps : List Stamp} (hstamps : stampPdf T pages fields fieldValues = .ok stamps)
    {field : TemplateField} (hfield : field ∈ fields) (hlettered : Lettered field) {page : Page}
    (hpage : pageOf pages field = some page) {raw : JsString} (hraw : fieldValues field.id = some raw)
    (hne : raw ≠ []) :
    ∃ x y, ∀ mark, ⟨field, mark⟩ ∈ stamps ↔ mark = .text (toPdfSafeText raw) x y
      (shrink T (toPdfSafeText raw) (page.place field).width
        (shrinkSteps (startSize (page.place field).height)) (startSize (page.place field).height)) := by
  obtain ⟨x, y, hmark⟩ := stampMark_text T hlettered hraw hne (page.place field)
  refine ⟨x, y, fun mark => ?_⟩
  rw [mem_stampPdf hstamps]
  constructor
  · rintro ⟨f, -, p, hp, m, hm, heq⟩
    obtain ⟨rfl, rfl⟩ := Stamp.mk.inj heq
    obtain rfl : p = page := Option.some.inj (hp.symm.trans hpage)
    exact Option.some.inj (hm.symm.trans hmark)
  · rintro rfl
    exact ⟨field, hfield, page, hpage, _, hmark, rfl⟩

/-- **A text stays in its box exactly when it does at the smallest size.**  Whatever it is, the loop ends;
and what it ends with is drawn. -/
theorem stamped_text_fits_iff {T : StampTools} (hfont : Proportional T) {pages : List Page}
    {fields : List TemplateField} {fieldValues : Values} {stamps : List Stamp}
    (hstamps : stampPdf T pages fields fieldValues = .ok stamps) {field : TemplateField}
    (hfield : field ∈ fields) (hlettered : Lettered field) {page : Page}
    (hpage : pageOf pages field = some page) {raw : JsString} (hraw : fieldValues field.id = some raw)
    (hne : raw ≠ []) :
    ∃ x y size,
      (∀ mark, ⟨field, mark⟩ ∈ stamps ↔ mark = .text (toPdfSafeText raw) x y size) ∧
      (∃ n, EndsAfter (Overflows T (toPdfSafeText raw) (page.place field).width) shrinkOnce
          (startSize (page.place field).height) n ∧
        size = shrinkOnce^[n] (startSize (page.place field).height)) ∧
      (T.widthOfTextAtSize (toPdfSafeText raw) size ≤ (page.place field).width ↔
        T.widthOfTextAtSize (toPdfSafeText raw) (floorSize (page.place field).height) ≤
          (page.place field).width) := by
  obtain ⟨x, y, hmarks⟩ := stamped_text hstamps hfield hlettered hpage hraw hne
  obtain ⟨n, hn, hends, hshrink⟩ := shrink_ends T (toPdfSafeText raw) (page.place field).width
    (startSize (page.place field).height)
  refine ⟨x, y, _, hmarks, ⟨n, hends, hshrink⟩, ?_⟩
  rw [hshrink]
  exact fits_iff_of_ends hfont hn hends

/-! ## A company name -/

/-- The font as far as the letter M goes, which is 833 thousandths of the size wide. -/
def emTools : StampTools where
  signatureWidth := 400
  signatureHeight := 150
  widthOfTextAtSize := fun text size => size * (text.length * (833 / 1000))

theorem emTools_proportional : Proportional emTools where
  linear text size := by
    dsimp only [emTools]
    rw [one_mul]
  nonneg text := by
    dsimp only [emTools]
    positivity

/-- A layout of one company field, a fifth of the page wide. -/
def companyField : TemplateField := boxField .company none

def letterPages : List Page := [⟨0, 612, 792, 0, 0⟩]

/-- What is typed into it: a run of the letter M. -/
def emName (n : ℕ) : Values := fun _ => some (List.replicate n 0x4D)

theorem upright_letterPages : ∀ f ∈ [companyField], ∀ page, pageOf letterPages f = some page →
    page.turned = 0 := by
  intro f _ page hpage
  obtain rfl := List.mem_singleton.mp (mem_of_pageOf hpage)
  decide

theorem stamped_text_fits_iff_name :
    ∃ stamps x y size, stampPdf emTools letterPages [companyField] (emName 20) = .ok stamps ∧
      ⟨companyField, .text (toPdfSafeText (List.replicate 20 0x4D)) x y size⟩ ∈ stamps ∧
      emTools.widthOfTextAtSize (toPdfSafeText (List.replicate 20 0x4D)) size ≤ 612 / 5 := by
  obtain ⟨stamps, hstamps⟩ := stampPdf_ok upright_letterPages emTools (emName 20)
  have hwidth : (Page.place ⟨0, 612, 792, 0, 0⟩ companyField).width = 612 / 5 := by decide +kernel
  have hpage : pageOf letterPages companyField = some ⟨0, 612, 792, 0, 0⟩ := rfl
  obtain ⟨x, y, size, hmarks, -, hfits⟩ := stamped_text_fits_iff emTools_proportional hstamps
    (List.mem_singleton_self companyField) ⟨rfl, by decide⟩ hpage rfl (by decide)
  rw [hwidth] at hfits
  exact ⟨stamps, x, y, size, hstamps, (hmarks _).mpr rfl, hfits.mpr (by decide +kernel)⟩

/-- Forty letters, accepted and stored, still run out of the box at the smallest size. -/
theorem long_name_overflows :
    ¬ ∀ (P : Platform) (T : StampTools) (pages : List Page) (fields : List TemplateField)
        (clientValues : Values) (signedAt : Int) (stamps : List Stamp) (field : TemplateField) (page : Page)
        (raw : JsString) (x y size : ℚ),
      Proportional T → TemplateFieldsSchema P fields = true → field ∈ fields → Lettered field →
      pageOf pages field = some page → 0 < page.width → 0 < page.height →
      (resolveFieldValues P fields clientValues signedAt).accepted = true →
      (resolveFieldValues P fields clientValues signedAt).values field.id = some raw →
      stampPdf T pages fields (resolveFieldValues P fields clientValues signedAt).values = .ok stamps →
      ⟨field, .text (toPdfSafeText raw) x y size⟩ ∈ stamps →
        T.widthOfTextAtSize (toPdfSafeText raw) size ≤ (page.place field).width := by
  intro h
  obtain ⟨stamps, hstamps⟩ := stampPdf_ok upright_letterPages emTools
    (resolveFieldValues boxPlatform [companyField] (emName 40) 0).values
  have hpage : pageOf letterPages companyField = some ⟨0, 612, 792, 0, 0⟩ := rfl
  have hraw : (resolveFieldValues boxPlatform [companyField] (emName 40) 0).values companyField.id =
      some (List.replicate 40 0x4D) := by decide +kernel
  obtain ⟨x, y, hmarks⟩ := stamped_text hstamps (List.mem_singleton_self companyField) ⟨rfl, by decide⟩ hpage
    hraw (by decide)
  have hfits := h boxPlatform emTools letterPages [companyField] (emName 40) 0 stamps companyField
    ⟨0, 612, 792, 0, 0⟩ (List.replicate 40 0x4D) x y _ emTools_proportional (by decide +kernel)
    (List.mem_singleton_self _) ⟨rfl, by decide⟩ hpage (by decide) (by decide) (by decide +kernel) hraw
    hstamps ((hmarks _).mpr rfl)
  exact absurd hfits (by decide +kernel)

end ESignSoft.Signing
