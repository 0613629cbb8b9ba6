import ESignSoft.Lib.Base64
import ESignSoft.Signing.SignaturePng
import Mathlib.Algebra.Order.Floor.Semiring
import Mathlib.Data.List.Induction
import Mathlib.Data.Rat.Floor
import Mathlib.Tactic.Linarith
import Mathlib.Tactic.Positivity

/-!
# From the ink on a canvas to the bytes on the server

Whichever way a signature is made, it is cropped to its ink, scaled down to a fixed size at most and sent as a
data URL.  What the browser does with pixels — resampling them, writing them as a PNG — is a parameter.

* `trimToInk_smallest` — the crop is the smallest box that holds the ink, and there is one when there is ink;
* `decodeSignaturePng_iff` — of what the contract lets in, the server takes every PNG within its bound on pixels:
  its bound on bytes decides nothing;
* `adopted_arrives` — a signature made in any of the three ways arrives as it was written.
-/

namespace ESignSoft.Signing.Ink

open ESignSoft.Lib ESignSoft.Lib.JsText

/-! ## Cropping -/

/-- The pixels of a canvas: four bytes each, row by row. -/
structure ImageData where
  width : Nat
  height : Nat
  data : List UInt8
  deriving DecidableEq

/-- The pixel is not (nearly) transparent. -/
def ImageData.inked (image : ImageData) (x y : Nat) : Bool :=
  decide ((image.data.getD ((y * image.width + x) * 4 + 3) 0).toNat > 8)

structure Bounds where
  minX : Int
  minY : Int
  maxX : Int
  maxY : Int

def Bounds.widen (b : Bounds) (x y : Int) : Bounds where
  minX := if x < b.minX then x else b.minX
  minY := if y < b.minY then y else b.minY
  maxX := if x > b.maxX then x else b.maxX
  maxY := if y > b.maxY then y else b.maxY

structure Box where
  x : Int
  y : Int
  w : Int
  h : Int
  deriving DecidableEq, Repr

/-- The two loops, from bounds that hold nothing. -/
def ImageData.bounds (image : ImageData) : Bounds :=
  (List.range image.height).foldl
    (fun b y =>
      (List.range image.width).foldl (fun b x => if image.inked x y then b.widen x y else b) b)
    ⟨image.width, image.height, -1, -1⟩

def trimToInk (source : ImageData) : Option Box :=
  let b := source.bounds
  if b.maxX < 0 then none
  else some ⟨b.minX, b.minY, b.maxX - b.minX + 1, b.maxY - b.minY + 1⟩

/-- What is known of the bounds after some inked pixels have widened them. -/
structure Bounds.Around (width height : Nat) (ink : List (Nat × Nat)) (b : Bounds) : Prop where
  holds : ∀ p ∈ ink, b.minX ≤ p.1 ∧ p.1 ≤ b.maxX ∧ b.minY ≤ p.2 ∧ p.2 ≤ b.maxY
  left : ink = [] ∧ b.minX = width ∨ ∃ p ∈ ink, b.minX = p.1
  right : ink = [] ∧ b.maxX = -1 ∨ ∃ p ∈ ink, b.maxX = p.1
  top : ink = [] ∧ b.minY = height ∨ ∃ p ∈ ink, b.minY = p.2
  bottom : ink = [] ∧ b.maxY = -1 ∨ ∃ p ∈ ink, b.maxY = p.2

/-- A side is where it was, at an earlier pixel, or at the new one. -/
theorem side_at_ink {ink : List (Nat × Nat)} {coord : Nat × Nat → Int} {start side new : Int}
    (h : ink = [] ∧ side = start ∨ ∃ p ∈ ink, side = coord p) {p : Nat × Nat}
    (hnew : new = coord p ∨ new = side ∧ side ≠ start) : ∃ q ∈ ink ++ [p], new = coord q := by
  rcases hnew with rfl | ⟨rfl, hmoved⟩
  · exact ⟨p, by simp, rfl⟩
  · obtain ⟨q, hq, hside⟩ := h.resolve_left fun hstart => hmoved hstart.2
    exact ⟨q, List.mem_append_left _ hq, hside⟩

/-- One more inked pixel of the canvas. -/
theorem Bounds.Around.widen {width height : Nat} {ink : List (Nat × Nat)} {b : Bounds}
    (h : b.Around width height ink) {x y : Nat} (hx : x < width) (hy : y < height) :
    (b.widen x y).Around width height (ink ++ [(x, y)]) := by
  refine ⟨fun p hp => ?_, Or.inr (side_at_ink h.left ?_), Or.inr (side_at_ink h.right ?_),
    Or.inr (side_at_ink h.top ?_), Or.inr (side_at_ink h.bottom ?_)⟩
  · simp only [Bounds.widen]
    rcases List.mem_append.mp hp with hp | hp
    · obtain ⟨hleft, hright, htop, hbottom⟩ := h.holds p hp
      refine ⟨?_, ?_, ?_, ?_⟩ <;> split <;> omega
    · obtain rfl := List.mem_singleton.mp hp
      refine ⟨?_, ?_, ?_, ?_⟩ <;> split <;> omega
  all_goals
    simp only [Bounds.widen]
    split <;> omega

section Loops

variable (image : ImageData)

/-- The inked pixels of a beginning of a row. -/
def rowInk (y columns : Nat) : List (Nat × Nat) :=
  ((List.range columns).filter fun x => image.inked x y).map fun x => (x, y)

/-- The inked pixels of the first rows. -/
def inkOf (rows : Nat) : List (Nat × Nat) := (List.range rows).flatMap fun y => rowInk image y image.width

/-- The inner loop. -/
theorem around_row {ink : List (Nat × Nat)} {b : Bounds} (h : b.Around image.width image.height ink) {y : Nat}
    (hy : y < image.height) : ∀ columns ≤ image.width,
      ((List.range columns).foldl (fun b x => if image.inked x y then b.widen x y else b) b).Around
        image.width image.height (ink ++ rowInk image y columns) := by
  intro columns
  induction columns with
  | zero => exact fun _ => by simpa [rowInk] using h
  | succ x ih =>
      intro hx
      have hbefore := ih (by omega)
      rw [List.range_succ, List.foldl_append]
      have hrow : rowInk image y (x + 1) = rowInk image y x ++ if image.inked x y then [(x, y)] else [] := by
        unfold rowInk
        rw [List.range_succ, List.filter_append, List.map_append]
        cases hink : image.inked x y <;> simp [hink]
      rw [hrow, ← List.append_assoc]
      simp only [List.foldl_cons, List.foldl_nil]
      split
      · exact hbefore.widen (by omega) hy
      · simpa using hbefore

/-- The outer loop. -/
theorem around_rows : ∀ rows ≤ image.height,
    ((List.range rows).foldl
        (fun b y =>
          (List.range image.width).foldl (fun b x => if image.inked x y then b.widen x y else b) b)
        (⟨image.width, image.height, -1, -1⟩ : Bounds)).Around image.width image.height (inkOf image rows) := by
  intro rows
  induction rows with
  | zero =>
      exact fun _ => ⟨by simp [inkOf], Or.inl ⟨rfl, rfl⟩, Or.inl ⟨rfl, rfl⟩, Or.inl ⟨rfl, rfl⟩, Or.inl ⟨rfl, rfl⟩⟩
  | succ y ih =>
      intro hy
      have hrows : inkOf image (y + 1) = inkOf image y ++ rowInk image y image.width := by
        simp [inkOf, List.range_succ]
      rw [List.range_succ, List.foldl_append, hrows]
      exact around_row image (ih (by omega)) (by omega) image.width le_rfl

theorem mem_inkOf (x y : Nat) :
    (x, y) ∈ inkOf image image.height ↔ x < image.width ∧ y < image.height ∧ image.inked x y = true := by
  simp only [inkOf, rowInk, List.mem_flatMap, List.mem_range, List.mem_map, List.mem_filter, Prod.mk.injEq]
  constructor
  · rintro ⟨y', hy, x', ⟨hx, hink⟩, rfl, rfl⟩
    exact ⟨hx, hy, hink⟩
  · rintro ⟨hx, hy, hink⟩
    exact ⟨y, hy, x, ⟨hx, hink⟩, rfl, rfl⟩

end Loops

/-- An inked pixel of the canvas. -/
def ImageData.HasInk (image : ImageData) (p : Nat × Nat) : Prop :=
  p.1 < image.width ∧ p.2 < image.height ∧ image.inked p.1 p.2 = true

def Box.Has (box : Box) (p : Nat × Nat) : Prop :=
  box.x ≤ p.1 ∧ p.1 < box.x + box.w ∧ box.y ≤ p.2 ∧ p.2 < box.y + box.h

/-- The box holds all the ink, and there is ink at each of its sides. -/
structure Box.Tight (image : ImageData) (box : Box) : Prop where
  holds : ∀ p, image.HasInk p → box.Has p
  left : ∃ p, image.HasInk p ∧ (p.1 : Int) = box.x
  right : ∃ p, image.HasInk p ∧ (p.1 : Int) = box.x + box.w - 1
  top : ∃ p, image.HasInk p ∧ (p.2 : Int) = box.y
  bottom : ∃ p, image.HasInk p ∧ (p.2 : Int) = box.y + box.h - 1

theorem around_ink (image : ImageData) :
    image.bounds.Around image.width image.height (inkOf image image.height) :=
  around_rows image image.height le_rfl

theorem trimToInk_eq_none {image : ImageData} (h : trimToInk image = none) (p : Nat × Nat) : ¬ image.HasInk p := by
  intro hp
  have hright := ((around_ink image).holds p ((mem_inkOf image p.1 p.2).mpr hp)).2.1
  simp only [trimToInk, ite_eq_left_iff, reduceCtorEq, imp_false, not_not] at h
  omega

theorem trimToInk_tight {image : ImageData} {box : Box} (h : trimToInk image = some box) : box.Tight image := by
  have haround := around_ink image
  have hink (p : Nat × Nat) : p ∈ inkOf image image.height ↔ image.HasInk p := mem_inkOf image p.1 p.2
  simp only [trimToInk, Option.ite_none_left_eq_some, Option.some.injEq] at h
  obtain ⟨hmoved, rfl⟩ := h
  -- The right side is no longer where it was before the loops, so some pixel was inked.
  have hsome : ¬ inkOf image image.height = [] := by
    rcases haround.right with ⟨-, hright⟩ | ⟨p, hp, -⟩
    · omega
    · exact List.ne_nil_of_mem hp
  refine ⟨fun p hp => ?_, ?_, ?_, ?_, ?_⟩
  · have hholds := haround.holds p ((hink p).mpr hp)
    simp only [Box.Has]
    omega
  · obtain ⟨p, hp, hside⟩ := haround.left.resolve_left fun h => hsome h.1
    exact ⟨p, (hink p).mp hp, hside.symm⟩
  · obtain ⟨p, hp, hside⟩ := haround.right.resolve_left fun h => hsome h.1
    exact ⟨p, (hink p).mp hp, by simp only; omega⟩
  · obtain ⟨p, hp, hside⟩ := haround.top.resolve_left fun h => hsome h.1
    exact ⟨p, (hink p).mp hp, hside.symm⟩
  · obtain ⟨p, hp, hside⟩ := haround.bottom.resolve_left fun h => hsome h.1
    exact ⟨p, (hink p).mp hp, by simp only; omega⟩

/-- **The crop is the smallest box that holds the ink**: there is one exactly when there is ink, and every box
that holds the ink holds it. -/
theorem trimToInk_smallest (image : ImageData) :
    (trimToInk image = none ↔ ∀ p, ¬ image.HasInk p) ∧
      ∀ box, trimToInk image = some box →
        (∀ p, image.HasInk p → box.Has p) ∧
          ∀ other : Box, (∀ p, image.HasInk p → other.Has p) →
            other.x ≤ box.x ∧ box.x + box.w ≤ other.x + other.w ∧
              other.y ≤ box.y ∧ box.y + box.h ≤ other.y + other.h := by
  refine ⟨⟨trimToInk_eq_none, fun hnone => ?_⟩, fun box hbox => ?_⟩
  · refine Option.eq_none_iff_forall_not_mem.mpr fun box hbox => ?_
    obtain ⟨p, hp, -⟩ := (trimToInk_tight hbox).left
    exact hnone p hp
  · have htight := trimToInk_tight hbox
    refine ⟨htight.holds, fun other hother => ?_⟩
    obtain ⟨l, hl, hleft⟩ := htight.left
    obtain ⟨r, hr, hright⟩ := htight.right
    obtain ⟨t, ht, htop⟩ := htight.top
    obtain ⟨b, hb, hbottom⟩ := htight.bottom
    have hleft' := hother l hl
    have hright' := hother r hr
    have htop' := hother t ht
    have hbottom' := hother b hb
    simp only [Box.Has] at hleft' hright' htop' hbottom'
    omega

/-! ## Scaling -/

def MAX_W : Nat := 1200

def MAX_H : Nat := 400

/-- `Math.round`. -/
def round (q : ℚ) : Int := ⌊q + 1 / 2⌋

/-- The size of an image that is scaled down, and never up, to the size of a signature. -/
def scaledSize (w h : Int) : Nat × Nat :=
  let scale : ℚ := min 1 (min ((MAX_W : ℚ) / (w : ℚ)) ((MAX_H : ℚ) / (h : ℚ)))
  ((max 1 (round ((w : ℚ) * scale))).toNat, (max 1 (round ((h : ℚ) * scale))).toNat)

theorem round_scaled_le {side : Int} (hside : 0 < side) {scale : ℚ} {maximum : Nat}
    (hscale : scale ≤ (maximum : ℚ) / (side : ℚ)) : round ((side : ℚ) * scale) ≤ maximum := by
  have hpos : (0 : ℚ) < (side : ℚ) := by exact_mod_cast hside
  have hle : (side : ℚ) * scale ≤ maximum := by
    calc (side : ℚ) * scale ≤ (side : ℚ) * ((maximum : ℚ) / (side : ℚ)) :=
          mul_le_mul_of_nonneg_left hscale hpos.le
      _ = maximum := mul_div_cancel₀ _ hpos.ne'
  have hlt : (side : ℚ) * scale + 1 / 2 < (((maximum : Int) + 1 : Int) : ℚ) := by
    push_cast
    linarith
  have hfloor := Int.floor_lt.mpr hlt
  unfold round
  omega

theorem scaledSize_le {w h : Int} (hw : 0 < w) (hh : 0 < h) :
    (1 ≤ (scaledSize w h).1 ∧ (scaledSize w h).1 ≤ MAX_W) ∧ 1 ≤ (scaledSize w h).2 ∧ (scaledSize w h).2 ≤ MAX_H := by
  let scale : ℚ := min 1 (min ((MAX_W : ℚ) / (w : ℚ)) ((MAX_H : ℚ) / (h : ℚ)))
  have hwidth : round ((w : ℚ) * scale) ≤ MAX_W :=
    round_scaled_le hw ((min_le_right _ _).trans (min_le_left _ _))
  have hheight : round ((h : ℚ) * scale) ≤ MAX_H :=
    round_scaled_le hh ((min_le_right _ _).trans (min_le_right _ _))
  simp only [scaledSize, MAX_W, MAX_H, scale] at hwidth hheight ⊢
  omega

/-! ## Three ways to make a signature -/

/-- What the browser does with pixels. -/
structure Browser where
  /-- A part of an image, drawn over the whole of a new canvas of that width and height. -/
  drawImage : ImageData → Box → Nat → Nat → ImageData
  /-- How wide a text comes out in a font of that size. -/
  measureText : JsString → JsString → Nat → ℚ
  /-- The text in the middle of a new canvas of that width and height. -/
  fillText : JsString → JsString → Nat → Nat → Nat → ImageData
  toPng : ImageData → List UInt8

/-- A canvas has the size it is made with, and a PNG declares the size of its canvas. -/
structure Browser.Lawful (B : Browser) : Prop where
  drawn : ∀ source box w h, (B.drawImage source box w h).width = w ∧ (B.drawImage source box w h).height = h
  png : ∀ canvas : ImageData, 1 ≤ canvas.width ∧ canvas.width ≤ MAX_W → 1 ≤ canvas.height ∧ canvas.height ≤ MAX_H →
    pngDimensions (B.toPng canvas) = some (canvas.width, canvas.height)

def Browser.toDataURL (B : Browser) (canvas : ImageData) : JsString :=
  js "data:image/png;base64," ++ Base64.encode .base64 (B.toPng canvas)

def canvasToTrimmedPng (B : Browser) (source : ImageData) : Option JsString :=
  match trimToInk source with
  | none => none
  | some box =>
      let size := scaledSize box.w box.h
      some (B.toDataURL (B.drawImage source box size.1 size.2))

/-- The size of the font the canvas is left with: the first one, going down, in which the text fits, or the last
one tried. -/
def fittingSize (width : Nat → ℚ) (size : Nat) : Nat :=
  if width size ≤ MAX_W - 60 then size
  else if size - 6 > 24 then fittingSize width (size - 6)
  else size

def typedSignatureToPng (B : Browser) (text font : JsString) : Option JsString :=
  let trimmed := trim text
  if trimmed = [] then none
  else
    let size := fittingSize (B.measureText trimmed font) 180
    canvasToTrimmedPng B (B.fillText trimmed font size MAX_W MAX_H)

def MAX_UPLOAD_BYTES : Nat := 5 * 1024 * 1024

def ALLOWED_UPLOAD_TYPES : List JsString := [js "image/png", js "image/jpeg", js "image/webp"]

structure UploadedFile where
  size : Nat
  type : JsString
  /-- What the browser decodes; nothing when it cannot. -/
  image : Option { image : ImageData // 0 < image.width ∧ 0 < image.height }

def uploadedFileToPng (B : Browser) (file : UploadedFile) : Except JsString JsString :=
  if file.size > MAX_UPLOAD_BYTES then .error (js "That image is too large — use one under 5 MB.")
  else if !ALLOWED_UPLOAD_TYPES.contains file.type then .error (js "Please upload a PNG, JPG, or WebP image.")
  else
    match file.image with
    | none => .error (js "That file isn't a readable image.")
    | some img =>
        let size := scaledSize img.val.width img.val.height
        let canvas := B.drawImage img.val ⟨0, 0, img.val.width, img.val.height⟩ size.1 size.2
        .ok ((canvasToTrimmedPng B canvas).getD (B.toDataURL canvas))

/-- The data URLs the dialog can adopt. -/
inductive Made (B : Browser) : JsString → Prop
  | typed (text font : JsString) {dataUrl : JsString} (h : typedSignatureToPng B text font = some dataUrl) :
      Made B dataUrl
  | drawn (canvas : ImageData) {dataUrl : JsString} (h : canvasToTrimmedPng B canvas = some dataUrl) : Made B dataUrl
  | uploaded (file : UploadedFile) {dataUrl : JsString} (h : uploadedFileToPng B file = .ok dataUrl) : Made B dataUrl

/-- A canvas of the size a signature may have. -/
def ImageData.Small (canvas : ImageData) : Prop :=
  (1 ≤ canvas.width ∧ canvas.width ≤ MAX_W) ∧ 1 ≤ canvas.height ∧ canvas.height ≤ MAX_H

theorem Box.Tight.positive {image : ImageData} {box : Box} (h : box.Tight image) : 0 < box.w ∧ 0 < box.h := by
  obtain ⟨p, hp, -⟩ := h.left
  have hholds := h.holds p hp
  simp only [Box.Has] at hholds
  omega

theorem small_of_scaled {B : Browser} (hB : B.Lawful) (source : ImageData) (box : Box) {w h : Int} (hw : 0 < w)
    (hh : 0 < h) : (B.drawImage source box (scaledSize w h).1 (scaledSize w h).2).Small := by
  obtain ⟨hwidth, hheight⟩ := hB.drawn source box (scaledSize w h).1 (scaledSize w h).2
  rw [ImageData.Small, hwidth, hheight]
  exact scaledSize_le hw hh

theorem canvasToTrimmedPng_eq_some {B : Browser} (hB : B.Lawful) {source : ImageData} {dataUrl : JsString}
    (h : canvasToTrimmedPng B source = some dataUrl) :
    ∃ canvas : ImageData, canvas.Small ∧ dataUrl = B.toDataURL canvas := by
  unfold canvasToTrimmedPng at h
  cases htrim : trimToInk source with
  | none =>
      rw [htrim] at h
      cases h
  | some box =>
      rw [htrim] at h
      obtain ⟨hw, hh⟩ := (trimToInk_tight htrim).positive
      exact ⟨_, small_of_scaled hB source box hw hh, (Option.some.inj h).symm⟩

/-- A picture without ink is sent as it is. -/
theorem trimmed_or_whole {B : Browser} (hB : B.Lawful) {canvas : ImageData} (hsmall : canvas.Small) :
    ∃ sent : ImageData, sent.Small ∧ (canvasToTrimmedPng B canvas).getD (B.toDataURL canvas) = B.toDataURL sent := by
  cases htrim : canvasToTrimmedPng B canvas with
  | none => exact ⟨canvas, hsmall, rfl⟩
  | some trimmed => exact canvasToTrimmedPng_eq_some hB htrim

/-- Whichever way it was made, what is adopted is the PNG of a small canvas. -/
theorem Made.of_small {B : Browser} (hB : B.Lawful) {dataUrl : JsString} (h : Made B dataUrl) :
    ∃ canvas : ImageData, canvas.Small ∧ dataUrl = B.toDataURL canvas := by
  cases h with
  | typed text font h =>
      simp only [typedSignatureToPng, Option.ite_none_left_eq_some] at h
      exact canvasToTrimmedPng_eq_some hB h.2
  | drawn canvas h => exact canvasToTrimmedPng_eq_some hB h
  | uploaded file h =>
      unfold uploadedFileToPng at h
      split at h
      · cases h
      · split at h
        · cases h
        · split at h
          · cases h
          · rename_i img _
            obtain rfl := Except.ok.inj h
            exact trimmed_or_whole hB (small_of_scaled hB img.val _ (Int.natCast_pos.mpr img.property.1)
              (Int.natCast_pos.mpr img.property.2))

/-! ## On the wire -/

/-- What is left to decide after the header, where the bytes are not too many: the declared size. -/
theorem decodeSignaturePng_eq {text : JsString} (hbytes : (Base64.decode text).length ≤ MAX_SIGNATURE_BYTES) :
    decodeSignaturePng Base64.decode (js "data:image/png;base64," ++ text) =
      (pngDimensions (Base64.decode text)).bind fun size =>
        if size.1 * size.2 > MAX_SIGNATURE_PIXELS then none else some (Base64.decode text) := by
  have hcomma : (js "data:image/png;base64," ++ text).findIdx? (fun u => u == 0x2C) = some 21 := by
    rw [List.findIdx?_append]
    rfl
  have htake : (js "data:image/png;base64," ++ text).take 21 = js "data:image/png;base64" := by
    rw [List.take_append_of_le_length (by decide)]
    rfl
  have hdrop : (js "data:image/png;base64," ++ text).drop (21 + 1) = text := List.drop_left' (by decide)
  have hheader : (Contracts.toLowerCase (js "data:image/png;base64") != js "data:image/png;base64") = false := by
    decide +kernel
  unfold decodeSignaturePng
  rw [hcomma]
  simp only [htake, hdrop, hheader, Bool.false_eq_true, if_false]
  cases hdims : pngDimensions (Base64.decode text) with
  | none => simp
  | some size =>
      -- A declared size means that there are bytes, and that they begin as those of a PNG do.
      simp only [pngDimensions, Option.ite_none_left_eq_some, Bool.or_eq_true, Bool.not_eq_true',
        decide_eq_true_eq, not_or, Bool.not_eq_false] at hdims
      have hpos : ¬ ((Base64.decode text).length = 0 ∨ (Base64.decode text).length > MAX_SIGNATURE_BYTES) := by omega
      rw [if_neg hpos, hdims.1.1]
      rfl

/-- A text of the length the contract lets in reads as fewer bytes than the server takes. -/
theorem bytes_of_admitted {text : JsString} (h : (js "data:image/png;base64," ++ text).length ≤ 3000000) :
    (Base64.decode text).length ≤ MAX_SIGNATURE_BYTES := by
  have hle := Base64.length_decode_le text
  rw [List.length_append] at h
  simp only [MAX_SIGNATURE_BYTES]
  omega

/-- **Of what the contract lets in, the server takes every PNG within its bound on pixels**, and nothing else. -/
theorem decodeSignaturePng_iff {dataUrl : JsString} (hbegins : js "data:image/png;base64," <+: dataUrl)
    (hlength : dataUrl.length ≤ 3000000) (bytes : List UInt8) :
    decodeSignaturePng Base64.decode dataUrl = some bytes ↔
      bytes = Base64.decode (dataUrl.drop 22) ∧
        ∃ width height, pngDimensions bytes = some (width, height) ∧ width * height ≤ MAX_SIGNATURE_PIXELS := by
  obtain ⟨text, rfl⟩ := hbegins
  rw [decodeSignaturePng_eq (bytes_of_admitted hlength), List.drop_left' (by decide), Option.bind_eq_some_iff]
  constructor
  · rintro ⟨size, hdims, hsize⟩
    obtain ⟨hpixels, hsome⟩ := Option.ite_none_left_eq_some.mp hsize
    obtain rfl := Option.some.inj hsome
    exact ⟨rfl, size.1, size.2, hdims, not_lt.mp hpixels⟩
  · rintro ⟨rfl, width, height, hdims, hpixels⟩
    exact ⟨(width, height), hdims, if_neg (not_lt.mpr hpixels)⟩

/-- The PNG of one dark pixel, as text. -/
def onePixelPng : JsString :=
  js "iVBORw0KGgoAAAANSUhEUgAAAAEAAAABCAYAAAAfFcSJAAAADUlEQVR4" ++
    js "nGPgktX7DwAB3wFVNMOcogAAAABJRU5ErkJggg=="

theorem one_pixel_taken : decodeSignaturePng Base64.decode (js "data:image/png;base64," ++ onePixelPng) =
    some (Base64.decode onePixelPng) :=
  (decodeSignaturePng_iff (List.prefix_append _ _) (by decide +kernel) _).mpr
    ⟨by rw [List.drop_left' (by decide)], 1, 1, by decide +kernel, by decide⟩

/-- **A signature arrives as it was written**, whichever of the three ways it was made, if the contract lets it in. -/
theorem adopted_arrives {B : Browser} (hB : B.Lawful) {dataUrl : JsString} (h : Made B dataUrl)
    (hlength : dataUrl.length ≤ 3000000) :
    ∃ canvas : ImageData, canvas.Small ∧ dataUrl = B.toDataURL canvas ∧
      decodeSignaturePng Base64.decode dataUrl = some (B.toPng canvas) := by
  obtain ⟨canvas, hsmall, rfl⟩ := h.of_small hB
  refine ⟨canvas, hsmall, rfl, ?_⟩
  have hdims := hB.png canvas hsmall.1 hsmall.2
  have hpixels : canvas.width * canvas.height ≤ MAX_SIGNATURE_PIXELS :=
    le_trans (Nat.mul_le_mul hsmall.1.2 hsmall.2.2) (by decide)
  have hread : Base64.decode (Base64.encode .base64 (B.toPng canvas)) = B.toPng canvas :=
    Base64.decode_encode .base64 (B.toPng canvas)
  have hbytes := bytes_of_admitted hlength
  have htaken := decodeSignaturePng_eq hbytes
  rw [hread, hdims, Option.bind_some, if_neg (not_lt.mpr hpixels)] at htaken
  exact htaken

/-! ## One pixel -/

/-- A browser that paints what it paints dark all over, and writes the header of a PNG where the image is not a
single dark pixel. -/
def darkBrowser : Browser where
  drawImage := fun _ _ w h => ⟨w, h, (List.replicate (w * h) [10, 29, 46, 255]).flatten⟩
  measureText := fun _ _ _ => 0
  fillText := fun _ _ _ w h => ⟨w, h, (List.replicate (w * h) [10, 29, 46, 255]).flatten⟩
  toPng := fun canvas =>
    if canvas = ⟨1, 1, [10, 29, 46, 255]⟩ then Base64.decode onePixelPng
    else
      PNG_SIGNATURE ++ [0, 0, 0, 13, 0x49, 0x48, 0x44, 0x52] ++
        [0, 0, UInt8.ofNat (canvas.width / 256), UInt8.ofNat (canvas.width % 256)] ++
        [0, 0, UInt8.ofNat (canvas.height / 256), UInt8.ofNat (canvas.height % 256)] ++ [8, 6, 0, 0, 0]

theorem darkBrowser_lawful : darkBrowser.Lawful where
  drawn := fun _ _ _ _ => ⟨rfl, rfl⟩
  png := by
    rintro canvas ⟨hw, hwidth⟩ ⟨hh, hheight⟩
    simp only [MAX_W, MAX_H] at hwidth hheight
    simp only [darkBrowser]
    split
    · rename_i hpixel
      rw [hpixel]
      decide +kernel
    · have hbytes {n : Nat} (hn : n < 65536) :
          (UInt8.ofNat (n / 256)).toNat * 256 + (UInt8.ofNat (n % 256)).toNat = n := by
        simp only [UInt8.toNat_ofNat']
        omega
      have hread := hbytes (show canvas.width < 65536 by omega)
      have hread' := hbytes (show canvas.height < 65536 by omega)
      simp [pngDimensions, isPng, PNG_SIGNATURE, readUInt32BE] at hread hread' ⊢
      omega

theorem one_pixel_arrives : ∃ canvas : ImageData, canvas.Small ∧
    js "data:image/png;base64," ++ onePixelPng = darkBrowser.toDataURL canvas ∧
      decodeSignaturePng Base64.decode (js "data:image/png;base64," ++ onePixelPng) =
        some (darkBrowser.toPng canvas) :=
  adopted_arrives darkBrowser_lawful (.drawn ⟨1, 1, [10, 29, 46, 255]⟩ (by decide +kernel)) (by decide +kernel)

end ESignSoft.Signing.Ink
