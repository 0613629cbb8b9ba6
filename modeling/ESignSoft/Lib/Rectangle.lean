import Mathlib.Algebra.Order.Field.Basic
import Mathlib.Tactic.Linarith
import Mathlib.Tactic.Ring

/-!
# Rectangles with sides along the axes

A rectangle is a corner and the lengths of its sides, over an ordered field.  The corner is the one with
the least coordinates, whichever way up the second axis is read.

* `within_part`, `fractions_part` — a part of a rectangle given by fractions from the top left;
* `within_fit`, `sameCentre_fit`, `aspect_fit`, `touches_fit` — a shape fitted into a rectangle;
* `overlaps_iff` — when two rectangles share a point of their insides.
-/

namespace ESignSoft.Lib

structure Rect (K : Type*) where
  x : K
  y : K
  width : K
  height : K
  deriving DecidableEq

namespace Rect

variable {K : Type*} [Field K] [LinearOrder K] [IsStrictOrderedRing K]

def Within (a b : Rect K) : Prop :=
  b.x ≤ a.x ∧ a.x + a.width ≤ b.x + b.width ∧ b.y ≤ a.y ∧ a.y + a.height ≤ b.y + b.height

def SameCentre (a b : Rect K) : Prop :=
  a.x + a.width / 2 = b.x + b.width / 2 ∧ a.y + a.height / 2 = b.y + b.height / 2

/-- Two opposite sides of the one lie on those of the other. -/
def Touches (a b : Rect K) : Prop :=
  (a.x = b.x ∧ a.x + a.width = b.x + b.width) ∨ (a.y = b.y ∧ a.y + a.height = b.y + b.height)

/-- The ratio of the sides. -/
def aspect (r : Rect K) : K := r.width / r.height

/-! ## Parts -/

/-- The part of a rectangle that `f` gives in fractions of it, measured from its top left corner, where the
second axis points up. -/
def part (r f : Rect K) : Rect K where
  x := r.x + f.x * r.width
  y := r.y + r.height - f.y * r.height - f.height * r.height
  width := f.width * r.width
  height := f.height * r.height

/-- The fractions of `r`, from its top left corner, that `box` is. -/
def fractions (r box : Rect K) : Rect K where
  x := (box.x - r.x) / r.width
  y := (r.height - (box.y - r.y) - box.height) / r.height
  width := box.width / r.width
  height := box.height / r.height

/-- The rectangle made longer to the right and to the bottom, by a fraction of its sides. -/
def grown (r : Rect K) (ε : K) : Rect K where
  x := r.x
  y := r.y - ε * r.height
  width := r.width + ε * r.width
  height := r.height + ε * r.height

omit [LinearOrder K] [IsStrictOrderedRing K] in
theorem fractions_part {r : Rect K} (hwidth : r.width ≠ 0) (hheight : r.height ≠ 0) (f : Rect K) :
    r.fractions (r.part f) = f := by
  have hx : (r.x + f.x * r.width - r.x) / r.width = f.x := by
    rw [add_sub_cancel_left, mul_div_cancel_right₀ _ hwidth]
  have hy : (r.height - (r.y + r.height - f.y * r.height - f.height * r.height - r.y) -
      f.height * r.height) / r.height = f.y := by
    rw [div_eq_iff hheight]
    ring
  simp only [fractions, part, hx, hy, mul_div_cancel_right₀ _ hwidth, mul_div_cancel_right₀ _ hheight]

/-- A part with fractions of at most `1 + ε` on each axis leaves the rectangle by at most `ε`. -/
theorem within_part {r : Rect K} (hwidth : 0 ≤ r.width) (hheight : 0 ≤ r.height) {f : Rect K} {ε : K}
    (hx : 0 ≤ f.x) (hy : 0 ≤ f.y) (hright : f.x + f.width ≤ 1 + ε) (hbottom : f.y + f.height ≤ 1 + ε) :
    (r.part f).Within (r.grown ε) := by
  have hleft := mul_nonneg hx hwidth
  have htop := mul_nonneg hy hheight
  have hright := mul_le_mul_of_nonneg_right hright hwidth
  have hbottom := mul_le_mul_of_nonneg_right hbottom hheight
  simp only [add_mul, one_mul] at hright hbottom
  refine ⟨?_, ?_, ?_, ?_⟩ <;> dsimp only [part, grown] <;> linarith

/-! ## Fitting a shape -/

/-- How many times a shape of the given sides goes into the rectangle. -/
def fitScale (r : Rect K) (width height : K) : K := min (r.width / width) (r.height / height)

/-- The shape scaled so that it just fits into the rectangle, in the middle of it. -/
def fit (r : Rect K) (width height : K) : Rect K where
  x := r.x + (r.width - width * r.fitScale width height) / 2
  y := r.y + (r.height - height * r.fitScale width height) / 2
  width := width * r.fitScale width height
  height := height * r.fitScale width height

theorem fit_width_le {r : Rect K} {width height : K} (hwidth : 0 < width) :
    (r.fit width height).width ≤ r.width := by
  calc width * r.fitScale width height ≤ width * (r.width / width) :=
        mul_le_mul_of_nonneg_left (min_le_left _ _) hwidth.le
    _ = r.width := mul_div_cancel₀ _ hwidth.ne'

theorem fit_height_le {r : Rect K} {width height : K} (hheight : 0 < height) :
    (r.fit width height).height ≤ r.height := by
  calc height * r.fitScale width height ≤ height * (r.height / height) :=
        mul_le_mul_of_nonneg_left (min_le_right _ _) hheight.le
    _ = r.height := mul_div_cancel₀ _ hheight.ne'

omit [IsStrictOrderedRing K] in
/-- One of the two lengths is that of the rectangle. -/
theorem fit_full {r : Rect K} {width height : K} (hwidth : 0 < width) (hheight : 0 < height) :
    (r.fit width height).width = r.width ∨ (r.fit width height).height = r.height := by
  rcases le_total (r.width / width) (r.height / height) with hle | hle
  · left
    dsimp only [fit, fitScale]
    rw [min_eq_left hle, mul_div_cancel₀ _ hwidth.ne']
  · right
    dsimp only [fit, fitScale]
    rw [min_eq_right hle, mul_div_cancel₀ _ hheight.ne']

theorem within_fit {r : Rect K} {width height : K} (hwidth : 0 < width) (hheight : 0 < height) :
    (r.fit width height).Within r := by
  have hw : (r.fit width height).width ≤ r.width := fit_width_le hwidth
  have hh : (r.fit width height).height ≤ r.height := fit_height_le hheight
  dsimp only [fit] at hw hh
  refine ⟨?_, ?_, ?_, ?_⟩ <;> dsimp only [fit] <;> linarith

omit [IsStrictOrderedRing K] in
theorem touches_fit {r : Rect K} {width height : K} (hwidth : 0 < width) (hheight : 0 < height) :
    (r.fit width height).Touches r := by
  rcases fit_full (r := r) hwidth hheight with hw | hh
  · left
    dsimp only [fit] at hw ⊢
    rw [hw, sub_self, zero_div, add_zero]
    exact ⟨rfl, rfl⟩
  · right
    dsimp only [fit] at hh ⊢
    rw [hh, sub_self, zero_div, add_zero]
    exact ⟨rfl, rfl⟩

theorem fitScale_pos {r : Rect K} (hr : 0 < r.width ∧ 0 < r.height) {width height : K} (hwidth : 0 < width)
    (hheight : 0 < height) : 0 < r.fitScale width height :=
  lt_min (div_pos hr.1 hwidth) (div_pos hr.2 hheight)

/-- The shape is not distorted. -/
theorem aspect_fit {r : Rect K} (hr : 0 < r.width ∧ 0 < r.height) {width height : K} (hwidth : 0 < width)
    (hheight : 0 < height) : (r.fit width height).aspect = width / height :=
  mul_div_mul_right _ _ (fitScale_pos hr hwidth hheight).ne'

theorem sameCentre_fit (r : Rect K) (width height : K) : (r.fit width height).SameCentre r := by
  constructor <;> dsimp only [fit] <;> ring

/-! ## Overlaps -/

/-- A point off the border. -/
def Inside (r : Rect K) (x y : K) : Prop :=
  (r.x < x ∧ x < r.x + r.width) ∧ r.y < y ∧ y < r.y + r.height

/-- The insides share a point. -/
def Overlaps (a b : Rect K) : Prop := ∃ x y, a.Inside x y ∧ b.Inside x y

theorem exists_inside_both {s l s' l' : K} (hl : 0 < l) (hl' : 0 < l') :
    (∃ t, (s < t ∧ t < s + l) ∧ s' < t ∧ t < s' + l') ↔ s < s' + l' ∧ s' < s + l := by
  constructor
  · rintro ⟨t, ⟨hs, ht⟩, hs', ht'⟩
    exact ⟨hs.trans ht', hs'.trans ht⟩
  · rintro ⟨h, h'⟩
    -- Any point between the later start and the earlier end.
    obtain ⟨t, hlow, hhigh⟩ := exists_between
      (max_lt (lt_min (lt_add_of_pos_right s hl) h) (lt_min h' (lt_add_of_pos_right s' hl')))
    rw [max_lt_iff] at hlow
    rw [lt_min_iff] at hhigh
    exact ⟨t, ⟨hlow.1, hhigh.1⟩, hlow.2, hhigh.2⟩

/-- **Two rectangles overlap** exactly when they do on each axis. -/
theorem overlaps_iff {a b : Rect K} (ha : 0 < a.width ∧ 0 < a.height) (hb : 0 < b.width ∧ 0 < b.height) :
    a.Overlaps b ↔ (a.x < b.x + b.width ∧ b.x < a.x + a.width) ∧
      a.y < b.y + b.height ∧ b.y < a.y + a.height := by
  rw [← exists_inside_both ha.1 hb.1, ← exists_inside_both ha.2 hb.2]
  constructor
  · rintro ⟨x, y, ⟨hax, hay⟩, hbx, hby⟩
    exact ⟨⟨x, hax, hbx⟩, y, hay, hby⟩
  · rintro ⟨⟨x, hax, hbx⟩, y, hay, hby⟩
    exact ⟨x, y, ⟨hax, hay⟩, hbx, hby⟩

end Rect

end ESignSoft.Lib
