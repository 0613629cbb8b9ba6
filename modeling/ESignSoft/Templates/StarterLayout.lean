import Mathlib.Tactic.NormNum
import ESignSoft.Lib.Rectangle
import ESignSoft.Templates.Starter

/-!
# Where a starter's fields end up

Each piece of the form goes on from the pen the one before has left.  The box of a line reaches 2 points
over the pen it starts from, and the pen that follows is at least that far under it, so that the pieces may
be put one after the other.

* `tidy_form`, `placeable_starter` — no box meets another, wherever the pages break;
* `fits_starter` — nothing is drawn below the margin;
* `starter_laid_out` — what holds of the fields of every starter, wherever its pages break;
* `attestation_kept_iff` — when the signature stays with the words above it;
* `pages_renderStarter_le` — there are not more pages than the texts are long.
-/

namespace ESignSoft.Templates

open ESignSoft.Lib ESignSoft.Lib.JsText ESignSoft.Lib.Pagination ESignSoft.Contracts ESignSoft.Signing

/-! ## Lower on the page, or on a later one -/

/-- `p'` is on a later page than `p`, or at least `gap` below it. -/
def Clears (p p' : Pen ℚ) (gap : ℚ) : Prop := p.page < p'.page ∨ p.page = p'.page ∧ p'.y + gap ≤ p.y

theorem Clears.trans {p p' p'' : Pen ℚ} {g g' : ℚ} (h : Clears p p' g) (h' : Clears p' p'' g') :
    Clears p p'' (g + g') := by
  rcases h with hlt | ⟨heq, hle⟩
  · left
    rcases h' with hlt' | ⟨heq', -⟩
    · exact hlt.trans hlt'
    · exact heq' ▸ hlt
  · rcases h' with hlt' | ⟨heq', hle'⟩
    · exact Or.inl (heq ▸ hlt')
    · exact Or.inr ⟨heq.trans heq', by linarith⟩

theorem clears_refl (p : Pen ℚ) : Clears p p 0 := Or.inr ⟨rfl, (add_zero p.y).le⟩

theorem clears_down {p : Pen ℚ} (d : ℚ) : Clears p (p.down d) d :=
  Or.inr ⟨rfl, (sub_add_cancel p.y d).le⟩

theorem clears_reserve (p : Pen ℚ) (needed : ℚ) : Clears p (p.reserve Letter needed) 0 := by
  unfold Pen.reserve
  split
  · exact clears_refl p
  · exact Or.inl (Nat.lt_succ_self p.page)

/-- The height of a box's upper edge, and of its lower. -/
def upper (b : Placed ℚ FieldBox) : Pen ℚ := ⟨b.page, b.y + b.item.h - b.item.below⟩

def lower (b : Placed ℚ FieldBox) : Pen ℚ := ⟨b.page, b.y - b.item.below⟩

/-! ## Pieces of a form -/

/-- A box between the margins, of which 2 points may stand over the upper one. -/
structure Inside (b : Placed ℚ FieldBox) : Prop where
  left : MARGIN ≤ b.item.x
  right : b.item.x + b.item.w ≤ MARGIN + CONTENT_W
  top : (upper b).y ≤ Letter.top + 2
  bottom : Letter.bottom ≤ (lower b).y

/-- `b` comes after `a`: under it, or beside it to the right. -/
def Follows (a b : Placed ℚ FieldBox) : Prop :=
  Clears (lower a) (upper b) 0 ∨ a.page = b.page ∧ a.y = b.y ∧ a.item.h = b.item.h ∧
    a.item.below = b.item.below ∧ a.item.x + a.item.w ≤ b.item.x

/-- A piece whose boxes may come after others, wherever the pen stands. -/
structure Placeable (cmds : Draw) : Prop where
  inside : ∀ p : Pen ℚ, p.y ≤ Letter.top → ∀ b ∈ boxes (lay Letter p cmds), Inside b
  starts : ∀ p, ∀ b ∈ boxes (lay Letter p cmds), Clears p (upper b) (-2)
  apart : ∀ p, (boxes (lay Letter p cmds)).Pairwise Follows
  pages : ∀ p, ∀ b ∈ boxes (lay Letter p cmds), b.page ≤ (pen Letter p cmds).page

/-- A piece after which others may come. -/
structure Tidy (cmds : Draw) : Prop extends Placeable cmds where
  onward : ∀ p, Clears p (pen Letter p cmds) 0
  below : ∀ p : Pen ℚ, p.y ≤ Letter.top → (pen Letter p cmds).y ≤ Letter.top
  ends : ∀ p, ∀ b ∈ boxes (lay Letter p cmds), Clears (lower b) (pen Letter p cmds) 2

theorem boxes_append (marks marks' : List (Placed ℚ Mark)) : boxes (marks ++ marks') = boxes marks ++ boxes marks' :=
  List.filterMap_append

theorem boxes_lay_append (p : Pen ℚ) (cmds cmds' : Draw) : boxes (lay Letter p (cmds ++ cmds')) =
    boxes (lay Letter p cmds) ++ boxes (lay Letter (pen Letter p cmds) cmds') := by
  rw [lay_append, boxes_append]

variable {cmds cmds' : Draw}

theorem Tidy.append_placeable (h : Tidy cmds) (h' : Placeable cmds') : Placeable (cmds ++ cmds') where
  inside p hp b hb := by
    rw [boxes_lay_append] at hb
    rcases List.mem_append.mp hb with hb | hb
    · exact h.inside p hp b hb
    · exact h'.inside _ (h.below p hp) b hb
  starts p b hb := by
    rw [boxes_lay_append] at hb
    rcases List.mem_append.mp hb with hb | hb
    · exact h.starts p b hb
    · have hlater := (h.onward p).trans (h'.starts _ b hb)
      rwa [zero_add] at hlater
  apart p := by
    rw [boxes_lay_append, List.pairwise_append]
    refine ⟨h.apart p, h'.apart _, fun a ha b hb => Or.inl ?_⟩
    -- The pen between the two is 2 points under the one, and the other reaches 2 points over it.
    have hbetween := (h.ends p a ha).trans (h'.starts _ b hb)
    rwa [add_neg_cancel] at hbetween
  pages p b hb := by
    rw [boxes_lay_append] at hb
    rw [pen_append]
    rcases List.mem_append.mp hb with hb | hb
    · exact (h.pages p b hb).trans page_le_pen
    · exact h'.pages _ b hb

theorem Tidy.append (h : Tidy cmds) (h' : Tidy cmds') : Tidy (cmds ++ cmds') where
  toPlaceable := h.append_placeable h'.toPlaceable
  onward p := by
    have hboth := (h.onward p).trans (h'.onward _)
    rwa [add_zero, ← pen_append] at hboth
  below p hp := by
    rw [pen_append]
    exact h'.below _ (h.below p hp)
  ends p b hb := by
    rw [boxes_lay_append] at hb
    rw [pen_append]
    rcases List.mem_append.mp hb with hb | hb
    · have hlater := (h.ends p b hb).trans (h'.onward _)
      rwa [add_zero] at hlater
    · exact h'.ends _ b hb

theorem Tidy.flatMap {α : Type*} {l : List α} {f : α → Draw} (hnil : Tidy []) (h : ∀ a ∈ l, Tidy (f a)) :
    Tidy (l.flatMap f) := by
  induction l with
  | nil => exact hnil
  | cons a rest ih =>
      rw [List.forall_mem_cons] at h
      rw [List.flatMap_cons]
      exact h.1.append (ih h.2)

/-- Drawing that goes down and places no box. -/
def Plain (cmds : Draw) : Prop := ∀ c ∈ cmds,
  match c with
  | .reserve _ => True
  | .down d => 0 ≤ d
  | .put mark => ∀ box, mark ≠ .field box

theorem boxes_of_plain (h : Plain cmds) (p : Pen ℚ) : boxes (lay Letter p cmds) = [] := by
  fun_induction lay Letter p cmds with
  | case1 => rfl
  | case2 p needed rest ih => exact ih (List.forall_mem_cons.mp h).2
  | case3 p d rest ih => exact ih (List.forall_mem_cons.mp h).2
  | case4 p mark rest ih =>
      have hmark : ∀ box, mark ≠ .field box := (List.forall_mem_cons.mp h).1
      have hrest := ih (List.forall_mem_cons.mp h).2
      cases mark with
      | text value size bold x => exact hrest
      | rule x length below thickness => exact hrest
      | field box => exact absurd rfl (hmark box)

theorem reserve_y_le {p : Pen ℚ} (hp : p.y ≤ Letter.top) (needed : ℚ) : (p.reserve Letter needed).y ≤ Letter.top := by
  unfold Pen.reserve
  split
  · exact hp
  · exact le_rfl

theorem clears_pen_of_plain (h : Plain cmds) (p : Pen ℚ) : Clears p (pen Letter p cmds) 0 := by
  fun_induction pen Letter p cmds with
  | case1 p => exact clears_refl p
  | case2 p needed rest ih =>
      have hlater := (clears_reserve p needed).trans (ih (List.forall_mem_cons.mp h).2)
      rwa [add_zero] at hlater
  | case3 p d rest ih =>
      have hd : 0 ≤ d := (List.forall_mem_cons.mp h).1
      have hdown : Clears p (p.down d) 0 := Or.inr ⟨rfl, (add_zero (p.y - d)).trans_le (sub_le_self p.y hd)⟩
      have hlater := hdown.trans (ih (List.forall_mem_cons.mp h).2)
      rwa [add_zero] at hlater
  | case4 p mark rest ih => exact ih (List.forall_mem_cons.mp h).2

theorem pen_y_le_of_plain (h : Plain cmds) (p : Pen ℚ) (hp : p.y ≤ Letter.top) :
    (pen Letter p cmds).y ≤ Letter.top := by
  fun_induction pen Letter p cmds with
  | case1 p => exact hp
  | case2 p needed rest ih => exact ih (List.forall_mem_cons.mp h).2 (reserve_y_le hp needed)
  | case3 p d rest ih =>
      have hd : 0 ≤ d := (List.forall_mem_cons.mp h).1
      exact ih (List.forall_mem_cons.mp h).2 ((sub_le_self p.y hd).trans hp)
  | case4 p mark rest ih => exact ih (List.forall_mem_cons.mp h).2 hp

theorem tidy_of_plain (h : Plain cmds) : Tidy cmds where
  inside p _ b hb := by rw [boxes_of_plain h] at hb; exact absurd hb List.not_mem_nil
  starts p b hb := by rw [boxes_of_plain h] at hb; exact absurd hb List.not_mem_nil
  apart p := by rw [boxes_of_plain h]; exact List.Pairwise.nil
  pages p b hb := by rw [boxes_of_plain h] at hb; exact absurd hb List.not_mem_nil
  onward := clears_pen_of_plain h
  below := pen_y_le_of_plain h
  ends p b hb := by rw [boxes_of_plain h] at hb; exact absurd hb List.not_mem_nil

/-! ## Lines with a box -/

/-- The width of a line is a fraction of the content width. -/
def Line.InWidth (line : Line) : Prop := 0 ≤ line.width.getD 1 ∧ line.width.getD 1 ≤ 1

/-- What `lay` makes of a line: label, rule and box on one page, from the pen that had the room for them. -/
theorem boxes_formLine (line : Line) (p : Pen ℚ) :
    boxes (lay Letter p (formLine line)) =
      (line.field.map fun type =>
        (⟨(p.reserve Letter 34).page, (p.reserve Letter 34).y - 14, line.box type⟩ : Placed ℚ FieldBox)).toList := by
  unfold formLine
  cases line.field with
  | none => rfl
  | some type => rfl

theorem pen_formLine (line : Line) (p : Pen ℚ) :
    pen Letter p (formLine line) = ((p.reserve Letter 34).down 14).down 20 := by
  unfold formLine
  cases line.field with
  | none => rfl
  | some type => rfl

theorem bottom_le_reserve (p : Pen ℚ) {needed : ℚ} (hpage : needed ≤ Letter.top - Letter.bottom) :
    Letter.bottom + needed ≤ (p.reserve Letter needed).y := by
  have hroom := room_reserve hpage (le_refl (p.room Letter))
  have hneeded := (le_max_right _ _).trans hroom
  unfold Pen.room at hneeded
  linarith

theorem CONTENT_W_eq : CONTENT_W = 504 := by norm_num [CONTENT_W, PAGE_W, MARGIN]

theorem Letter_height : Letter.top - Letter.bottom = 684 := by norm_num [Letter, PAGE_H, MARGIN]

theorem Line.box_h (line : Line) (type : FieldType) : 14 ≤ (line.box type).h ∧ (line.box type).h ≤ 18 := by
  unfold Line.box
  dsimp only
  split
  · exact ⟨le_rfl, by norm_num⟩
  · exact ⟨by norm_num, le_rfl⟩

theorem Line.box_w {line : Line} (hline : line.InWidth) (type : FieldType) :
    0 ≤ (line.box type).w ∧ (line.box type).w ≤ CONTENT_W := by
  unfold Line.box
  rw [CONTENT_W_eq]
  dsimp only
  split
  · exact ⟨by norm_num, by norm_num⟩
  · exact ⟨mul_nonneg hline.1 (by norm_num), (mul_le_mul_of_nonneg_right hline.2 (by norm_num)).trans_eq (one_mul _)⟩

theorem tidy_formLine {line : Line} (hline : line.InWidth) : Tidy (formLine line) := by
  -- The one box there may be, seen from the pen that had 34 points left.
  have hbox : ∀ (p : Pen ℚ) b, b ∈ boxes (lay Letter p (formLine line)) → ∃ type,
      b = ⟨(p.reserve Letter 34).page, (p.reserve Letter 34).y - 14, line.box type⟩ := by
    intro p b hb
    rw [boxes_formLine, Option.mem_toList, Option.map_eq_some_iff] at hb
    obtain ⟨type, -, rfl⟩ := hb
    exact ⟨type, rfl⟩
  constructor
  constructor
  case inside =>
    intro p hp b hb
    obtain ⟨type, rfl⟩ := hbox p b hb
    have hroom : Letter.bottom + 34 ≤ (p.reserve Letter 34).y :=
      bottom_le_reserve p (by rw [Letter_height]; norm_num)
    have htop := reserve_y_le hp 34
    have hheight := line.box_h type
    have hwidth := Line.box_w hline type
    refine ⟨le_rfl, add_le_add_right hwidth.2 MARGIN, ?_, ?_⟩ <;>
      simp only [upper, lower, Line.box] at hheight ⊢ <;> linarith
  case starts =>
    intro p b hb
    obtain ⟨type, rfl⟩ := hbox p b hb
    have hheight := line.box_h type
    have hstep : Clears (p.reserve Letter 34)
        (upper ⟨(p.reserve Letter 34).page, (p.reserve Letter 34).y - 14, line.box type⟩) (-2) := by
      refine Or.inr ⟨rfl, ?_⟩
      simp only [upper, Line.box] at hheight ⊢
      linarith
    have hall := (clears_reserve p 34).trans hstep
    rwa [zero_add] at hall
  case apart =>
    intro p
    rw [boxes_formLine]
    cases line.field with
    | none => exact List.Pairwise.nil
    | some type => exact List.pairwise_singleton _ _
  case pages =>
    intro p b hb
    obtain ⟨type, rfl⟩ := hbox p b hb
    rw [pen_formLine]
    exact le_rfl
  case onward =>
    intro p
    rw [pen_formLine]
    have hdown := ((clears_reserve p 34).trans (clears_down 14)).trans (clears_down 20)
    refine hdown.imp id fun hsame => ⟨hsame.1, ?_⟩
    linarith [hsame.2]
  case below =>
    intro p hp
    rw [pen_formLine]
    have htop := reserve_y_le hp 34
    unfold Pen.down
    dsimp only
    linarith
  case ends =>
    intro p b hb
    obtain ⟨type, rfl⟩ := hbox p b hb
    rw [pen_formLine]
    refine Or.inr ⟨rfl, ?_⟩
    simp only [lower, Line.box, Pen.down]
    linarith

/-! ## The whole form -/

/-- The widths of all lines are fractions of the content width. -/
def StarterSpec.InWidth (spec : StarterSpec) : Prop := ∀ block ∈ spec.blocks, ∀ line ∈ block.lines, line.InWidth

section Form

variable (T : Typography) (spec : StarterSpec)

theorem plain_nil : Plain [] := fun _ hc => absurd hc List.not_mem_nil

theorem Plain.reserve (h : Plain cmds) (needed : ℚ) : Plain (.reserve needed :: cmds) :=
  List.forall_mem_cons.mpr ⟨trivial, h⟩

theorem Plain.down (h : Plain cmds) {d : ℚ} (hd : 0 ≤ d) : Plain (.down d :: cmds) :=
  List.forall_mem_cons.mpr ⟨hd, h⟩

theorem Plain.text (h : Plain cmds) (value : JsString) (size : ℚ) (bold : Bool) (x : ℚ) :
    Plain (Templates.text value size bold x :: cmds) := by
  refine List.forall_mem_cons.mpr ⟨fun box heq => ?_, h⟩
  cases heq

theorem Plain.rule (h : Plain cmds) (length below thickness x : ℚ) :
    Plain (Templates.rule length below thickness x :: cmds) := by
  refine List.forall_mem_cons.mpr ⟨fun box heq => ?_, h⟩
  cases heq

theorem Plain.append (h : Plain cmds) (h' : Plain cmds') : Plain (cmds ++ cmds') :=
  List.forall_mem_append.mpr ⟨h, h'⟩

theorem plain_paragraph (value : JsString) {size lead : ℚ} (hlead : 0 ≤ lead) :
    Plain (paragraph T value size lead) := by
  unfold paragraph
  induction paragraphLines T value size with
  | nil => exact plain_nil
  | cons line rest ih =>
      refine Plain.append ?_ ih
      exact ((plain_nil.down hlead).text _ _ _ _).reserve lead

theorem plain_title : Plain (title T spec) := by
  unfold title
  refine Plain.append (Plain.append ?_ (plain_paragraph T spec.intro (by norm_num))) (plain_nil.down (by norm_num))
  have hrule := (plain_nil.down (by norm_num : (0 : ℚ) ≤ 20)).rule (PAGE_W - MARGIN - MARGIN) 0 2 MARGIN
  exact ((hrule.down (by norm_num)).text _ _ _ _).reserve 60

theorem plain_blockHeading (heading : Option JsString) : Plain (blockHeading T heading) := by
  unfold blockHeading
  split
  · exact ((plain_nil.down (by norm_num)).text _ _ _ _).reserve 34
  · exact plain_nil

theorem plain_blockBody (body : Option JsString) : Plain (blockBody T body) := by
  unfold blockBody
  split
  · exact (plain_paragraph T _ (by norm_num)).append (plain_nil.down (by norm_num))
  · exact plain_nil

theorem plain_attestation : Plain (attestation T spec) := by
  unfold attestation
  refine Plain.append (Plain.append ?_ (plain_paragraph T spec.attestation (by norm_num)))
    (plain_nil.down (by norm_num))
  have hrule := (plain_nil.down (by norm_num : (0 : ℚ) ≤ 22)).rule (PAGE_W - MARGIN - MARGIN) 0 (3 / 4) MARGIN
  exact (hrule.down (by norm_num)).reserve 150

variable {spec}

theorem tidy_form (hspec : spec.InWidth) : Tidy (form T spec) := by
  refine (tidy_of_plain (plain_title T spec)).append ?_
  refine Tidy.flatMap (tidy_of_plain plain_nil) fun block hblock => ?_
  have hlines : Tidy (block.lines.flatMap formLine) :=
    Tidy.flatMap (tidy_of_plain plain_nil) fun line hline => tidy_formLine (hspec block hblock line hline)
  have hlast : Plain [.down 8] := plain_nil.down (by norm_num)
  exact ((tidy_of_plain (plain_blockHeading T block.heading)).append
    (tidy_of_plain (plain_blockBody T block.body))).append hlines |>.append (tidy_of_plain hlast)

end Form

/-- The three boxes of the signature block, all on the page that had the room for them. -/
theorem boxes_signatureBlock (p : Pen ℚ) :
    boxes (lay Letter p signatureBlock) =
      [⟨(p.reserve Letter (sigH + 60)).page, (p.reserve Letter (sigH + 60)).y - (sigH + 4), signatureBox⟩,
       ⟨(p.reserve Letter (sigH + 60)).page, (p.reserve Letter (sigH + 60)).y - (sigH + 4) - 18 - 20,
        halfBox .name MARGIN⟩,
       ⟨(p.reserve Letter (sigH + 60)).page, (p.reserve Letter (sigH + 60)).y - (sigH + 4) - 18 - 20,
        halfBox .date rightX⟩] := rfl

theorem page_signatureBlock (p : Pen ℚ) :
    (pen Letter p signatureBlock).page = (p.reserve Letter (sigH + 60)).page := rfl

theorem placeable_signatureBlock : Placeable signatureBlock where
  inside p hp b hb := by
    rw [boxes_signatureBlock] at hb
    have hroom : Letter.bottom + (sigH + 60) ≤ (p.reserve Letter (sigH + 60)).y :=
      bottom_le_reserve p (by rw [Letter_height]; norm_num [sigH])
    have htop := reserve_y_le hp (sigH + 60)
    simp only [sigH] at hroom htop hb
    simp only [List.mem_cons, List.not_mem_nil, or_false] at hb
    rcases hb with rfl | rfl | rfl <;> constructor <;>
      simp only [upper, lower, signatureBox, halfBox, CONTENT_W_eq, sigW, sigH, halfW, rightX, MARGIN] <;> linarith
  starts p b hb := by
    rw [boxes_signatureBlock] at hb
    have hstep : Clears (p.reserve Letter (sigH + 60)) (upper b) (-2) := by
      simp only [List.mem_cons, List.not_mem_nil, or_false] at hb
      rcases hb with rfl | rfl | rfl <;> refine Or.inr ⟨rfl, ?_⟩ <;>
        simp only [upper, signatureBox, halfBox, sigH] <;> linarith
    have hall := (clears_reserve p (sigH + 60)).trans hstep
    rwa [zero_add] at hall
  apart p := by
    rw [boxes_signatureBlock]
    have hunder : ∀ (page : ℕ) (y x : ℚ) (type : FieldType),
        Follows ⟨page, y, signatureBox⟩ ⟨page, y - 18 - 20, halfBox type x⟩ := by
      intro page y x type
      refine Or.inl (Or.inr ⟨rfl, ?_⟩)
      simp only [upper, lower, signatureBox, halfBox]
      linarith
    have hbeside : ∀ (page : ℕ) (y : ℚ), Follows ⟨page, y, halfBox .name MARGIN⟩ ⟨page, y, halfBox .date rightX⟩ := by
      intro page y
      refine Or.inr ⟨rfl, rfl, rfl, rfl, ?_⟩
      norm_num [halfBox, halfW, rightX]
    simp only [List.pairwise_cons, List.forall_mem_cons]
    have hnone : ∀ a : Placed ℚ FieldBox, ∀ b ∈ ([] : List (Placed ℚ FieldBox)), Follows a b :=
      fun a b hb => absurd hb List.not_mem_nil
    exact ⟨⟨hunder _ _ _ _, hunder _ _ _ _, hnone _⟩, ⟨hbeside _ _, hnone _⟩, hnone _, List.Pairwise.nil⟩
  pages p b hb := by
    rw [boxes_signatureBlock] at hb
    rw [page_signatureBlock]
    simp only [List.mem_cons, List.not_mem_nil, or_false] at hb
    rcases hb with rfl | rfl | rfl <;> exact le_rfl

theorem placeable_starter (T : Typography) {spec : StarterSpec} (hspec : spec.InWidth) :
    Placeable (starter T spec) :=
  ((tidy_form T hspec).append (tidy_of_plain (plain_attestation T spec))).append_placeable placeable_signatureBlock

/-! ## Nothing below the margin -/

theorem fits_flatMap {α : Type*} {l : List α} {f : α → Draw} (h : ∀ a ∈ l, ∀ b, FitsBy Letter Mark.depth b (f a))
    (b : ℚ) : FitsBy Letter Mark.depth b (l.flatMap f) := by
  induction l generalizing b with
  | nil => trivial
  | cons a rest ih =>
      rw [List.forall_mem_cons] at h
      rw [List.flatMap_cons]
      exact fits_append.mpr ⟨h.1 b, ih h.2 _⟩

section Fits

variable (T : Typography)

theorem fits_paragraph (value : JsString) {size lead : ℚ} (hlead : 0 ≤ lead) (hpage : lead ≤ 684) (b : ℚ) :
    FitsBy Letter Mark.depth b (paragraph T value size lead) := by
  refine fits_flatMap (fun line _ b => ?_) b
  exact fits_reserve (hpage.trans_eq Letter_height.symm) ⟨hlead, trivial⟩

theorem fits_formLine (line : Line) (b : ℚ) : FitsBy Letter Mark.depth b (formLine line) := by
  refine fits_reserve (by rw [Letter_height]; norm_num) ⟨by norm_num, by norm_num, ?_⟩
  cases line.field with
  | none => trivial
  | some type => exact ⟨by norm_num [Line.box], trivial⟩

theorem fits_formBlock (block : Block) (b : ℚ) : FitsBy Letter Mark.depth b (formBlock T block) := by
  unfold formBlock
  refine fits_append.mpr ⟨fits_append.mpr ⟨fits_append.mpr ⟨?_, ?_⟩, ?_⟩, trivial⟩
  · unfold blockHeading
    split
    · exact fits_reserve (by rw [Letter_height]; norm_num) ⟨by norm_num, trivial⟩
    · trivial
  · unfold blockBody
    split
    · exact fits_append.mpr ⟨fits_paragraph T _ (by norm_num) (by norm_num) _, trivial⟩
    · trivial
  · exact fits_flatMap (fun line _ => fits_formLine line) _

theorem fits_signatureBlock (b : ℚ) : FitsBy Letter Mark.depth b signatureBlock := by
  unfold signatureBlock
  refine fits_reserve (by rw [Letter_height]; norm_num [sigH]) ?_
  norm_num [text, rule, FitsBy, sigH, signatureBox, halfBox]

theorem fits_starter (spec : StarterSpec) (b : ℚ) : FitsBy Letter Mark.depth b (starter T spec) := by
  have htitle : ∀ b, FitsBy Letter Mark.depth b (title T spec) := fun b => fits_append.mpr
    ⟨fits_append.mpr ⟨fits_reserve (by rw [Letter_height]; norm_num) ⟨by norm_num, by norm_num, trivial⟩,
      fits_paragraph T _ (by norm_num) (by norm_num) _⟩, trivial⟩
  have hwords : ∀ b, FitsBy Letter Mark.depth b (attestation T spec) := fun b => fits_append.mpr
    ⟨fits_append.mpr ⟨fits_reserve (by rw [Letter_height]; norm_num) ⟨by norm_num, trivial⟩,
      fits_paragraph T _ (by norm_num) (by norm_num) _⟩, trivial⟩
  exact fits_append.mpr ⟨fits_append.mpr ⟨fits_append.mpr
    ⟨htitle b, fits_flatMap (fun block _ => fits_formBlock T block) _⟩, hwords _⟩, fits_signatureBlock _⟩

end Fits

/-! ## Which fields there are -/

/-- The box of a line that has one. -/
def Line.boxes (line : Line) : List FieldBox := (line.field.map line.box).toList

/-- The boxes of the lines, then the signature, the name and the date. -/
def StarterSpec.boxes (spec : StarterSpec) : List FieldBox :=
  spec.blocks.flatMap (fun block => block.lines.flatMap Line.boxes) ++
    [signatureBox, halfBox .name MARGIN, halfBox .date rightX]

/-- The boxes among the commands, wherever they are drawn. -/
def boxItems (cmds : Draw) : List FieldBox :=
  (items cmds).filterMap fun mark =>
    match mark with
    | .field box => some box
    | _ => none

theorem boxItems_append : boxItems (cmds ++ cmds') = boxItems cmds ++ boxItems cmds' := by
  unfold boxItems
  rw [items_append, List.filterMap_append]

theorem map_item_boxes (p : Pen ℚ) : (boxes (lay Letter p cmds)).map Placed.item = boxItems cmds := by
  unfold boxes boxItems
  rw [← map_item_lay (S := Letter) (p := p), List.map_filterMap, List.filterMap_map]
  refine List.filterMap_congr fun q _ => ?_
  dsimp only [Function.comp]
  cases q.item <;> rfl

theorem boxItems_flatMap {α : Type*} (l : List α) (f : α → Draw) :
    boxItems (l.flatMap f) = l.flatMap fun a => boxItems (f a) := by
  induction l with
  | nil => rfl
  | cons a rest ih => rw [List.flatMap_cons, List.flatMap_cons, boxItems_append, ih]

theorem boxItems_of_plain (h : Plain cmds) : boxItems cmds = [] := by
  rw [← map_item_boxes firstPage, boxes_of_plain h]
  rfl

theorem boxItems_formLine (line : Line) : boxItems (formLine line) = line.boxes := by
  unfold formLine Line.boxes
  cases line.field with
  | none => rfl
  | some type => rfl

theorem boxItems_formBlock (T : Typography) (block : Block) :
    boxItems (formBlock T block) = block.lines.flatMap Line.boxes := by
  unfold formBlock
  rw [boxItems_append, boxItems_append, boxItems_append, boxItems_of_plain (plain_blockHeading T block.heading),
    boxItems_of_plain (plain_blockBody T block.body), boxItems_flatMap]
  simp only [boxItems_formLine, List.nil_append]
  exact List.append_nil _

theorem boxItems_starter (T : Typography) (spec : StarterSpec) : boxItems (starter T spec) = spec.boxes := by
  unfold starter form StarterSpec.boxes
  rw [boxItems_append, boxItems_append, boxItems_append, boxItems_of_plain (plain_title T spec),
    boxItems_of_plain (plain_attestation T spec), boxItems_flatMap]
  simp only [boxItems_formBlock, List.nil_append, List.append_nil]
  rfl

/-! ## Labels -/

/-- A field stands over the rule of its line, and the label over both. -/
theorem line_drawn (T : Typography) {spec : StarterSpec} {block : Block} (hblock : block ∈ spec.blocks) {line : Line}
    (hline : line ∈ block.lines) : ∃ p : Pen ℚ,
      (⟨p.page, p.y, .text (toPdfSafeText line.label) 9 false MARGIN⟩ : Placed ℚ Mark) ∈ (renderStarter T spec).marks ∧
      (⟨p.page, p.y - 14, .rule MARGIN (line.width.getD 1 * CONTENT_W) 2 (3 / 4)⟩ : Placed ℚ Mark) ∈
        (renderStarter T spec).marks ∧
      ∀ type ∈ line.field, placeField ⟨p.page, p.y - 14, line.box type⟩ ∈ (renderStarter T spec).fields := by
  -- The commands of the line, with what comes before and after them.
  have hparts : ∃ before after, starter T spec = before ++ (formLine line ++ after) := by
    obtain ⟨linesBefore, linesAfter, hlines⟩ := List.append_of_mem hline
    obtain ⟨blocksBefore, blocksAfter, hblocks⟩ := List.append_of_mem hblock
    have hformBlock : formBlock T block = blockHeading T block.heading ++ (blockBody T block.body ++
        (linesBefore.flatMap formLine ++ (formLine line ++ (linesAfter.flatMap formLine ++ [.down 8])))) := by
      unfold formBlock
      rw [hlines, List.flatMap_append, List.flatMap_cons]
      simp only [List.append_assoc]
    refine ⟨title T spec ++ (blocksBefore.flatMap (formBlock T) ++ (blockHeading T block.heading ++
      (blockBody T block.body ++ linesBefore.flatMap formLine))), linesAfter.flatMap formLine ++ ([.down 8] ++
      (blocksAfter.flatMap (formBlock T) ++ (attestation T spec ++ signatureBlock))), ?_⟩
    unfold starter form
    rw [hblocks, List.flatMap_append, List.flatMap_cons, hformBlock]
    simp only [List.append_assoc]
  obtain ⟨before, after, hstarter⟩ := hparts
  have hmarks : lay Letter (pen Letter firstPage before) (formLine line) ⊆
      lay Letter firstPage (starter T spec) := by
    rw [hstarter, lay_append, lay_append]
    exact List.Subset.trans (List.subset_append_left _ _) (List.subset_append_right _ _)
  refine ⟨(pen Letter firstPage before).reserve Letter 34, hmarks List.mem_cons_self,
    hmarks (List.mem_cons_of_mem _ List.mem_cons_self), fun type htype => ?_⟩
  refine List.mem_map_of_mem ?_
  rw [hstarter, boxes_lay_append, boxes_lay_append, boxes_formLine, Option.mem_def.mp htype]
  exact List.mem_append_right _ (List.mem_append_left _ List.mem_cons_self)

/-! ## The layout -/

def PlacedField.rect (f : PlacedField) : Rect ℚ := ⟨f.x, f.y, f.w, f.h⟩

/-- What lies between the margins, and 2 points over the upper one. -/
def writable : Rect ℚ :=
  ⟨MARGIN / PAGE_W, (MARGIN - 2) / PAGE_H, CONTENT_W / PAGE_W, (PAGE_H - 2 * MARGIN + 2) / PAGE_H⟩

/-- On an earlier page, wholly above, or beside and to the left. -/
def PlacedField.Precedes (f g : PlacedField) : Prop :=
  f.page < g.page ∨ f.page = g.page ∧ (f.y + f.h ≤ g.y ∨ f.y = g.y ∧ f.h = g.h ∧ f.x + f.w ≤ g.x)

/-- Fields in reading order do not overlap. -/
theorem PlacedField.Precedes.not_overlaps {f g : PlacedField} (h : f.Precedes g) (hpage : f.page = g.page) :
    ¬ f.rect.Overlaps g.rect := by
  rintro ⟨x, y, ⟨⟨-, hfx⟩, -, hfy⟩, ⟨hgx, -⟩, hgy, -⟩
  simp only [PlacedField.rect] at hfx hfy hgx hgy
  rcases h with hlt | ⟨-, habove | ⟨-, -, hleft⟩⟩
  · exact absurd hpage hlt.ne
  · linarith
  · linarith

theorem within_writable {b : Placed ℚ FieldBox} (h : Inside b) : (placeField b).rect.Within writable := by
  have hleft := h.left
  have hright := h.right
  have htop := h.top
  have hbottom := h.bottom
  simp only [upper, lower, Letter] at htop hbottom
  have hw : (0 : ℚ) ≤ PAGE_W := by norm_num [PAGE_W]
  have hh : (0 : ℚ) ≤ PAGE_H := by norm_num [PAGE_H]
  refine ⟨div_le_div_of_nonneg_right hleft hw, ?_, div_le_div_of_nonneg_right (by linarith) hh, ?_⟩
  · simp only [PlacedField.rect, placeField, writable]
    rw [← add_div, ← add_div]
    exact div_le_div_of_nonneg_right hright hw
  · simp only [PlacedField.rect, placeField, writable]
    rw [← add_div, ← add_div]
    refine div_le_div_of_nonneg_right ?_ hh
    linarith

theorem precedes_of_follows {a b : Placed ℚ FieldBox} (h : Follows a b) : (placeField a).Precedes (placeField b) := by
  have hw : (0 : ℚ) ≤ PAGE_W := by norm_num [PAGE_W]
  have hh : (0 : ℚ) ≤ PAGE_H := by norm_num [PAGE_H]
  rcases h with (hlt | ⟨hpage, hle⟩) | ⟨hpage, hy, hheight, hbelow, hx⟩
  · exact Or.inl hlt
  · refine Or.inr ⟨hpage, Or.inl ?_⟩
    simp only [placeField, upper, lower] at hle ⊢
    rw [← add_div]
    refine div_le_div_of_nonneg_right ?_ hh
    linarith
  · refine Or.inr ⟨hpage, Or.inr ⟨?_, ?_, ?_⟩⟩ <;> simp only [placeField]
    · rw [hy, hheight, hbelow]
    · rw [hheight]
    · rw [← add_div]
      exact div_le_div_of_nonneg_right hx hw

/-- What holds of the fields and of what is drawn. -/
structure LaidOut (spec : StarterSpec) (r : Rendered) : Prop where
  /-- Every field stands on a page of the document, between its margins. -/
  inside : ∀ f ∈ r.fields, 1 ≤ f.page ∧ f.page ≤ r.pages ∧ f.rect.Within writable
  /-- The fields are in reading order, and no two meet. -/
  ordered : r.fields.Pairwise PlacedField.Precedes
  /-- They are those of the lines, then the signature, the name and the date. -/
  asked : (r.fields.map fun f => (f.type, f.w, f.h, f.required)) =
    spec.boxes.map fun box => (box.type, box.w / PAGE_W, box.h / PAGE_H, box.required)
  /-- The last three stand on the last page. -/
  signed : ∃ above block, r.fields = above ++ block ∧ block.length = 3 ∧ ∀ f ∈ block, f.page = r.pages
  /-- Nothing that is drawn reaches below the margin. -/
  drawn : ∀ q ∈ r.marks, MARGIN ≤ q.y - q.item.depth
  /-- A line's field stands over its rule, and its label over both. -/
  labelled : ∀ block ∈ spec.blocks, ∀ line ∈ block.lines, ∃ p : Pen ℚ,
    (⟨p.page, p.y, .text (toPdfSafeText line.label) 9 false MARGIN⟩ : Placed ℚ Mark) ∈ r.marks ∧
    (⟨p.page, p.y - 14, .rule MARGIN (line.width.getD 1 * CONTENT_W) 2 (3 / 4)⟩ : Placed ℚ Mark) ∈ r.marks ∧
    ∀ type ∈ line.field, placeField ⟨p.page, p.y - 14, line.box type⟩ ∈ r.fields

theorem laidOut_renderStarter (T : Typography) {spec : StarterSpec} (hspec : spec.InWidth) :
    LaidOut spec (renderStarter T spec) where
  inside f hf := by
    obtain ⟨b, hb, rfl⟩ := List.mem_map.mp hf
    have hplaced := placeable_starter T hspec
    refine ⟨?_, hplaced.pages firstPage b hb, within_writable (hplaced.inside firstPage le_rfl b hb)⟩
    rcases hplaced.starts firstPage b hb with hlater | ⟨hsame, -⟩
    · exact hlater.le
    · exact hsame.le
  ordered := by
    unfold renderStarter
    rw [List.pairwise_map]
    exact ((placeable_starter T hspec).apart firstPage).imp precedes_of_follows
  asked := by
    unfold renderStarter
    rw [← boxItems_starter T spec, ← map_item_boxes firstPage, List.map_map, List.map_map]
    rfl
  signed := by
    refine ⟨(boxes (lay Letter firstPage (form T spec ++ attestation T spec))).map placeField,
      (boxes (lay Letter (pen Letter firstPage (form T spec ++ attestation T spec)) signatureBlock)).map placeField,
      ?_, rfl, ?_⟩
    · unfold renderStarter starter
      rw [boxes_lay_append, List.map_append]
    · intro f hf
      obtain ⟨b, hb, rfl⟩ := List.mem_map.mp hf
      have hpages : (renderStarter T spec).pages =
          (pen Letter (pen Letter firstPage (form T spec ++ attestation T spec)) signatureBlock).page := by
        unfold renderStarter starter
        rw [pen_append]
      rw [hpages, page_signatureBlock]
      rw [boxes_signatureBlock] at hb
      simp only [List.mem_cons, List.not_mem_nil, or_false] at hb
      rcases hb with rfl | rfl | rfl <;> rfl
  drawn := by
    have hroom : (firstPage.room Letter) ≤ firstPage.room Letter := le_rfl
    exact bottom_le_of_fits (fits_starter T spec _) hroom
  labelled _ hblock _ hline := line_drawn T hblock hline

/-- **Every starter is laid out** so that its fields are where they can be filled in: on the pages, in order and
apart from each other, whatever the widths of its texts come to. -/
theorem starter_laid_out (T : Typography) {spec : StarterSpec} (hspec : spec.InWidth) :
    LaidOut spec (renderStarter T spec) ∧
      (renderStarter T spec).fields.Pairwise fun f g => f.page = g.page → ¬ f.rect.Overlaps g.rect := by
  have hlaid := laidOut_renderStarter T hspec
  exact ⟨hlaid, hlaid.ordered.imp fun hprecedes hpage => hprecedes.not_overlaps hpage⟩

/-- Every character is half as wide as it is high. -/
def fixedWidth : Typography where
  widthOfTextAtSize text size := text.length * size / 2
  toUpperCase text := text

/-- Two lines side by side would fit, but stand one under the other. -/
def twoLines : StarterSpec where
  key := js "two"
  name := js "Two lines"
  category := .realEstate
  summary := js "Two"
  intro := js "Fill in both"
  blocks := [{ lines := [{ label := js "Start", field := some .text, width := some (9 / 20) },
    { label := js "End", field := some .text, width := some (9 / 20) }] }]
  attestation := js "I agree"

theorem inWidth_twoLines : twoLines.InWidth := by
  intro block hblock line hline
  simp only [twoLines, List.mem_singleton] at hblock
  subst hblock
  simp only [List.mem_cons, List.not_mem_nil, or_false] at hline
  rcases hline with rfl | rfl <;> exact ⟨by norm_num, by norm_num⟩

theorem starter_laid_out_example : (renderStarter fixedWidth twoLines).fields.length = 5 ∧
    LaidOut twoLines (renderStarter fixedWidth twoLines) ∧ (renderStarter fixedWidth twoLines).fields.Pairwise
      fun f g => f.page = g.page → ¬ f.rect.Overlaps g.rect := by
  have hcount : (renderStarter fixedWidth twoLines).fields.length = 5 := by decide +kernel
  exact ⟨hcount, starter_laid_out fixedWidth inWidth_twoLines⟩

/-! ## The signature and the words above it -/

section Attestation

variable {T : Typography} {size lead : ℚ}

/-- A paragraph that has not left its page has taken its lead for each line. -/
theorem room_of_page_eq {lines : List JsString} {p : Pen ℚ}
    (h : (pen Letter p (lines.flatMap fun line => [.reserve lead, text line size, .down lead])).page = p.page) :
    (pen Letter p (lines.flatMap fun line => [.reserve lead, text line size, .down lead])).room Letter =
      p.room Letter - lead * lines.length := by
  induction lines generalizing p with
  | nil =>
      rw [List.length_nil, Nat.cast_zero, mul_zero, sub_zero]
      rfl
  | cons line rest ih =>
      have hrest : ∀ p', (pen Letter p' (List.flatMap (fun line => [.reserve lead, text line size, .down lead])
          (line :: rest))) = pen Letter ((p'.reserve Letter lead).down lead) (List.flatMap
            (fun line => [.reserve lead, text line size, .down lead]) rest) := fun _ => rfl
      rw [hrest] at h ⊢
      -- Pages only go up, so that the first line has not gone on to a new one.
      have hle : ((p.reserve Letter lead).down lead).page ≤ p.page := h ▸ page_le_pen
      have hpage : (p.reserve Letter lead).page = p.page := le_antisymm hle (page_le_reserve lead)
      have hsame := reserve_of_le (page_reserve_iff.mp hpage)
      rw [hsame] at h ⊢
      rw [ih h, List.length_cons, Nat.cast_add, Nat.cast_one, room_down]
      ring

/-- A paragraph with room for all its lines stays on its page. -/
theorem page_of_room (lines : List JsString) (size : ℚ) (hlead : 0 ≤ lead) {p : Pen ℚ}
    (h : lead * lines.length ≤ p.room Letter) :
    (pen Letter p (lines.flatMap fun line => [.reserve lead, text line size, .down lead])).page = p.page ∧
    ∀ q ∈ lay Letter p (lines.flatMap fun line => [.reserve lead, text line size, .down lead]), q.page = p.page := by
  induction lines generalizing p with
  | nil => exact ⟨rfl, fun q hq => absurd hq List.not_mem_nil⟩
  | cons line rest ih =>
      rw [List.length_cons, Nat.cast_add, Nat.cast_one] at h
      have hrest : 0 ≤ lead * rest.length := mul_nonneg hlead (Nat.cast_nonneg _)
      have hsame : p.reserve Letter lead = p := reserve_of_le (by linarith)
      have hnext := ih (p := p.down lead) (by rw [room_down]; linarith)
      simp only [List.flatMap_cons, List.cons_append, List.nil_append, pen, lay, text, hsame, List.forall_mem_cons]
      exact ⟨hnext.1, trivial, hnext.2⟩

/-- The room left under the form on its last page. -/
def roomUnderForm (T : Typography) (spec : StarterSpec) : ℚ := roomLeft Letter 684 (form T spec)

theorem room_form (spec : StarterSpec) : (pen Letter firstPage (form T spec)).room Letter = roomUnderForm T spec := by
  rw [room_pen]
  exact congrArg (roomLeft Letter · _) (by norm_num [Pen.room, firstPage, Letter, PAGE_H, MARGIN])

/-- The room the attestation starts with: what is left, or a fresh page where that is under 150 points. -/
def attestationRoom (T : Typography) (spec : StarterSpec) : ℚ :=
  if 150 ≤ roomUnderForm T spec then roomUnderForm T spec else 684

/-- **The attestation stays with the signature** exactly when there is room for both: 14 points a line, and
152.  The 150 points that are asked for do not cover even an empty one. -/
theorem attestation_kept_iff (spec : StarterSpec) :
    (∀ q ∈ lay Letter (pen Letter firstPage (form T spec)) (attestation T spec),
        q.page = (renderStarter T spec).pages) ↔
      152 + 14 * ((paragraphLines T spec.attestation 10).length : ℚ) ≤ attestationRoom T spec := by
  -- The pen the attestation starts from, and the one its words do.
  let p := (pen Letter firstPage (form T spec)).reserve Letter 150
  let p' := (p.down 6).down 22
  have hroom : p.room Letter = attestationRoom T spec := by
    refine room_reserve_eq.trans ?_
    rw [room_form, Letter_height]
    rfl
  have hroom' : p'.room Letter = p.room Letter - 28 := by
    simp only [p', room_down]
    ring
  have hlay : lay Letter (pen Letter firstPage (form T spec)) (attestation T spec) =
      ⟨p.page, p.y - 6, .rule MARGIN (PAGE_W - MARGIN - MARGIN) 0 (3 / 4)⟩ ::
        lay Letter p' (paragraph T spec.attestation 10 14) := by
    unfold attestation
    rw [lay_append, lay_append]
    exact List.append_nil _
  have hpages : (renderStarter T spec).pages =
      (((pen Letter p' (paragraph T spec.attestation 10 14)).down 18).reserve Letter (sigH + 60)).page := by
    unfold renderStarter starter
    rw [pen_append, pen_append, page_signatureBlock]
    unfold attestation
    rw [pen_append, pen_append]
    rfl
  have hsig : sigH + 60 = 106 := by norm_num [sigH]
  rw [hlay, hpages, hsig, ← hroom, List.forall_mem_cons]
  unfold paragraph
  constructor
  · rintro ⟨hrule, -⟩
    have hup : p.page ≤ (pen Letter p' ((paragraphLines T spec.attestation 10).flatMap
        fun line => [.reserve 14, text line 10, .down 14])).page := page_le_pen (p := p')
    have hlast := page_le_reserve (S := Letter) (p := (pen Letter p' ((paragraphLines T spec.attestation 10).flatMap
        fun line => [.reserve 14, text line 10, .down 14])).down 18) 106
    have hwords := le_antisymm (hlast.trans_eq hrule.symm) hup
    have hspace := page_reserve_iff.mp (hrule.symm.trans hwords.symm)
    rw [room_down, room_of_page_eq hwords, hroom'] at hspace
    linarith
  · intro h
    have hwords := page_of_room (p := p') (paragraphLines T spec.attestation 10) 10 (by norm_num : (0 : ℚ) ≤ 14)
      (by rw [hroom']; linarith)
    have hspace : 106 ≤ ((pen Letter p' ((paragraphLines T spec.attestation 10).flatMap
        fun line => [.reserve 14, text line 10, .down 14])).down 18).room Letter := by
      rw [room_down, room_of_page_eq hwords.1, hroom']
      linarith
    have hlast := (page_reserve_iff.mpr hspace).trans hwords.1
    exact ⟨hlast.symm, fun q hq => (hwords.2 q hq).trans hlast.symm⟩

/-- Every word takes a line of its own. -/
def wideLetters : Typography where
  widthOfTextAtSize text _ := 600 * text.length
  toUpperCase text := text

/-- Twelve lines that leave just what is asked for. -/
def twelveLines : StarterSpec where
  key := js "twelve"
  name := js "Twelve lines"
  category := .crossIndustry
  summary := js "Twelve"
  intro := js "Fill in"
  blocks := [{ lines := List.replicate 12 { label := js "Line", field := some .text } }, {}, {}, {}, {}]
  attestation := []

/-- With exactly 150 points left and nothing to attest, the signature still goes on to a page of its own. -/
example : attestationRoom wideLetters twelveLines = 150 ∧ paragraphLines wideLetters twelveLines.attestation 10 = [] ∧
    ((lay Letter (pen Letter firstPage (form wideLetters twelveLines)) (attestation wideLetters twelveLines)).map
      Placed.page, (renderStarter wideLetters twelveLines).pages) = ([1], 2) := by
  decide +kernel

end Attestation

/-! ## How many pages -/

section Pages

theorem length_toPdfSafeChar_le (ch : Nat × JsString) : (toPdfSafeChar ch).length ≤ max 3 ch.2.length := by
  unfold toPdfSafeChar
  split
  · exact le_max_right _ _
  · refine le_max_of_le_left ?_
    split
    · rename_i text htext
      exact (plain_of_transliterated htext).2
    · split <;> decide

/-- One ellipsis becomes three points, and nothing grows more. -/
theorem length_toPdfSafeText_le (value : JsString) : (toPdfSafeText value).length ≤ 3 * value.length := by
  unfold toPdfSafeText
  fun_induction codePoints value with
  | case1 => exact le_rfl
  | case2 u =>
      rw [List.flatMap_singleton]
      exact length_toPdfSafeChar_le _
  | case3 u v rest hpair ih =>
      have hchar : (toPdfSafeChar ((u.toNat - 0xD800) * 0x400 + (v.toNat - 0xDC00) + 0x10000, [u, v])).length ≤ 3 :=
        length_toPdfSafeChar_le _
      rw [List.flatMap_cons, List.length_append, List.length_cons, List.length_cons]
      omega
  | case4 u v rest hpair ih =>
      have hchar : (toPdfSafeChar (u.toNat, [u])).length ≤ 3 := length_toPdfSafeChar_le _
      rw [List.flatMap_cons, List.length_append, List.length_cons]
      omega

variable (T : Typography)

/-- A paragraph asks for room once for each of its lines. -/
theorem reserves_paragraph_le (value : JsString) (size lead : ℚ) :
    reserves (paragraph T value size lead) ≤ 3 * value.length + 2 := by
  have hlines : ∀ lines : List JsString,
      reserves (lines.flatMap fun line => [.reserve lead, text line size, .down lead]) = lines.length := by
    intro lines
    induction lines with
    | nil => rfl
    | cons line rest ih =>
        rw [List.flatMap_cons, reserves_append, ih, List.length_cons]
        exact Nat.add_comm 1 rest.length
  have hlength : (paragraphLines T value size).length ≤ (toPdfSafeText value).length + 2 :=
    WordWrap.length_wrap_split_le
  have hsafe := length_toPdfSafeText_le value
  unfold paragraph
  rw [hlines]
  omega

theorem reserves_formLine (line : Line) : reserves (formLine line) = 1 := by
  unfold formLine
  cases line.field with
  | none => rfl
  | some type => rfl

theorem reserves_lines (lines : List Line) : reserves (lines.flatMap formLine) = lines.length := by
  induction lines with
  | nil => rfl
  | cons line rest ih =>
      rw [List.flatMap_cons, reserves_append, reserves_formLine, ih, List.length_cons, Nat.add_comm]

theorem reserves_formBlock_le (block : Block) :
    reserves (formBlock T block) ≤ 3 * (block.body.getD []).length + 3 + block.lines.length := by
  have hheading : reserves (blockHeading T block.heading) ≤ 1 := by
    unfold blockHeading
    split
    · exact le_rfl
    · exact Nat.zero_le 1
  have hbody : reserves (blockBody T block.body) ≤ 3 * (block.body.getD []).length + 2 := by
    unfold blockBody
    split
    · rename_i u rest hsome
      rw [reserves_append, hsome]
      exact reserves_paragraph_le T (u :: rest) (21 / 2) 15
    · exact Nat.zero_le _
  have hdown : reserves ([.down 8] : Draw) = 0 := rfl
  unfold formBlock
  rw [reserves_append, reserves_append, reserves_append, reserves_lines, hdown]
  omega

theorem reserves_blocks_le {blocks : List Block} {n : ℕ} (h : ∀ block ∈ blocks, (block.body.getD []).length ≤ n) :
    reserves (blocks.flatMap (formBlock T)) ≤ (3 * n + 3) * blocks.length + (blocks.flatMap Block.lines).length := by
  induction blocks with
  | nil => exact le_rfl
  | cons block rest ih =>
      rw [List.forall_mem_cons] at h
      have hblock := reserves_formBlock_le T block
      have hrest := ih h.2
      have hbody := h.1
      rw [List.flatMap_cons, reserves_append, List.flatMap_cons, List.length_append, List.length_cons, Nat.mul_succ]
      omega

/-- **A starter has no more pages** than room was asked for: for each line of a text, each line of the form, each
heading, and three times besides. -/
theorem pages_renderStarter_le {spec : StarterSpec} {n : ℕ} (h : ∀ text ∈ spec.texts, text.length ≤ n) :
    (renderStarter T spec).pages ≤
      (3 * n + 3) * (spec.blocks.length + 2) + (spec.blocks.flatMap Block.lines).length + 2 := by
  unfold StarterSpec.texts at h
  rw [List.forall_mem_cons, List.forall_mem_cons, List.forall_mem_map] at h
  obtain ⟨hintro, hattestation, hbodies⟩ := h
  have hblocks := reserves_blocks_le T hbodies
  have htitle : reserves (title T spec) ≤ 3 * n + 3 := by
    have hwords := reserves_paragraph_le T spec.intro (21 / 2) 15
    unfold title
    rw [reserves_append, reserves_append]
    simp only [reserves, text, rule]
    omega
  have hattest : reserves (attestation T spec) ≤ 3 * n + 3 := by
    have hwords := reserves_paragraph_le T spec.attestation 10 14
    unfold attestation
    rw [reserves_append, reserves_append]
    simp only [reserves, rule]
    omega
  have hsign : reserves signatureBlock = 1 := rfl
  have hpages : (renderStarter T spec).pages ≤ 1 + reserves (starter T spec) := page_pen_le
  unfold starter form at hpages
  rw [reserves_append, reserves_append, reserves_append, hsign] at hpages
  rw [Nat.mul_add]
  omega

end Pages

end ESignSoft.Templates
