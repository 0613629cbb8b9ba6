import Mathlib.Data.Rat.Cast.Order
import ESignSoft.Contracts.Fields
import ESignSoft.Lib.Pagination
import ESignSoft.Lib.WordWrap
import ESignSoft.Signing.StampPdf

/-!
# Starter templates

A starter is a specification, not a stored file.  `renderStarter` draws it from the top of the page down and
places its fields in the same pass.  The pen goes down by whole points, so that its heights are exact; the
width of a text in the font is the PDF library's, and so is what upper case makes of a letter.  Colours are
left out: nothing depends on them.

* `paragraph_wrapped` — a paragraph prints every word of its text, in order, and breaks its lines only where it
  must.
-/

namespace ESignSoft.Templates

open ESignSoft.Lib ESignSoft.Lib.JsText ESignSoft.Lib.Pagination ESignSoft.Lib.WordWrap
open ESignSoft.Contracts ESignSoft.Signing

/-! ## Specifications -/

inductive StarterCategory
  | crossIndustry
  | education
  | financialServices
  | humanResources
  | realEstate
  deriving DecidableEq, Repr

/-- A line on the form; without a field it is only printed. -/
structure Line where
  label : JsString
  field : Option FieldType := none
  /-- A fraction of the content width. -/
  width : Option ℚ := none
  required : Option Bool := none

structure Block where
  heading : Option JsString := none
  body : Option JsString := none
  lines : List Line := []

structure StarterSpec where
  key : JsString
  name : JsString
  category : StarterCategory
  summary : JsString
  intro : JsString
  blocks : List Block
  attestation : JsString

/-- The texts that are broken into lines. -/
def StarterSpec.texts (spec : StarterSpec) : List JsString :=
  spec.intro :: spec.attestation :: spec.blocks.map fun block => block.body.getD []

/-! ## The page -/

def PAGE_W : ℚ := 612
def PAGE_H : ℚ := 792
def MARGIN : ℚ := 54
def CONTENT_W : ℚ := PAGE_W - MARGIN * 2

def Letter : Sheet ℚ := ⟨PAGE_H - MARGIN, MARGIN⟩

/-- What comes with the runtime and the PDF library. -/
structure Typography where
  /-- `body.widthOfTextAtSize`. -/
  widthOfTextAtSize : JsString → ℚ → ℚ
  toUpperCase : JsString → JsString

/-- A box to be filled in, `below` points of which lie under the pen. -/
structure FieldBox where
  type : FieldType
  x : ℚ
  w : ℚ
  h : ℚ
  below : ℚ
  required : Bool

/-- What is drawn on a page, or placed over it. -/
inductive Mark
  | text (value : JsString) (size : ℚ) (bold : Bool) (x : ℚ)
  /-- A line `below` the pen. -/
  | rule (x length below thickness : ℚ)
  | field (box : FieldBox)

/-- How far under the pen a mark reaches: a line is as thick above its middle as below; of a text it is the
letters that stand on the line. -/
def Mark.depth : Mark → ℚ
  | .text _ _ _ _ => 0
  | .rule _ _ below thickness => below + thickness / 2
  | .field box => box.below

@[simp] theorem Mark.depth_text (value : JsString) (size : ℚ) (bold : Bool) (x : ℚ) :
    (Mark.text value size bold x).depth = 0 := rfl

@[simp] theorem Mark.depth_rule (x length below thickness : ℚ) :
    (Mark.rule x length below thickness).depth = below + thickness / 2 := rfl

@[simp] theorem Mark.depth_field (box : FieldBox) : (Mark.field box).depth = box.below := rfl

abbrev Draw := List (Cmd ℚ Mark)

def text (value : JsString) (size : ℚ) (bold : Bool := false) (x : ℚ := MARGIN) : Cmd ℚ Mark :=
  .put (.text (toPdfSafeText value) size bold x)

def rule (length below thickness : ℚ) (x : ℚ := MARGIN) : Cmd ℚ Mark := .put (.rule x length below thickness)

/-! ## Drawing -/

section Draw

variable (T : Typography)

/-- The lines of a paragraph. -/
def paragraphLines (value : JsString) (size : ℚ) : List JsString :=
  wrap (fun candidate => T.widthOfTextAtSize candidate size ≤ CONTENT_W) 0x20 []
    (split isWhiteSpace (toPdfSafeText value))

def paragraph (value : JsString) (size lead : ℚ) : Draw :=
  (paragraphLines T value size).flatMap fun line => [.reserve lead, text line size, .down lead]

def title (spec : StarterSpec) : Draw :=
  [.reserve 60, text spec.name 20 true, .down 26, rule (PAGE_W - MARGIN - MARGIN) 0 2, .down 20] ++
  paragraph T spec.intro (21 / 2) 15 ++
  [.down 10]

/-- The box above a line's rule: a square for a tick, else as wide as the line. -/
def Line.box (line : Line) (type : FieldType) : FieldBox where
  type := type
  x := MARGIN
  w := if type = .checkbox then 14 else line.width.getD 1 * CONTENT_W
  h := if type = .checkbox then 14 else 18
  below := 2
  required := line.required.getD (type != .checkbox)

def formLine (line : Line) : Draw :=
  [.reserve 34, text line.label 9, .down 14, rule (line.width.getD 1 * CONTENT_W) 2 (3 / 4)] ++
  (match line.field with
    | some type => [.put (.field (line.box type))]
    | none => []) ++
  [.down 20]

def blockHeading (heading : Option JsString) : Draw :=
  match heading with
  | some (u :: rest) => [.reserve 34, text (T.toUpperCase (u :: rest)) (19 / 2) true, .down 16]
  | _ => []

def blockBody (body : Option JsString) : Draw :=
  match body with
  | some (u :: rest) => paragraph T (u :: rest) (21 / 2) 15 ++ [.down 6]
  | _ => []

def formBlock (block : Block) : Draw :=
  blockHeading T block.heading ++ blockBody T block.body ++ block.lines.flatMap formLine ++ [.down 8]

def attestation (spec : StarterSpec) : Draw :=
  [.reserve 150, .down 6, rule (PAGE_W - MARGIN - MARGIN) 0 (3 / 4), .down 22] ++
  paragraph T spec.attestation 10 14 ++
  [.down 18]

def sigW : ℚ := 200
def sigH : ℚ := 46
def halfW : ℚ := 200
def rightX : ℚ := MARGIN + 260

def signatureBox : FieldBox := ⟨.signature, MARGIN, sigW, sigH, 0, true⟩

/-- The boxes side by side under the signature. -/
def halfBox (type : FieldType) (x : ℚ) : FieldBox := ⟨type, x, halfW, 18, 0, true⟩

def signatureBlock : Draw :=
  [.reserve (sigH + 60), text (js "Signature") 9, .down (sigH + 4), .put (.field signatureBox),
   rule sigW 2 (3 / 4), .down 18,
   text (js "Name") 9, text (js "Date signed") 9 false rightX, .down 20,
   .put (.field (halfBox .name MARGIN)), rule halfW 2 (3 / 4),
   .put (.field (halfBox .date rightX)), rule halfW 2 (3 / 4) rightX]

/-- Everything above the signature block. -/
def form (spec : StarterSpec) : Draw :=
  title T spec ++ spec.blocks.flatMap (formBlock T)

def starter (spec : StarterSpec) : Draw :=
  form T spec ++ attestation T spec ++ signatureBlock

end Draw

/-! ## The result -/

/-- Where a placed field ends up, in fractions of the page with a top-left origin. -/
structure PlacedField where
  type : FieldType
  page : ℕ
  x : ℚ
  y : ℚ
  w : ℚ
  h : ℚ
  required : Bool
  deriving DecidableEq

/-- The boxes among what is drawn. -/
def boxes (marks : List (Placed ℚ Mark)) : List (Placed ℚ FieldBox) :=
  marks.filterMap fun q =>
    match q.item with
    | .field box => some ⟨q.page, q.y, box⟩
    | _ => none

def placeField (b : Placed ℚ FieldBox) : PlacedField where
  type := b.item.type
  page := b.page
  x := b.item.x / PAGE_W
  y := (PAGE_H - (b.y + b.item.h - b.item.below)) / PAGE_H
  w := b.item.w / PAGE_W
  h := b.item.h / PAGE_H
  required := b.item.required

/-- The first page, which is number 1. -/
def firstPage : Pen ℚ := ⟨1, PAGE_H - MARGIN⟩

structure Rendered where
  /-- How many pages the document has. -/
  pages : ℕ
  marks : List (Placed ℚ Mark)
  fields : List PlacedField

def renderStarter (T : Typography) (spec : StarterSpec) : Rendered where
  pages := (pen Letter firstPage (starter T spec)).page
  marks := lay Letter firstPage (starter T spec)
  fields := (boxes (lay Letter firstPage (starter T spec))).map placeField

/-! ## Paragraphs -/

/-- A character the font has, which is printed as it is. -/
def inFont (u : UInt16) : Prop := (0x20 ≤ u.toNat ∧ u.toNat ≤ 0x7E) ∨ (0xA0 ≤ u.toNat ∧ u.toNat ≤ 0xFF)

theorem toPdfSafeText_of_inFont {s : JsString} (h : ∀ u ∈ s, inFont u) : toPdfSafeText s = s := by
  unfold toPdfSafeText
  fun_induction codePoints s with
  | case1 => rfl
  | case2 u =>
      have hu : toPdfSafeChar (u.toNat, [u]) = [u] := if_pos (h u List.mem_cons_self)
      rw [List.flatMap_singleton, hu]
  | case3 u v rest hpair ih =>
      -- No half of a pair is in the font.
      have hu := h u List.mem_cons_self
      simp only [Bool.and_eq_true, isHighSurrogate, decide_eq_true_eq, UInt16.le_iff_toNat_le] at hpair
      have hlow : (0xD800 : UInt16).toNat = 0xD800 := rfl
      unfold inFont at hu
      omega
  | case4 u v rest hpair ih =>
      have hu : toPdfSafeChar (u.toNat, [u]) = [u] := if_pos (h u List.mem_cons_self)
      rw [List.flatMap_cons, hu, ih (List.forall_mem_cons.mp h).2]
      rfl

theorem inFont_of_ascii {text : JsString} (h : text.all isPrintableAscii = true) : ∀ u ∈ text, inFont u :=
  fun u hu => Or.inl (isPrintableAscii_iff.mp (List.all_eq_true.mp h u hu))

/-- Every character is printed in the font. -/
theorem inFont_toPdfSafeText (value : JsString) : ∀ u ∈ toPdfSafeText value, inFont u := by
  have hchar : ∀ ch, (ch.2 = [] ∨ (∃ u, ch = (u.toNat, [u])) ∨ 0x10000 ≤ ch.1) → ∀ u ∈ toPdfSafeChar ch, inFont u := by
    rintro ⟨code, spelled⟩ hspelled u hu
    unfold toPdfSafeChar at hu
    dsimp only at hu hspelled
    split at hu
    · rename_i hpass
      rcases hspelled with rfl | ⟨w, hw⟩ | hhigh
      · cases hu
      · obtain ⟨rfl, rfl⟩ := Prod.mk.inj hw
        rw [List.mem_singleton.mp hu]
        exact hpass
      · omega
    · split at hu
      · rename_i text htext
        exact inFont_of_ascii (plain_of_transliterated htext).1 u hu
      · split at hu
        · exact inFont_of_ascii (by decide) u hu
        · exact inFont_of_ascii (by decide) u hu
  unfold toPdfSafeText
  intro u hu
  obtain ⟨ch, hch, hmem⟩ := List.mem_flatMap.mp hu
  refine hchar ch ?_ u hmem
  clear hu hmem
  fun_induction codePoints value with
  | case1 => cases hch
  | case2 v =>
      rw [List.mem_singleton.mp hch]
      exact Or.inr (Or.inl ⟨v, rfl⟩)
  | case3 v w rest hpair ih =>
      rcases List.mem_cons.mp hch with rfl | hch
      · exact Or.inr (Or.inr (by dsimp only; omega))
      · exact ih hch
  | case4 v w rest hpair ih =>
      rcases List.mem_cons.mp hch with rfl | hch
      · exact Or.inr (Or.inl ⟨v, rfl⟩)
      · exact ih hch

theorem isWhiteSpace_space : isWhiteSpace 0x20 = true := by decide

theorem inFont_paragraphLines (T : Typography) (value : JsString) (size : ℚ) :
    ∀ line ∈ paragraphLines T value size, ∀ u ∈ line, inFont u :=
  forall_mem_wrap (Or.inl (by decide)) (fun _ hu => absurd hu List.not_mem_nil)
    (forall_mem_split (inFont_toPdfSafeText value))

/-- The texts a paragraph draws. -/
def drawn (cmds : Draw) : List JsString :=
  (items cmds).filterMap fun mark =>
    match mark with
    | .text value _ _ _ => some value
    | _ => none

/-- A paragraph draws its lines. -/
theorem drawn_paragraph (T : Typography) (value : JsString) (size lead : ℚ) :
    drawn (paragraph T value size lead) = paragraphLines T value size := by
  have hsplit : ∀ cmds cmds' : Draw, drawn (cmds ++ cmds') = drawn cmds ++ drawn cmds' := by
    intro cmds cmds'
    unfold drawn
    rw [items_append, List.filterMap_append]
  have hall : ∀ lines : List JsString, (∀ line ∈ lines, ∀ u ∈ line, inFont u) →
      drawn (lines.flatMap fun line => [.reserve lead, text line size, .down lead]) = lines := by
    intro lines hfont
    induction lines with
    | nil => rfl
    | cons line rest ih =>
        rw [List.forall_mem_cons] at hfont
        have hline : drawn [.reserve lead, text line size, .down lead] = [line] :=
          congrArg (fun text => [text]) (toPdfSafeText_of_inFont hfont.1)
        rw [List.flatMap_cons, hsplit, hline, ih hfont.2]
        rfl
  exact hall _ (inFont_paragraphLines T value size)

/-- **A paragraph prints every word of its text**, once and in order, on lines that fit the page or hold one
word; and no line is broken before a word that would still have fitted on it. -/
theorem paragraph_wrapped (T : Typography) (value : JsString) (size lead : ℚ) :
    (drawn (paragraph T value size lead)).flatMap (words isWhiteSpace) = words isWhiteSpace (toPdfSafeText value) ∧
    (∀ line ∈ drawn (paragraph T value size lead),
      T.widthOfTextAtSize line size ≤ CONTENT_W ∨ ∀ u ∈ line, isWhiteSpace u = false) ∧
    (drawn (paragraph T value size lead)).IsChain fun line next => ∃ word, word <+: next ∧
      word ∈ split isWhiteSpace (toPdfSafeText value) ∧
      CONTENT_W < T.widthOfTextAtSize (line ++ 0x20 :: word) size := by
  rw [drawn_paragraph]
  refine ⟨words_wrap_split isWhiteSpace_space, fun line hline => ?_, ?_⟩
  · have hstands : Stands isWhiteSpace (fun candidate => T.widthOfTextAtSize candidate size ≤ CONTENT_W) [] :=
      Or.inr fun u hu => absurd hu List.not_mem_nil
    rcases stands_of_mem_wrap hstands not_blank_of_mem_split line hline with hfits | hword
    · exact Or.inl (of_decide_eq_true hfits)
    · exact Or.inr hword
  · refine List.IsChain.imp ?_ isChain_wrap
    rintro line next ⟨word, hprefix, hmem, hfull⟩
    exact ⟨word, hprefix, hmem, not_le.mp (of_decide_eq_false hfull)⟩

end ESignSoft.Templates
