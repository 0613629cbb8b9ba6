import Mathlib.Data.List.Chain
import Mathlib.Tactic.NormNum
import ESignSoft.Sealing.Certificate

/-!
# The certificate on its pages

Every block of the certificate asks for the room it takes, so that nothing is drawn below the margin, and a
heading asks for its first row too.  The last heading is the exception: what stands under it is no row but
the fingerprint and the seal, which ask for 67 points where the heading has left 32 of its 64.

* `block_certificate` — every block fits wherever it starts, one line below or beside the other;
* `headingsKept_certificate_iff` — all headings but the last are always kept;
* `certificate_layout_iff` — the layout, and when the last heading stays with the block under it.
-/

namespace ESignSoft.Sealing.Certificate

open ESignSoft.Lib.JsText ESignSoft.Lib.Pagination

/-! ## Every block fits -/

/-- Two texts on one line: the label and, further right, its value. -/
def Beside (a b : Line) : Prop := a.opts.x < b.opts.x

theorem beside_trans (a b c : Line) (hab : Beside a b) (hbc : Beside b c) : Beside a c := lt_trans hab hbc

theorem beside_value (label value : JsString) (size size' : ℚ) :
    Beside (line label { size := size }) (line value { size := size', x := MARGIN + 150 }) :=
  lt_add_of_pos_right MARGIN (by norm_num)

theorem A4_height : A4.top - A4.bottom = 72989 / 100 := by
  norm_num [A4, PAGE_H, MARGIN]

section Blocks

variable {pieces : List JsString} {b : ℚ}

theorem block_row (label value : JsString) (b : ℚ) : Block A4 Beside b (row label value) where
  fits := fits_reserve (by norm_num [A4_height]) ⟨by norm_num, by norm_num, trivial⟩
  spaced := ⟨nofun, by rintro _ ⟨⟩; exact beside_value label value 9 10, by norm_num, trivial⟩
  ends := rfl

theorem block_section (title : JsString) (b : ℚ) : Block A4 Beside b (section_ title) where
  fits := fits_reserve (by norm_num [A4_height]) ⟨by norm_num, trivial⟩
  spaced := ⟨by norm_num, nofun, by norm_num, by norm_num, trivial⟩
  ends := rfl

/-- The first page has the room for the header. -/
theorem block_header (requestId : JsString) : Block A4 Beside (A4.top - A4.bottom) (header requestId) where
  fits := by
    rw [A4_height]
    exact ⟨by norm_num, by norm_num, by norm_num, trivial⟩
  spaced := ⟨nofun, by norm_num, nofun, by norm_num, nofun, by norm_num, trivial⟩
  ends := rfl

theorem fits_agentLines (h : 11 * (pieces.length : ℚ) ≤ b + 11) : Fits A4 b (agentLines pieces) := by
  fun_induction agentLines pieces generalizing b with
  | case1 => trivial
  | case2 agent => exact ⟨by norm_num at h; exact h, trivial⟩
  | case3 agent next rest ih =>
      simp only [List.length_cons, Nat.cast_add, Nat.cast_one] at h ih
      have hpos : (0 : ℚ) ≤ rest.length := Nat.cast_nonneg _
      exact ⟨by linarith, ih (by linarith)⟩

theorem spaced_agentLines {last : Option Line}
    (h : ∀ a ∈ last, ∀ agent, Beside a (line agent { size := 8, x := MARGIN + 150 })) :
    Spaced Beside last (agentLines pieces) := by
  fun_induction agentLines pieces generalizing last with
  | case1 => trivial
  | case2 agent => exact ⟨fun a ha => h a ha agent, trivial⟩
  | case3 agent next rest ih =>
      exact ⟨fun a ha => h a ha agent, by norm_num, ih fun a ha => absurd ha (Option.not_mem_none a)⟩

theorem block_browser (h : 11 * (pieces.length : ℚ) + 9 ≤ A4.top - A4.bottom) (b : ℚ) :
    Block A4 Beside b (browser pieces) where
  fits := by
    have hpos : (0 : ℚ) ≤ pieces.length := Nat.cast_nonneg _
    have hlines : Fits A4 (11 * (pieces.length : ℚ) + 9) (agentLines pieces) := fits_agentLines (by linarith)
    exact fits_reserve h ⟨by linarith, fits_append.mpr ⟨hlines, trivial⟩⟩
  spaced := by
    have hlines : Spaced Beside (some (line (js "Browser") { size := 9 })) (agentLines pieces) :=
      spaced_agentLines (by rintro _ ⟨⟩ agent; exact beside_value (js "Browser") agent 9 8)
    exact ⟨nofun, spaced_append.mpr ⟨hlines, by norm_num, trivial⟩⟩
  ends := lastItem_append

theorem fits_blob (h : 11 * (pieces.length : ℚ) ≤ b) : Fits A4 b (blob pieces) := by
  induction pieces generalizing b with
  | nil => trivial
  | cons piece rest ih =>
      simp only [List.length_cons, Nat.cast_add, Nat.cast_one] at h
      have hpos : (0 : ℚ) ≤ rest.length := Nat.cast_nonneg _
      exact ⟨by linarith, ih (by linarith)⟩

theorem roomAfter_blob : roomAfter b (blob pieces) = b - 11 * pieces.length := by
  induction pieces generalizing b with
  | nil => exact (by simp : b = b - 11 * ((0 : ℕ) : ℚ))
  | cons piece rest ih =>
      refine (ih (b := b - 11)).trans ?_
      simp only [List.length_cons, Nat.cast_add, Nat.cast_one]
      ring

theorem spaced_blob : Spaced Beside none (blob pieces) := by
  induction pieces with
  | nil => trivial
  | cons piece rest ih => exact ⟨nofun, by norm_num, ih⟩

theorem lastItem_blob : lastItem none (blob pieces) = none := by
  induction pieces with
  | nil => rfl
  | cons piece rest ih => exact ih

variable {hashLines sealLines : List JsString} {sealKid : JsString}

/-- What the fingerprint and the seal ask for covers both. -/
theorem fits_evidence (h : 14 + (hashLines.length : ℚ) * 11 + 20 + sealLines.length * 11 ≤ A4.top - A4.bottom) :
    Fits A4 b (evidence hashLines sealLines sealKid) := by
  have hhash : (0 : ℚ) ≤ hashLines.length := Nat.cast_nonneg _
  have hseal : (0 : ℚ) ≤ sealLines.length := Nat.cast_nonneg _
  refine fits_reserve h ⟨by linarith, fits_append.mpr ⟨fits_blob (by linarith), ?_⟩⟩
  -- Below the fingerprint 20 + 11 points a seal line are left, and the pen goes down by 6 and by 14.
  rw [roomAfter_blob]
  exact ⟨by linarith, fits_blob (by linarith)⟩

theorem block_evidence (h : 14 + (hashLines.length : ℚ) * 11 + 20 + sealLines.length * 11 ≤ A4.top - A4.bottom)
    (b : ℚ) :
    Block A4 Beside b (evidence hashLines sealLines sealKid) where
  fits := fits_evidence h
  spaced := by
    refine ⟨nofun, by norm_num, spaced_append.mpr ⟨spaced_blob, ?_⟩⟩
    rw [lastItem_blob]
    exact ⟨by norm_num, nofun, by norm_num, spaced_blob⟩
  ends := lastItem_append.trans lastItem_blob

theorem block_sentences (sentences : List JsString) (b : ℚ) : Block A4 Beside b
    (sentences.flatMap fun sentence => [.reserve 11, text sentence { size := 8 }, .down 11]) := by
  induction sentences generalizing b with
  | nil => exact ⟨trivial, trivial, rfl⟩
  | cons sentence rest ih =>
      exact ⟨fits_reserve (by norm_num [A4_height]) ⟨by norm_num, (ih _).fits⟩,
        ⟨nofun, by norm_num, (ih b).spaced⟩, (ih b).ends⟩

theorem block_closing (b : ℚ) : Block A4 Beside b closing where
  fits := (block_sentences explanation _).fits
  spaced := ⟨by norm_num, (block_sentences explanation b).spaced⟩
  ends := (block_sentences explanation b).ends

theorem block_documentSection (input : CertificateInput) (b : ℚ) :
    Block A4 Beside b (documentSection input) := by
  unfold documentSection
  exact (block_section _ b).append (block_row _ _) |>.append (block_row _ _) |>.append (block_row _ _)
    |>.append (block_row _ _) |>.append (block_row _ _)

variable {signer : CertificateSigner} {signers : List CertificateSigner}

theorem block_signerSection (total i : Nat) (h : 11 * (signer.agent.length : ℚ) + 9 ≤ A4.top - A4.bottom) (b : ℚ) :
    Block A4 Beside b (signerSection total i signer) := by
  unfold signerSection
  exact (block_section _ b).append (block_row _ _) |>.append (block_row _ _) |>.append (block_row _ _)
    |>.append (block_row _ _) |>.append (block_browser h) |>.append (block_row _ _) |>.append (block_row _ _)
    |>.append (block_row _ _) |>.append (block_row _ _)

theorem block_signerSections (total i : Nat)
    (h : ∀ signer ∈ signers, 11 * (signer.agent.length : ℚ) + 9 ≤ A4.top - A4.bottom) (b : ℚ) :
    Block A4 Beside b (signerSections total i signers) := by
  induction signers generalizing i b with
  | nil => exact ⟨trivial, trivial, rfl⟩
  | cons signer rest ih =>
      have hsigner := block_signerSection total i (h signer (List.mem_cons_self ..)) b
      exact hsigner.append (ih (i + 1) fun s hs => h s (List.mem_cons_of_mem _ hs))

end Blocks

/-! ## How many lines -/

theorem CertificateSigner.agent_ne_nil (signer : CertificateSigner) : signer.agent ≠ [] := by
  refine List.length_pos_iff.mp ?_
  unfold CertificateSigner.agent
  rw [length_chunk]
  exact lt_max_of_lt_left one_pos

/-- A user agent is cut off at 512 characters and takes nine lines at most. -/
theorem CertificateSigner.length_agent_le {signer : CertificateSigner}
    (h : ∀ userAgent ∈ signer.userAgent, userAgent.length ≤ 512) : signer.agent.length ≤ 9 := by
  unfold CertificateSigner.agent
  rw [length_chunk]
  cases hua : signer.userAgent with
  | none => decide
  | some userAgent =>
      have hlength := h userAgent hua
      simp only [Option.getD_some]
      omega

/-- What a certificate is made of: user agents of at most 512 characters, the hash and the seal in full. -/
structure CertificateInput.WellSized (input : CertificateInput) : Prop where
  userAgents : ∀ signer ∈ input.signers, ∀ userAgent ∈ signer.userAgent, userAgent.length ≤ 512
  hash : input.documentHash.length = 64
  sealed : input.sealSignature.length = 88

theorem CertificateInput.WellSized.length_hashLines {input : CertificateInput} (h : input.WellSized) :
    input.hashLines.length = 1 := by
  unfold CertificateInput.hashLines
  rw [length_chunk, h.hash]
  rfl

theorem CertificateInput.WellSized.length_sealLines {input : CertificateInput} (h : input.WellSized) :
    input.sealLines.length = 2 := by
  unfold CertificateInput.sealLines
  rw [length_chunk, h.sealed]
  rfl

/-- The room asked for before the fingerprint and the seal. -/
theorem CertificateInput.WellSized.evidence_room {input : CertificateInput} (h : input.WellSized) :
    14 + (input.hashLines.length : ℚ) * 11 + 20 + input.sealLines.length * 11 = 67 := by
  rw [h.length_hashLines, h.length_sealLines]
  norm_num

theorem block_certificate {input : CertificateInput} (h : input.WellSized) :
    Block A4 Beside (A4.top - A4.bottom) (certificate input) := by
  have hagents : ∀ signer ∈ input.signers, 11 * (signer.agent.length : ℚ) + 9 ≤ A4.top - A4.bottom := by
    intro signer hsigner
    have hle : (signer.agent.length : ℚ) ≤ 9 :=
      Nat.cast_le.mpr (CertificateSigner.length_agent_le (h.userAgents signer hsigner))
    rw [A4_height]
    linarith
  have hevidence : 14 + (input.hashLines.length : ℚ) * 11 + 20 + input.sealLines.length * 11 ≤ A4.top - A4.bottom := by
    rw [h.evidence_room, A4_height]
    norm_num
  have hrecord := (block_header input.requestId).append (block_documentSection input) |>.append
    (block_signerSections input.signers.length 0 hagents)
  exact hrecord.append (block_section _) |>.append (block_evidence hevidence) |>.append block_closing

/-! ## One page for the evidence -/

section Evidence

variable {hashLines sealLines : List JsString} {sealKid : JsString}

theorem unbroken_blob {pieces : List JsString} {rest : Draw} (h : ∀ b, Unbroken b rest) (b : ℚ) :
    Unbroken b (blob pieces ++ rest) := by
  induction pieces generalizing b with
  | nil => exact h b
  | cons piece others ih => exact ih (b - 11)

/-- **The fingerprint and the seal** are drawn on one page: the one their first line is on. -/
theorem page_of_mem_evidence (p : Pen ℚ) : ∀ q ∈ lay A4 p (evidence hashLines sealLines sealKid),
    q.page = (p.reserve A4 (14 + hashLines.length * 11 + 20 + sealLines.length * 11)).page := by
  have hseal : ∀ b, Unbroken b (blob sealLines ++ []) := unbroken_blob fun _ => trivial
  rw [List.append_nil] at hseal
  have hblobs : ∀ b, Unbroken b (blob hashLines ++ .down 6 ::
      text (js "Server seal (Ed25519, key " ++ sealKid ++ js ")") { size := 9 } :: .down 14 :: blob sealLines) :=
    unbroken_blob fun b => hseal (b - 6 - 14)
  have hbody : ∀ b, Unbroken b (text (js "SHA-256 of the signed document") { size := 9 } :: .down 14 ::
      (blob hashLines ++ .down 6 :: text (js "Server seal (Ed25519, key " ++ sealKid ++ js ")") { size := 9 } ::
      .down 14 :: blob sealLines)) := fun b => hblobs (b - 14)
  exact page_of_unbroken (p := p.reserve A4 _) (hbody _) le_rfl

end Evidence

/-! ## Headings and the lines under them -/

/-- Nothing but headings is drawn at this size. -/
def IsHeading (q : Placed ℚ Line) : Prop := q.item.opts.size = 11

/-- Each heading has a line after it, and on its own page. -/
structure HeadingsKept (placed : List (Placed ℚ Line)) : Prop where
  next : placed.IsChain fun a b => IsHeading a → a.page = b.page
  last : ∀ q ∈ placed.getLast?, ¬ IsHeading q

theorem HeadingsKept.append {l l' : List (Placed ℚ Line)} (h : HeadingsKept l) (h' : HeadingsKept l') :
    HeadingsKept (l ++ l') where
  next := List.isChain_append.mpr ⟨h.next, h'.next, fun q hq _ _ hheading => absurd hheading (h.last q hq)⟩
  last := by
    intro q hq
    rw [List.getLast?_append] at hq
    rcases Option.or_eq_some_iff.mp hq with hright | ⟨_, hleft⟩
    · exact h'.last q hright
    · exact h.last q hleft

/-- After lines whose headings are kept, those of the rest decide. -/
theorem headingsKept_append_iff {l l' : List (Placed ℚ Line)} (h : HeadingsKept l) :
    HeadingsKept (l ++ l') ↔ HeadingsKept l' := by
  refine ⟨fun hall => ⟨(List.isChain_append.mp hall.next).2.1, fun q hq => ?_⟩, h.append⟩
  refine hall.last q ?_
  rw [List.getLast?_append]
  exact Option.or_eq_some_iff.mpr (Or.inl hq)

theorem headingsKept_of_plain {l : List (Placed ℚ Line)} (h : ∀ q ∈ l, ¬ IsHeading q) : HeadingsKept l where
  next := (List.pairwise_of_forall_mem_list fun a ha _ _ hheading => absurd hheading (h a ha)).isChain
  last q hq := h q (List.mem_of_mem_getLast? hq)

theorem headingsKept_pair {a b : Placed ℚ Line} {l : List (Placed ℚ Line)} (ha : IsHeading a)
    (h : ∀ q ∈ b :: l, ¬ IsHeading q) : HeadingsKept (a :: b :: l) ↔ a.page = b.page := by
  have hrest := headingsKept_of_plain h
  constructor
  · intro hkept
    exact (List.isChain_cons_cons.mp hkept.next).1 ha
  · intro hpage
    refine ⟨List.isChain_cons_cons.mpr ⟨fun _ => hpage, hrest.next⟩, fun q hq => hrest.last q ?_⟩
    rwa [List.getLast?_cons_cons] at hq

/-- Commands that keep their headings wherever they start. -/
def Keeps (cmds : Draw) : Prop := ∀ p, HeadingsKept (lay A4 p cmds)

theorem Keeps.append {cmds cmds' : Draw} (h : Keeps cmds) (h' : Keeps cmds') : Keeps (cmds ++ cmds') := by
  intro p
  rw [lay_append]
  exact (h p).append (h' _)

theorem not_isHeading_of_items {cmds : Draw} (h : ∀ item ∈ items cmds, item.opts.size ≠ 11) (p : Pen ℚ) :
    ∀ q ∈ lay A4 p cmds, ¬ IsHeading q := by
  intro q hq
  exact h q.item (map_item_lay (p := p) (S := A4) ▸ List.mem_map_of_mem hq)

theorem keeps_of_items {cmds : Draw} (h : ∀ item ∈ items cmds, item.opts.size ≠ 11) : Keeps cmds :=
  fun p => headingsKept_of_plain (not_isHeading_of_items h p)

theorem size_rowLines {label value : JsString} : ∀ item ∈ rowLines label value, item.opts.size ≠ 11 := by
  unfold rowLines
  simp only [List.forall_mem_cons]
  exact ⟨by norm_num [line], by norm_num [line], nofun⟩

theorem size_blobLines {pieces : List JsString} : ∀ item ∈ blobLines pieces, item.opts.size ≠ 11 := by
  unfold blobLines
  rw [List.forall_mem_map]
  exact fun _ _ => by norm_num [line]

theorem size_browserLines {ua : List JsString} : ∀ item ∈ browserLines ua, item.opts.size ≠ 11 := by
  unfold browserLines
  simp only [List.forall_mem_append, List.forall_mem_cons, List.forall_mem_map]
  exact ⟨⟨by norm_num [line], nofun⟩, fun _ _ => by norm_num [line]⟩

theorem size_evidenceLines {input : CertificateInput} : ∀ item ∈ evidenceLines input, item.opts.size ≠ 11 := by
  unfold evidenceLines
  simp only [List.forall_mem_append, List.forall_mem_cons]
  exact ⟨⟨⟨⟨by norm_num [line], nofun⟩, size_blobLines⟩, by norm_num [line], nofun⟩, size_blobLines⟩

theorem keeps_header (requestId : JsString) : Keeps (header requestId) := by
  refine keeps_of_items ?_
  simp only [header, text, items, List.forall_mem_cons]
  exact ⟨by norm_num [line], by norm_num [line], by norm_num [line], fun _ h => absurd h List.not_mem_nil⟩

theorem keeps_row (label value : JsString) : Keeps (row label value) :=
  keeps_of_items size_rowLines

theorem keeps_browser (ua : List JsString) : Keeps (browser ua) :=
  keeps_of_items (items_browser ▸ size_browserLines)

/-- **A heading and the first row** under it: 64 points are enough for both. -/
theorem keeps_section (title label value : JsString) : Keeps (section_ title ++ row label value) := by
  intro p
  -- The heading leaves 32 of its 64 points, and the row asks for 18: no page ends between them.
  have hroom : (64 : ℚ) ≤ (p.reserve A4 64).room A4 :=
    (le_max_right _ _).trans (room_reserve (by norm_num [A4_height]) le_rfl)
  have hunbroken : Unbroken (64 : ℚ) ((section_ title ++ row label value).tail) :=
    ⟨by norm_num, trivial⟩
  have hpage := page_of_unbroken hunbroken hroom
  have hheading : IsHeading ⟨(p.reserve A4 64).page, ((p.reserve A4 64).down 10).y, heading title⟩ := rfl
  have hplain : ∀ p, ∀ q ∈ lay A4 p (row label value), ¬ IsHeading q := not_isHeading_of_items size_rowLines
  refine (headingsKept_pair hheading (hplain _)).mpr ?_
  exact (hpage _ (List.mem_cons_self ..)).trans (hpage _ (List.mem_cons_of_mem _ (List.mem_cons_self ..))).symm

theorem keeps_documentSection (input : CertificateInput) : Keeps (documentSection input) := by
  unfold documentSection
  exact (keeps_section _ _ _).append (keeps_row _ _) |>.append (keeps_row _ _) |>.append (keeps_row _ _)
    |>.append (keeps_row _ _)

theorem keeps_signerSection (total i : Nat) (signer : CertificateSigner) : Keeps (signerSection total i signer) := by
  unfold signerSection
  exact (keeps_section _ _ _).append (keeps_row _ _) |>.append (keeps_row _ _) |>.append (keeps_row _ _)
    |>.append (keeps_browser _) |>.append (keeps_row _ _) |>.append (keeps_row _ _) |>.append (keeps_row _ _)
    |>.append (keeps_row _ _)

theorem keeps_signerSections (total i : Nat) (signers : List CertificateSigner) :
    Keeps (signerSections total i signers) := by
  induction signers generalizing i with
  | nil => exact keeps_of_items nofun
  | cons signer rest ih => exact (keeps_signerSection total i signer).append (ih (i + 1))

theorem keeps_record (input : CertificateInput) : Keeps (record input) :=
  (keeps_header _).append (keeps_documentSection input) |>.append (keeps_signerSections _ _ _)

/-! ## The last heading -/

/-- The room for a block that asks for so much. -/
def fit (room needed : ℚ) : ℚ := if needed ≤ room then room else 72989 / 100

/-- What four rows leave. -/
def fourRows (room : ℚ) : ℚ := fit (fit (fit (fit room 18 - 18) 18 - 18) 18 - 18) 18 - 18

/-- What a signer leaves whose user agent takes so many lines. -/
def signerRoom (room : ℚ) (agentLines : Nat) : ℚ :=
  fourRows (fit (fourRows (fit room 64 - 32)) (11 * agentLines + 9) - (11 * agentLines + 9))

/-- What is left below the last signer; the header and the document leave 527.89 to the first. -/
def CertificateInput.roomBelow (input : CertificateInput) : ℚ :=
  (input.signers.map fun signer => signer.agent.length).foldl signerRoom (52789 / 100)

section Room

variable {b : ℚ} {pieces : List JsString}

theorem roomLeft_section (title : JsString) : roomLeft A4 b (section_ title) = fit b 64 - 32 := by
  have h : roomLeft A4 b (section_ title) = fit b 64 - 10 - 6 - 16 := by
    unfold fit
    rw [← A4_height]
    rfl
  rw [h]
  ring

theorem roomLeft_row (label value : JsString) : roomLeft A4 b (row label value) = fit b 18 - 18 := by
  unfold fit
  rw [← A4_height]
  rfl

theorem roomLeft_agentLines (h : pieces ≠ []) : roomLeft A4 b (agentLines pieces) = b - (11 * pieces.length - 11) := by
  fun_induction agentLines pieces generalizing b with
  | case1 => contradiction
  | case2 agent => exact (by norm_num : b = b - (11 * ((1 : ℕ) : ℚ) - 11))
  | case3 agent next rest ih =>
      refine (ih (b := b - 11) (List.cons_ne_nil _ _)).trans ?_
      simp only [List.length_cons, Nat.cast_add, Nat.cast_one]
      ring

theorem roomLeft_browser (h : pieces ≠ []) :
    roomLeft A4 b (browser pieces) = fit b (11 * pieces.length + 9) - (11 * pieces.length + 9) := by
  have hlines : roomLeft A4 b (browser pieces) = fit b (11 * pieces.length + 9) - (11 * pieces.length - 11) - 20 := by
    unfold fit
    rw [← A4_height, ← roomLeft_agentLines h]
    exact roomLeft_append
  rw [hlines]
  ring

theorem roomLeft_signerSection (total i : Nat) (signer : CertificateSigner) :
    roomLeft A4 b (signerSection total i signer) = signerRoom b signer.agent.length := by
  unfold signerSection
  simp only [roomLeft_append, roomLeft_section, roomLeft_row, roomLeft_browser signer.agent_ne_nil]
  rfl

theorem roomLeft_signerSections (total i : Nat) (signers : List CertificateSigner) :
    roomLeft A4 b (signerSections total i signers) =
      (signers.map fun signer => signer.agent.length).foldl signerRoom b := by
  induction signers generalizing i b with
  | nil => rfl
  | cons signer rest ih =>
      rw [signerSections, roomLeft_append, roomLeft_signerSection, ih]
      rfl

theorem roomLeft_documentSection (input : CertificateInput) :
    roomLeft A4 (72989 / 100 - 80) (documentSection input) = 52789 / 100 := by
  unfold documentSection
  simp only [roomLeft_append, roomLeft_section, roomLeft_row]
  norm_num [fit]

/-- The pen reaches the evidence with the room that the signers leave. -/
theorem room_record (input : CertificateInput) : (pen A4 firstPage (record input)).room A4 = input.roomBelow := by
  have hheader : roomLeft A4 (firstPage.room A4) (header input.requestId) = 72989 / 100 - 80 := by
    have h : roomLeft A4 (firstPage.room A4) (header input.requestId) = A4.top - A4.bottom - 32 - 22 - 26 := rfl
    rw [h, A4_height]
    norm_num
  unfold record
  rw [room_pen, roomLeft_append, roomLeft_append, hheader, roomLeft_documentSection, roomLeft_signerSections]
  rfl

end Room

/-- Whether the last heading is kept: it takes 32 points, and the block under it asks for its own. -/
theorem headingsKept_evidence_iff (input : CertificateInput) (p : Pen ℚ) :
    HeadingsKept (lay A4 p (section_ (js "Tamper evidence") ++
      (evidence input.hashLines input.sealLines input.sealKid ++ closing))) ↔
      14 + (input.hashLines.length : ℚ) * 11 + 20 + input.sealLines.length * 11 ≤ fit (p.room A4) 64 - 32 := by
  let below : Pen ℚ := pen A4 p (section_ (js "Tamper evidence"))
  have hroom : below.room A4 = fit (p.room A4) 64 - 32 := room_pen.trans (roomLeft_section _)
  have hheading : IsHeading
      ⟨(p.reserve A4 64).page, ((p.reserve A4 64).down 10).y, heading (js "Tamper evidence")⟩ := rfl
  have hitems : ∀ item ∈ items (evidence input.hashLines input.sealLines input.sealKid ++ closing),
      item.opts.size ≠ 11 := by
    rw [items_append, items_evidence, items_closing, List.forall_mem_append]
    exact ⟨size_evidenceLines, size_blobLines⟩
  have hplain := not_isHeading_of_items hitems below
  -- One heading above plain lines: it is kept when the pen stays on its page before the first of them.
  refine (headingsKept_pair hheading hplain).trans ?_
  rw [← hroom, ← page_reserve_iff]
  exact eq_comm

/-! ## The layout -/

/-- What the layout always gives: nothing below the margin, every line once and in its place, and the
fingerprint and the seal on one page. -/
structure LaidOut (input : CertificateInput) (placed : List (Placed ℚ Line)) : Prop where
  above : ∀ q ∈ placed, MARGIN ≤ q.y
  lines : placed.map Placed.item = certificateLines input
  ordered : placed.Pairwise (Before Beside)
  together : ∃ before block after page, placed = before ++ block ++ after ∧
    block.map Placed.item = evidenceLines input ∧ ∀ q ∈ block, q.page = page

theorem buildCertificatePdf_eq (input : CertificateInput) :
    let above := record input ++ section_ (js "Tamper evidence")
    let blobs := evidence input.hashLines input.sealLines input.sealKid
    buildCertificatePdf input = lay A4 firstPage above ++ lay A4 (pen A4 firstPage above) blobs ++
      lay A4 (pen A4 firstPage (above ++ blobs)) closing := by
  unfold buildCertificatePdf certificate
  rw [lay_append, lay_append]

theorem laidOut_certificate {input : CertificateInput} (h : input.WellSized) :
    LaidOut input (buildCertificatePdf input) where
  above q hq := by
    have hbaseline := bottom_le_of_fits (block_certificate h).fits le_rfl q hq
    rwa [sub_zero] at hbaseline
  lines := map_item_lay.trans (items_certificate input)
  ordered := pairwise_lay beside_trans (block_certificate h).spaced
  together :=
    ⟨_, _, _, _, buildCertificatePdf_eq input, map_item_lay.trans (items_evidence input), page_of_mem_evidence _⟩

/-- The last heading asks for 64 points and takes 32 of them; the block under it asks for 67. -/
theorem headingsKept_certificate_iff {input : CertificateInput} (h : input.WellSized) :
    HeadingsKept (buildCertificatePdf input) ↔ 67 ≤ fit input.roomBelow 64 - 32 := by
  unfold buildCertificatePdf certificate
  rw [List.append_assoc, List.append_assoc, lay_append, headingsKept_append_iff (keeps_record input _),
    headingsKept_evidence_iff, h.evidence_room, room_record]

/-- **The layout of the certificate.**  For any number of signers, every line stands above the margin, every
line of every signer is there once and in order, and the fingerprint and the seal are on one page.  Every
heading is on the page of the line below it exactly when the signers leave less than 64 points, so that the
last heading goes on to a new page, or at least 99, so that the block below it fits too. -/
theorem certificate_layout_iff (input : CertificateInput) (h : input.WellSized) :
    LaidOut input (buildCertificatePdf input) ∧
      (HeadingsKept (buildCertificatePdf input) ↔ ¬(64 ≤ input.roomBelow ∧ input.roomBelow < 99)) := by
  refine ⟨laidOut_certificate h, ?_⟩
  rw [headingsKept_certificate_iff h]
  unfold fit
  split
  · -- The heading stands on the page of the last signer, and the block has what it leaves.
    rename_i hroom
    constructor
    · intro hfits hbetween
      linarith [hbetween.2]
    · intro hnot
      linarith [not_lt.mp fun hlt => hnot ⟨hroom, hlt⟩]
  · -- The heading has gone on to a new page, with room for both.
    rename_i hshort
    exact iff_of_true (by norm_num) fun hbetween => hshort hbetween.1

/-- One party whose browser names itself in so many characters. -/
def party (length : Nat) : CertificateSigner where
  name := some (js "Aziz")
  email := js "aziz@example.com"
  userId := none
  ip := some (js "203.0.113.7")
  userAgent := some (List.replicate length 0x41)
  viewedAt := some (some 1700000000000)
  consentAt := some (some 1700000060000)
  signedAt := some (some 1700000120000)
  method := js "Typed signature"

/-- A certificate for parties with user agents of these lengths. -/
def agreement (userAgents : List Nat) : CertificateInput where
  requestId := js "req-1"
  documentName := js "Agreement.pdf"
  senderEmail := some (js "sender@example.com")
  signers := userAgents.map party
  sentAt := some (some 1699990000000)
  signedAt := some 1700000120000
  documentHash := List.replicate 64 0x61
  sealSignature := List.replicate 88 0x42
  sealKid := js "k1"

theorem wellSized_agreement {userAgents : List Nat} (h : ∀ length ∈ userAgents, length ≤ 512) :
    (agreement userAgents).WellSized where
  userAgents := by
    intro signer hsigner userAgent hua
    obtain ⟨length, hlength, rfl⟩ := List.mem_map.mp hsigner
    obtain rfl := Option.mem_some_iff.mp hua
    exact List.length_replicate.trans_le (h length hlength)
  hash := List.length_replicate
  sealed := List.length_replicate

theorem roomBelow_agreement (userAgents : List Nat) :
    (agreement userAgents).roomBelow =
      (userAgents.map fun length => max 1 ((length + 62 - 1) / 62)).foldl signerRoom (52789 / 100) := by
  unfold CertificateInput.roomBelow agreement
  rw [List.map_map]
  refine congrArg (List.foldl signerRoom _) (List.map_congr_left fun length _ => ?_)
  exact (length_chunk _ 62).trans (by rw [party, Option.getD_some, List.length_replicate])

theorem certificate_layout_one_party :
    LaidOut (agreement [140]) (buildCertificatePdf (agreement [140])) ∧
      HeadingsKept (buildCertificatePdf (agreement [140])) := by
  have h : (agreement [140]).WellSized := wellSized_agreement (by decide)
  have hlayout := certificate_layout_iff (agreement [140]) h
  refine ⟨hlayout.1, hlayout.2.mpr ?_⟩
  rw [roomBelow_agreement]
  norm_num [signerRoom, fourRows, fit]

/-- Two parties whose user agents take three lines each leave 91.89 points. -/
theorem not_headingsKept_two_parties :
    (agreement [140, 140]).WellSized ∧ ¬ HeadingsKept (buildCertificatePdf (agreement [140, 140])) := by
  have h : (agreement [140, 140]).WellSized := wellSized_agreement (by decide)
  refine ⟨h, ?_⟩
  rw [headingsKept_certificate_iff h, roomBelow_agreement]
  norm_num [signerRoom, fourRows, fit]

end ESignSoft.Sealing.Certificate
