import ESignSoft.Prepare.Recipients
import ESignSoft.Signing.StampGeometry

/-!
# Copies for the signers without a field

Before a send is reviewed, every signer who owns no field gets a copy of the fields of whoever owns the
first one, each signer's further down the page, and none past its foot.

* `mem_copyAdditions` — what is added;
* `copies_apart_iff` — everybody gets their fields, and the boxes keep apart exactly when there is room for
  all of them below each box;
* `copies_at_foot_overlap` — two signers' boxes near the foot of a page.

Lengths are exact rationals.
-/

namespace ESignSoft.Prepare

open ESignSoft.Lib ESignSoft.Lib.JsText ESignSoft.Contracts ESignSoft.Signing

/-- The gap between a box and its copy. -/
def COPY_GAP : ℚ := 12 / 1000

theorem COPY_GAP_nonneg : 0 ≤ COPY_GAP := by decide +kernel

/-- `fields.filter((f) => f.recipientKey === donorKey)`, for the key of the first field. -/
def donorFields (fields : List TemplateField) : List TemplateField :=
  match fields.head? with
  | none => []
  | some first => fields.filter fun f => f.recipientKey == first.recipientKey

/-- The signers who are given a copy. -/
def copyTakers (fields : List TemplateField) (recipients : List EditorRecipient) : List EditorRecipient :=
  recipients.filter fun r =>
    !(r.role != .signer || fields.head?.any fun first => r.key == first.recipientKey) &&
      !(fields.any fun f => f.recipientKey == r.key)

/-- Clamped, never wrapped. -/
def copyField (id key : JsString) (step : Nat) (f : TemplateField) : TemplateField :=
  { f with
    id := id
    recipientKey := key
    y := min (f.y + (f.h + COPY_GAP) * step) (1 - f.h) }

/-- The copies for the signers from the `step`-th on; `randomUUID` gives each copy of a step its id. -/
def copyAdditions (randomUUID : Nat → Nat → JsString) (donor : List TemplateField) :
    Nat → List EditorRecipient → List TemplateField
  | _, [] => []
  | step, r :: rest =>
      donor.mapIdx (fun i f => copyField (randomUUID step i) r.key step f) ++
        copyAdditions randomUUID donor (step + 1) rest

def copyFieldsToEverySigner (randomUUID : Nat → Nat → JsString) (fields : List TemplateField)
    (recipients : List EditorRecipient) : List TemplateField :=
  if fields.head?.all fun first => first.recipientKey == [] then fields
  else fields ++ copyAdditions randomUUID (donorFields fields) 1 (copyTakers fields recipients)

/-! ## What is added -/

/-- The copies: of each donor box one for each taker, the first one step down. -/
theorem mem_copyAdditions {randomUUID : Nat → Nat → JsString} {donor : List TemplateField} {step : Nat}
    {takers : List EditorRecipient} {g : TemplateField} :
    g ∈ copyAdditions randomUUID donor step takers ↔
      ∃ s r i f, takers[s]? = some r ∧ donor[i]? = some f ∧
        g = copyField (randomUUID (step + s) i) r.key (step + s) f := by
  induction takers generalizing step with
  | nil => simp [copyAdditions]
  | cons r rest ih =>
      rw [copyAdditions, List.mem_append, ih, List.mem_mapIdx]
      constructor
      · rintro (⟨i, hi, rfl⟩ | ⟨s, q, i, f, hq, hf, rfl⟩)
        · exact ⟨0, r, i, _, rfl, List.getElem?_eq_getElem hi, rfl⟩
        · exact ⟨s + 1, q, i, f, hq, hf, by rw [Nat.add_right_comm, Nat.add_assoc]⟩
      · rintro ⟨s, q, i, f, hq, hf, rfl⟩
        cases s with
        | zero =>
            obtain rfl := Option.some.inj hq
            obtain ⟨hi, rfl⟩ := List.getElem?_eq_some_iff.mp hf
            exact Or.inl ⟨i, hi, rfl⟩
        | succ s => exact Or.inr ⟨s, q, i, f, hq, hf, by rw [Nat.add_right_comm, Nat.add_assoc]⟩

/-- The copy of a donor box for one of the takers, counted from 0. -/
def CopyOf (randomUUID : Nat → Nat → JsString) (fields : List TemplateField)
    (recipients : List EditorRecipient) (f : TemplateField) (s : Nat) (g : TemplateField) : Prop :=
  ∃ r i, (copyTakers fields recipients)[s]? = some r ∧ (donorFields fields)[i]? = some f ∧
    g = copyField (randomUUID (1 + s) i) r.key (1 + s) f

theorem head_mem_donorFields (first : TemplateField) (rest : List TemplateField) :
    first ∈ donorFields (first :: rest) := by
  simp [donorFields]

theorem mem_of_donorFields {fields : List TemplateField} {f : TemplateField} (h : f ∈ donorFields fields) :
    f ∈ fields := by
  unfold donorFields at h
  split at h
  · cases h
  · exact (List.mem_filter.mp h).1

variable {randomUUID : Nat → Nat → JsString} {fields : List TemplateField} {recipients : List EditorRecipient}

/-- Afterwards there are the fields there were, and the copies. -/
theorem mem_copyFieldsToEverySigner (hkey : ∀ f ∈ fields, f.recipientKey ≠ []) {g : TemplateField} :
    g ∈ copyFieldsToEverySigner randomUUID fields recipients ↔
      g ∈ fields ∨ ∃ f s, CopyOf randomUUID fields recipients f s g := by
  cases hfields : fields with
  | nil => simp [copyFieldsToEverySigner, CopyOf, donorFields]
  | cons first rest =>
      have hfirst : first.recipientKey ≠ [] := hkey first (by simp [hfields])
      have hsome : ((first :: rest).head?.all fun f => f.recipientKey == []) = false := by simp [hfirst]
      rw [copyFieldsToEverySigner, hsome, if_neg (by decide), List.mem_append, mem_copyAdditions]
      refine or_congr_right ⟨?_, ?_⟩
      · rintro ⟨s, r, i, f, hr, hf, hg⟩
        exact ⟨f, s, r, i, hr, hf, hg⟩
      · rintro ⟨f, s, r, i, hr, hf, hg⟩
        exact ⟨s, r, i, f, hr, hf, hg⟩

theorem prefix_copyFieldsToEverySigner : fields <+: copyFieldsToEverySigner randomUUID fields recipients := by
  unfold copyFieldsToEverySigner
  split
  · exact List.prefix_rfl
  · exact List.prefix_append ..

/-- Every signer owns a field. -/
theorem signer_owns (hkey : ∀ f ∈ fields, f.recipientKey ≠ []) (hne : fields ≠ []) {r : EditorRecipient}
    (hr : r ∈ recipients) (hrole : r.role = .signer) :
    ∃ f ∈ copyFieldsToEverySigner randomUUID fields recipients, f.recipientKey = r.key := by
  by_cases htagged : ∃ f ∈ fields, f.recipientKey = r.key
  · obtain ⟨f, hf, hfr⟩ := htagged
    exact ⟨f, prefix_copyFieldsToEverySigner.subset hf, hfr⟩
  · obtain ⟨first, rest, rfl⟩ := List.exists_cons_of_ne_nil hne
    have hnone : ∀ f ∈ first :: rest, f.recipientKey ≠ r.key := fun f hf heq => htagged ⟨f, hf, heq⟩
    have hdonor : r.key ≠ first.recipientKey := (hnone first List.mem_cons_self).symm
    have htaker : r ∈ copyTakers (first :: rest) recipients := by
      refine List.mem_filter.mpr ⟨hr, ?_⟩
      have hany : ((first :: rest).any fun f => f.recipientKey == r.key) = false := by
        rw [List.any_eq_false]
        intro f hf
        simpa using hnone f hf
      rw [hany]
      simp [hrole, hdonor]
    obtain ⟨s, hs⟩ := List.getElem?_of_mem htaker
    obtain ⟨i, hi⟩ := List.getElem?_of_mem (head_mem_donorFields first rest)
    exact ⟨_, (mem_copyFieldsToEverySigner hkey).mpr (Or.inr ⟨first, s, r, i, hs, hi, rfl⟩), rfl⟩

/-! ## Where the copies lie -/

/-- The boxes share more than a border. -/
def BoxesOverlap (f g : TemplateField) : Prop := f.page = g.page ∧ (fieldRect f).Overlaps (fieldRect g)

/-- Boxes that differ in height on the page only. -/
theorem boxesOverlap_iff {f g : TemplateField} (hpage : f.page = g.page) (hx : f.x = g.x) (hw : f.w = g.w)
    (hh : f.h = g.h) (hsize : 0 < g.w ∧ 0 < g.h) :
    BoxesOverlap f g ↔ f.y < g.y + g.h ∧ g.y < f.y + g.h := by
  have hsize' : 0 < f.w ∧ 0 < f.h := by rwa [hw, hh]
  rw [BoxesOverlap, Rect.overlaps_iff hsize' hsize]
  dsimp only [fieldRect]
  rw [hx, hw, hh]
  have hinside := lt_add_of_pos_right g.x hsize.1
  exact ⟨fun h => h.2.2, fun h => ⟨hpage, ⟨hinside, hinside⟩, h⟩⟩

/-- How far down a copy would lie on an endless page. -/
def copyTop (f : TemplateField) (step : Nat) : ℚ := f.y + (f.h + COPY_GAP) * step

theorem copyField_y (id key : JsString) (step : Nat) (f : TemplateField) :
    (copyField id key step f).y = min (copyTop f step) (1 - f.h) := rfl

theorem copyTop_zero (f : TemplateField) : copyTop f 0 = f.y := by simp [copyTop]

theorem copyTop_succ (f : TemplateField) (step : Nat) : copyTop f (step + 1) = copyTop f step + f.h + COPY_GAP := by
  unfold copyTop
  push_cast
  ring

theorem copyTop_mono {f : TemplateField} (hh : 0 < f.h) {a b : Nat} (h : a ≤ b) : copyTop f a ≤ copyTop f b := by
  have hstep : 0 ≤ f.h + COPY_GAP := add_nonneg hh.le COPY_GAP_nonneg
  have hcast : (a : ℚ) ≤ b := by exact_mod_cast h
  unfold copyTop
  linarith [mul_le_mul_of_nonneg_left hcast hstep]

/-- There is room below the last copy but one for one more. -/
def RoomForCopies (f : TemplateField) (copies : Nat) : Prop :=
  ∀ n, copies = n + 1 → copyTop f n + 2 * f.h ≤ 1

/-- With room for all of them, each copy lies below the one before. -/
theorem below_of_room {f : TemplateField} (hh : 0 < f.h) {n : Nat} (hroom : copyTop f n + 2 * f.h ≤ 1)
    {a b : Nat} (hab : a < b) (hb : b ≤ n + 1) : copyTop f a + f.h ≤ min (copyTop f b) (1 - f.h) := by
  have hstep := copyTop_succ f a
  have hnext := copyTop_mono hh (Nat.succ_le_of_lt hab)
  have hlast := copyTop_mono hh (show a ≤ n by omega)
  have hgap := COPY_GAP_nonneg
  rw [Nat.succ_eq_add_one, hstep] at hnext
  exact le_min (by linarith) (by linarith)

/-- Without it, the last copy overlaps the box before it, wherever that has been pulled back to. -/
theorem overlap_of_no_room {f : TemplateField} (hh : 0 < f.h) {n : Nat} (hroom : 1 < copyTop f n + 2 * f.h)
    {y : ℚ} (hlow : min (copyTop f n) (1 - f.h) ≤ y) (hhigh : y ≤ copyTop f n) (hpage : y < 1) :
    min (copyTop f (n + 1)) (1 - f.h) < y + f.h ∧ y < min (copyTop f (n + 1)) (1 - f.h) + f.h := by
  have hgap := COPY_GAP_nonneg
  have hclamped := min_le_right (copyTop f (n + 1)) (1 - f.h)
  constructor
  · rcases min_le_iff.mp hlow with h | h <;> linarith
  · rw [min_add, lt_min_iff, copyTop_succ]
    exact ⟨by linarith, by linarith⟩

theorem not_overlap_of_below {f g : TemplateField} (hpage : f.page = g.page) (hx : f.x = g.x) (hw : f.w = g.w)
    (hh : f.h = g.h) (hsize : 0 < g.w ∧ 0 < g.h) (hbelow : f.y + g.h ≤ g.y) :
    ¬ BoxesOverlap f g ∧ ¬ BoxesOverlap g f := by
  have hsize' : 0 < f.w ∧ 0 < f.h := by rwa [hw, hh]
  rw [boxesOverlap_iff hpage hx hw hh hsize, boxesOverlap_iff hpage.symm hx.symm hw.symm hh.symm hsize']
  constructor
  · rintro ⟨-, h⟩
    linarith
  · rintro ⟨h, -⟩
    rw [hh] at h
    linarith

/-- A donor box, and where it lies. -/
theorem donor_bounds {P : Platform} (hschema : TemplateFieldsSchema P fields = true) {f : TemplateField}
    (hf : f ∈ donorFields fields) : TemplateFieldSchema P f = true ∧ (0 < f.w ∧ 0 < f.h) ∧ f.y < 1 := by
  simp only [TemplateFieldsSchema, Bool.and_eq_true, List.all_eq_true] at hschema
  have hfield := hschema.2 f (mem_of_donorFields hf)
  have hfoot := (TemplateFieldSchema.fractions hfield).2.2.2
  have hheight : 1 / 200 ≤ f.h := by
    have h := hfield
    simp only [TemplateFieldSchema, Bool.and_eq_true, decide_eq_true_eq] at h
    exact h.1.1.1.1.1.2.2
  refine ⟨hfield, TemplateFieldSchema.size_pos hfield, ?_⟩
  unfold schemaTolerance at hfoot
  linarith

/-- No copy overlaps the box it was copied from, nor another signer's copy of that box. -/
def CopiesApart (randomUUID : Nat → Nat → JsString) (fields : List TemplateField)
    (recipients : List EditorRecipient) : Prop :=
  ∀ f s g, CopyOf randomUUID fields recipients f s g → ¬ BoxesOverlap g f ∧
    ∀ s' g', CopyOf randomUUID fields recipients f s' g' → s ≠ s' → ¬ BoxesOverlap g g'

/-- The last copy needs the room: without it there is a box that it overlaps. -/
theorem CopiesApart.room (hapart : CopiesApart randomUUID fields recipients) {P : Platform}
    (hschema : TemplateFieldsSchema P fields = true) {f : TemplateField} (hf : f ∈ donorFields fields) :
    RoomForCopies f (copyTakers fields recipients).length := by
  intro n hn
  obtain ⟨-, hsize, htop⟩ := donor_bounds hschema hf
  obtain ⟨i, hi⟩ := List.getElem?_of_mem hf
  have htaker : ∀ s, s ≤ n → ∃ g, CopyOf randomUUID fields recipients f s g ∧
      g.page = f.page ∧ g.x = f.x ∧ g.w = f.w ∧ g.h = f.h ∧ g.y = min (copyTop f (s + 1)) (1 - f.h) := by
    intro s hs
    have hlt : s < (copyTakers fields recipients).length := by omega
    refine ⟨_, ⟨_, i, List.getElem?_eq_getElem hlt, hi, rfl⟩, rfl, rfl, rfl, rfl, ?_⟩
    rw [copyField_y, Nat.add_comm]
  by_contra hroom
  obtain ⟨last, hlast, hpage, hx, hw, hh, hy⟩ := htaker n le_rfl
  cases n with
  | zero =>
      -- The only copy lies over its original.
      refine (hapart f 0 last hlast).1 ((boxesOverlap_iff hpage hx hw hh hsize).mpr ?_)
      rw [hy]
      refine overlap_of_no_room hsize.2 (not_le.mp hroom) ?_ (copyTop_zero f).ge htop
      exact (min_le_left _ _).trans (copyTop_zero f).le
  | succ n =>
      -- Of more copies, the last one lies over the one before.
      obtain ⟨before, hbefore, hpage', hx', hw', hh', hy'⟩ := htaker n (Nat.le_succ n)
      refine (hapart f (n + 1) last hlast).2 n before hbefore (by omega)
        ((boxesOverlap_iff (hpage.trans hpage'.symm) (hx.trans hx'.symm) (hw.trans hw'.symm)
          (hh.trans hh'.symm) (by rwa [hw', hh'])).mpr ?_)
      rw [hy, hh', hy']
      refine overlap_of_no_room hsize.2 (not_le.mp hroom) le_rfl (min_le_left _ _) ?_
      exact lt_of_le_of_lt (min_le_right _ _) (by linarith [hsize.2])

/-- A copy does not reach one that lies further down. -/
theorem not_overlap_copies {f : TemplateField} (hsize : 0 < f.w ∧ 0 < f.h) {a b : Nat}
    (hbelow : copyTop f a + f.h ≤ min (copyTop f b) (1 - f.h)) (id key id' key' : JsString) :
    ¬ BoxesOverlap (copyField id key a f) (copyField id' key' b f) ∧
      ¬ BoxesOverlap (copyField id' key' b f) (copyField id key a f) :=
  not_overlap_of_below rfl rfl rfl rfl hsize (le_trans (add_le_add_left (min_le_left _ _) _) hbelow)

theorem copiesApart_of_room {P : Platform} (hschema : TemplateFieldsSchema P fields = true)
    (hroom : ∀ f ∈ donorFields fields, RoomForCopies f (copyTakers fields recipients).length) :
    CopiesApart randomUUID fields recipients := by
  intro f s g hg
  obtain ⟨r, i, hr, hi, rfl⟩ := hg
  have hf := List.mem_of_getElem? hi
  obtain ⟨-, hsize, -⟩ := donor_bounds hschema hf
  obtain ⟨n, hn⟩ : ∃ n, (copyTakers fields recipients).length = n + 1 :=
    ⟨_, (Nat.succ_pred_eq_of_pos (List.length_pos_of_mem (List.mem_of_getElem? hr))).symm⟩
  have hbelow : ∀ a b, a < b → b ≤ n + 1 → copyTop f a + f.h ≤ min (copyTop f b) (1 - f.h) :=
    fun a b => below_of_room hsize.2 (hroom f hf n hn)
  have hindex : ∀ s r, (copyTakers fields recipients)[s]? = some r → 1 + s ≤ n + 1 := by
    intro s r hr
    obtain ⟨hlt, -⟩ := List.getElem?_eq_some_iff.mp hr
    omega
  constructor
  · have h := hbelow 0 (1 + s) (by omega) (hindex s r hr)
    rw [copyTop_zero] at h
    exact (not_overlap_of_below (f := f) (g := copyField (randomUUID (1 + s) i) r.key (1 + s) f) rfl rfl rfl
      rfl hsize h).2
  · rintro s' g' ⟨r', i', hr', hi', rfl⟩ hne
    rcases Nat.lt_or_gt_of_ne hne with hlt | hgt
    · exact (not_overlap_copies hsize (hbelow (1 + s) (1 + s') (by omega) (hindex s' r' hr')) ..).1
    · exact (not_overlap_copies hsize (hbelow (1 + s') (1 + s) (by omega) (hindex s r hr)) ..).2

theorem copiesApart_iff {P : Platform} (hschema : TemplateFieldsSchema P fields = true) :
    CopiesApart randomUUID fields recipients ↔
      ∀ f ∈ donorFields fields, RoomForCopies f (copyTakers fields recipients).length :=
  ⟨fun hapart _ hf => hapart.room hschema hf, copiesApart_of_room hschema⟩

/-! ## What is sent -/

/-- A copy is as valid as the box it was copied from. -/
theorem schema_copyField {P : Platform} {f : TemplateField} (h : TemplateFieldSchema P f = true)
    {id key : JsString} (hid : P.uuid id = true) (hkey : 1 ≤ key.length ∧ key.length ≤ 64) (step : Nat) :
    TemplateFieldSchema P (copyField id key step f) = true := by
  have hh := (TemplateFieldSchema.size_pos h).2
  have htop := copyTop_mono hh (Nat.zero_le step)
  rw [copyTop_zero] at htop
  have hclamped := min_le_right (copyTop f step) (1 - f.h)
  simp only [TemplateFieldSchema, Bool.and_eq_true, decide_eq_true_eq] at h ⊢
  obtain ⟨⟨⟨⟨⟨⟨⟨⟨⟨⟨-, hpage⟩, hx⟩, hy⟩, hw⟩, hheight⟩, -⟩, hlabel⟩, hoptions⟩, hright, -⟩, hchoice⟩ := h
  have hlow : 0 ≤ min (copyTop f step) (1 - f.h) := le_min (by linarith) (by linarith)
  have hin : 0 ≤ (copyField id key step f).y ∧ (copyField id key step f).y ≤ 1 :=
    ⟨hlow, by rw [copyField_y]; linarith⟩
  have hbottom : (copyField id key step f).y + f.h ≤ 10001 / 10000 := by
    rw [copyField_y]
    linarith
  exact ⟨⟨⟨⟨⟨⟨⟨⟨⟨⟨hid, hpage⟩, hx⟩, hin⟩, hw⟩, hheight⟩, hkey⟩, hlabel⟩, hoptions⟩, hright, hbottom⟩, hchoice⟩

/-- Every signer among the recipients sent is found to be tagged. -/
theorem assertSignersAreTagged_of_owns {input : SendRequest} {fields : List TemplateField}
    (h : ∀ q ∈ input.recipients, q.role = .signer → ∃ f ∈ fields, f.recipientKey = q.recipientKey) :
    assertSignersAreTagged input fields = .ok () := by
  unfold assertSignersAreTagged
  have hnone : input.recipients.find? (fun r =>
      r.role == .signer && !(fields.any fun f => f.recipientKey == r.recipientKey)) = none := by
    rw [List.find?_eq_none]
    intro q hq hbad
    simp only [Bool.and_eq_true, beq_iff_eq, Bool.not_eq_true', List.any_eq_false] at hbad
    obtain ⟨f, hf, hkey⟩ := h q hq hbad.1
    exact hbad.2 f hf hkey
  rw [hnone]

/-- The recipients sent are recipients of the editor. -/
def SentFrom (recipients : List EditorRecipient) (input : SendRequest) : Prop :=
  ∀ q ∈ input.recipients, ∃ r ∈ recipients, q.role = r.role ∧ q.recipientKey = r.key

/-- Everybody signs somewhere: each signer owns a field, so that the send is let through; what there was is
as it was; and everything is valid. -/
structure EverybodySigns (P : Platform) (fields : List TemplateField) (recipients : List EditorRecipient)
    (after : List TemplateField) : Prop where
  owns : ∀ r ∈ recipients, r.role = .signer → ∃ f ∈ after, f.recipientKey = r.key
  sent : ∀ input, SentFrom recipients input → assertSignersAreTagged input after = .ok ()
  unchanged : fields <+: after
  valid : ∀ f ∈ after, 1 ≤ f.recipientKey.length ∧ f.recipientKey.length ≤ 64 → TemplateFieldSchema P f = true

/-- **Copies for everyone.**  Everybody signs somewhere; and no copy overlaps the box it was copied from, or
another signer's copy of it, exactly when below each box there is room for all its copies. -/
theorem copies_apart_iff {P : Platform} (huuid : ∀ step i, P.uuid (randomUUID step i) = true)
    (hschema : TemplateFieldsSchema P fields = true) (hne : fields ≠ []) (recipients : List EditorRecipient) :
    EverybodySigns P fields recipients (copyFieldsToEverySigner randomUUID fields recipients) ∧
      (CopiesApart randomUUID fields recipients ↔
        ∀ f ∈ donorFields fields, RoomForCopies f (copyTakers fields recipients).length) := by
  have hfields : ∀ f ∈ fields, TemplateFieldSchema P f = true := by
    simp only [TemplateFieldsSchema, Bool.and_eq_true, List.all_eq_true] at hschema
    exact hschema.2
  have hkey : ∀ f ∈ fields, f.recipientKey ≠ [] := by
    intro f hf hnil
    have h := hfields f hf
    simp [TemplateFieldSchema, hnil] at h
  refine ⟨⟨fun r hr hrole => signer_owns hkey hne hr hrole, fun input hsent => ?_,
    prefix_copyFieldsToEverySigner, fun g hg hlength => ?_⟩, copiesApart_iff hschema⟩
  · refine assertSignersAreTagged_of_owns fun q hq hrole => ?_
    obtain ⟨r, hr, hsame, hkeys⟩ := hsent q hq
    rw [hkeys]
    exact signer_owns hkey hne hr (hsame ▸ hrole)
  · rcases (mem_copyFieldsToEverySigner hkey).mp hg with hold | ⟨f, s, r, i, -, hi, rfl⟩
    · exact hfields g hold
    · exact schema_copyField (hfields f (mem_of_donorFields (List.mem_of_getElem? hi))) (huuid _ _) hlength _

/-! ## Two signers -/

/-- A signature box of the palette's size, so far down the page. -/
def signatureBox (y : ℚ) : TemplateField :=
  { exampleField .signature y with
    w := 24 / 100
    h := 55 / 1000
    recipientKey := js "signer" }

def twoSigners : List EditorRecipient := [blankRecipient 0, blankRecipient 1]

def exampleUUID (_ _ : Nat) : JsString := sharedId

theorem uuid_exampleUUID (step i : Nat) : examplePlatform.uuid (exampleUUID step i) = true :=
  beq_self_eq_true sharedId

theorem copies_apart_mid_page :
    CopiesApart exampleUUID [signatureBox (1 / 2)] twoSigners := by
  have hroom : ∀ f ∈ donorFields [signatureBox (1 / 2)],
      RoomForCopies f (copyTakers [signatureBox (1 / 2)] twoSigners).length := by
    intro f hf n hn
    obtain rfl := List.mem_singleton.mp (mem_of_donorFields hf)
    have hone : (copyTakers [signatureBox (1 / 2)] twoSigners).length = 1 := by decide +kernel
    obtain rfl : n = 0 := by omega
    decide +kernel
  exact (copies_apart_iff (P := examplePlatform) uuid_exampleUUID (by decide +kernel)
    (List.cons_ne_nil _ _) twoSigners).2.mpr hroom

/-- A signature line near the foot of the page: the second signer's box is pulled back over the first's. -/
theorem copies_at_foot_overlap :
    ¬ ∀ (P : Platform) (randomUUID : Nat → Nat → JsString) (fields : List TemplateField)
        (recipients : List EditorRecipient), (∀ step i, P.uuid (randomUUID step i) = true) →
      TemplateFieldsSchema P fields = true → fields ≠ [] → (recipients.map EditorRecipient.key).Nodup →
        CopiesApart randomUUID fields recipients := by
  intro h
  have hapart := h examplePlatform exampleUUID [signatureBox (9 / 10)] twoSigners uuid_exampleUUID
    (by decide +kernel) (List.cons_ne_nil _ _) (by decide +kernel)
  have hroom := (copiesApart_iff (P := examplePlatform) (by decide +kernel)).mp hapart (signatureBox (9 / 10))
    (by decide +kernel) 0 (by decide +kernel)
  exact absurd hroom (by decide +kernel)

end ESignSoft.Prepare
