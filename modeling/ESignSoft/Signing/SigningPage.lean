import ESignSoft.Envelope.Service
import ESignSoft.Lib.Runs
import ESignSoft.Signing.Options

/-!
# The signing page

The page a link opens, as its signer works on it: boxes that are ticked, chosen or typed into, the one dialog
in which a signature is adopted, and Finish.  Nothing but the boxes and the adopted signature is sent.

* `Page.Sound` — what every event keeps: who may have written what into which box;
* `finish_sends_what_is_shown` — in every state the page reaches, what Finish sends keeps to the bounds of the
  contract, is accepted and is stored as the boxes show it, with one signature in all the signature boxes;
* `finish_needs_a_signature_box` — a page without a signature box never offers Finish.
-/

namespace ESignSoft.Signing.Ceremony

open ESignSoft.Lib ESignSoft.Lib.JsText ESignSoft.Contracts ESignSoft.Envelope

/-! ## The page -/

structure AdoptedSignature where
  dataUrl : JsString
  method : SignatureMethod

structure Page where
  fields : List TemplateField
  /-- How many pages of the document are measured and on the screen. -/
  pageCount : Nat
  consented : Bool
  filled : Values
  adopted : Option AdoptedSignature
  adoptOpen : Bool
  pendingField : Option JsString
  submitting : Bool
  submitError : Option JsString
  done : Bool
  dead : Bool

/-- Date Signed as shown while signing. -/
def autoValue (field : TemplateField) (signedOn : JsString) : JsString :=
  if field.type = .date then signedOn else []

/-- Write a value into the boxes of a kind that hold nothing yet, box by box. -/
def fillEmpty (kind : FieldKind) (value : TemplateField → JsString) (fields : List TemplateField)
    (filled : Values) : Values :=
  fields.zipIdx.foldl
    (fun next f =>
      if fieldKind f.1 ≠ kind then next
      else
        let key := fieldKey f.1 f.2
        if (next key).getD [] = [] then Function.update next key (some (value f.1)) else next)
    filled

/-- The link is resolved, Date Signed is shown and the document is open. -/
def Page.opened (fields : List TemplateField) (pageCount : Nat) (consented : Bool) (signedOn : JsString) : Page where
  fields := fields
  pageCount := pageCount
  consented := consented
  filled := fillEmpty .auto (fun f => autoValue f signedOn) fields fun _ => none
  adopted := none
  adoptOpen := false
  pendingField := none
  submitting := false
  submitError := none
  done := false
  dead := false

def Page.setFilled (page : Page) (key value : JsString) : Page :=
  { page with filled := Function.update page.filled key (some value) }

def Page.onSignatureFieldClick (page : Page) (key : JsString) : Page :=
  match page.adopted with
  | none => { page with pendingField := some key, adoptOpen := true }
  | some adopted => page.setFilled key adopted.dataUrl

/-- Adopt once, then fill the clicked field and every other empty signature field. -/
def Page.onAdopt (page : Page) (sig : AdoptedSignature) : Page :=
  let next :=
    match page.pendingField with
    | some key => Function.update page.filled key (some sig.dataUrl)
    | none => page.filled
  { page with
    adopted := some sig
    adoptOpen := false
    pendingField := none
    filled := fillEmpty .signature (fun _ => sig.dataUrl) page.fields next }

def Page.ready (P : Platform) (page : Page) : Bool :=
  canFinish P page.fields page.filled && page.adopted.isSome

/-- The body of the request `onFinish` makes; nothing where Finish is not on offer. -/
def Page.submission (P : Platform) (page : Page) : Option SubmitSignature :=
  if page.done || page.dead || !page.consented || !page.ready P || page.submitting then none
  else
    page.adopted.map fun adopted =>
      { method := adopted.method
        signatureImage := adopted.dataUrl
        fieldValues := onFinish page.fields page.filled }

/-- What the signer does, and what the server answers. -/
inductive Event
  | consent (ok : Bool)
  | clickSignature (f : TemplateField)
  | adopt (sig : AdoptedSignature)
  | closeDialog
  | tick (f : TemplateField) (checked : Bool)
  | choose (f : TemplateField) (value : JsString)
  | typeIn (f : TemplateField) (raw : JsString)
  | finish
  /-- The status of the answer; none where the server was not reached. -/
  | answered (status : Option Nat)

/-- The box stands on a page of the document. -/
def onPage (pageCount : Nat) (f : TemplateField) : Bool := decide (1 ≤ f.page ∧ f.page ≤ (pageCount : Int))

/-- The boxes are on the screen, each on its page, once the signer has agreed. -/
def Page.shows (page : Page) (f : TemplateField) : Bool :=
  !page.done && !page.dead && page.consented && decide (f ∈ page.fields) && onPage page.pageCount f

/-- `none` where the control is not on the screen, or disabled. -/
def Page.step (P : Platform) (page : Page) : Event → Option Page
  | .consent ok =>
      if page.done || page.dead || page.consented then none
      else some (if ok then { page with consented := true } else { page with dead := true })
  | .clickSignature f =>
      if page.shows f && fieldKind f == .signature then some (page.onSignatureFieldClick f.id) else none
  | .adopt sig => if page.adoptOpen then some (page.onAdopt sig) else none
  | .closeDialog =>
      if page.adoptOpen then some { page with pendingField := none, adoptOpen := false } else none
  | .tick f checked =>
      if page.shows f && f.type == .checkbox then
        some (page.setFilled f.id (if checked then js "true" else []))
      else none
  | .choose f value =>
      if page.shows f && (f.type == .dropdown || f.type == .radio) &&
          (value == [] || (f.options.getD []).contains value) then
        some (page.setFilled f.id value)
      else none
  | .typeIn f raw =>
      if page.shows f && fieldKind f == .input &&
          !(f.type == .checkbox || f.type == .dropdown || f.type == .radio) then
        some (page.setFilled f.id (sanitizeFieldInput P f.type raw))
      else none
  | .finish =>
      (page.submission P).map fun _ => { page with submitting := true, submitError := none }
  | .answered status =>
      if !page.submitting then none
      else
        let page := { page with submitting := false }
        match status with
        | none => some { page with submitError := js "We couldn't reach the server. Please try again." }
        | some status =>
            if 200 ≤ status ∧ status ≤ 299 then some { page with done := true }
            else if status = 404 then some { page with dead := true }
            else some { page with submitError := js "We couldn't complete your signature. Please try again." }

/-! ## Filling the empty boxes -/

theorem fillEmpty_concat (kind : FieldKind) (value : TemplateField → JsString) (fields : List TemplateField)
    (f : TemplateField) (filled : Values) :
    fillEmpty kind value (fields ++ [f]) filled =
      let next := fillEmpty kind value fields filled
      if fieldKind f ≠ kind then next
      else if (next f.id).getD [] = [] then Function.update next f.id (some (value f))
      else next := by
  rw [fillEmpty, List.zipIdx_append, List.foldl_append]
  rfl

/-- What a box holds was there before, or is the value of a box of that kind. -/
theorem fillEmpty_eq_some {kind : FieldKind} {value : TemplateField → JsString} {fields : List TemplateField}
    {filled : Values} {id v : JsString} (h : fillEmpty kind value fields filled id = some v) :
    filled id = some v ∨ ∃ f ∈ fields, fieldKind f = kind ∧ f.id = id ∧ v = value f := by
  induction fields using List.reverseRecOn with
  | nil => exact Or.inl h
  | append_singleton fields g ih =>
      have hbefore (hrest : fillEmpty kind value fields filled id = some v) :
          filled id = some v ∨ ∃ f ∈ fields ++ [g], fieldKind f = kind ∧ f.id = id ∧ v = value f := by
        refine (ih hrest).imp_right ?_
        rintro ⟨f, hf, hfield⟩
        exact ⟨f, List.mem_append_left _ hf, hfield⟩
      rw [fillEmpty_concat] at h
      simp only at h
      split at h
      · exact hbefore h
      · rename_i hkind
        split at h
        · by_cases hid : g.id = id
          · subst hid
            rw [Function.update_self] at h
            exact Or.inr ⟨g, by simp, not_not.mp hkind, rfl, (Option.some.inj h).symm⟩
          · rw [Function.update_of_ne (Ne.symm hid)] at h
            exact hbefore h
        · exact hbefore h

/-- Every box of the kind holds something afterwards. -/
theorem fillEmpty_filled {kind : FieldKind} {value : TemplateField → JsString} (hvalue : ∀ f, value f ≠ [])
    {fields : List TemplateField} {filled : Values} {f : TemplateField} (hf : f ∈ fields)
    (hkind : fieldKind f = kind) : (fillEmpty kind value fields filled f.id).getD [] ≠ [] := by
  induction fields using List.reverseRecOn with
  | nil => cases hf
  | append_singleton fields g ih =>
      rw [fillEmpty_concat]
      simp only
      rcases List.mem_append.mp hf with hf | hlast
      · have hbefore := ih hf
        split
        · exact hbefore
        · split
          · by_cases hid : f.id = g.id
            · simpa [hid] using hvalue g
            · simpa [hid] using hbefore
          · exact hbefore
      · obtain rfl := List.mem_singleton.mp hlast
        rw [if_neg (not_not.mpr hkind)]
        split
        · simpa using hvalue f
        · assumption

/-! ## What every event keeps -/

/-- What a box may hold: the adopted signature, the day shown on the page, or, on a page of the document, what one
box holds at most. -/
def MayHold (pageCount : Nat) (adopted : Option AdoptedSignature) (signedOn : JsString) (f : TemplateField)
    (v : JsString) : Prop :=
  match fieldKind f with
  | .signature => ∃ sig, adopted = some sig ∧ v = sig.dataUrl
  | .auto => v = signedOn
  | .input => onPage pageCount f = true ∧ v.length ≤ 500

structure Page.Sound (fields : List TemplateField) (pageCount : Nat) (signedOn : JsString) (page : Page) : Prop where
  layout : page.fields = fields ∧ page.pageCount = pageCount
  boxes : ∀ f ∈ fields, ∀ v, page.filled f.id = some v → MayHold pageCount page.adopted signedOn f v
  pending : ∀ key, page.pendingField = some key → ∃ f ∈ fields, fieldKind f = .signature ∧ f.id = key
  dialog : page.adoptOpen = true → page.adopted = none
  clicked : page.adoptOpen = true ∨ page.adopted.isSome = true →
    ∃ f ∈ fields, fieldKind f = .signature ∧ onPage pageCount f = true

section Sound

variable {P : Platform} {fields : List TemplateField} {pageCount : Nat} {signedOn : JsString} {page page' : Page}

theorem eq_of_same_id (hids : (fields.map (·.id)).Nodup) {f g : TemplateField} (hf : f ∈ fields) (hg : g ∈ fields)
    (h : g.id = f.id) : g = f :=
  List.inj_on_of_nodup_map hids hg hf h

theorem opened_sound (hids : (fields.map (·.id)).Nodup) (consented : Bool) :
    (Page.opened fields pageCount consented signedOn).Sound fields pageCount signedOn where
  layout := ⟨rfl, rfl⟩
  boxes := by
    intro f hf v hv
    simp only [Page.opened] at hv
    -- Only Date Signed is written before the signer does anything.
    rcases fillEmpty_eq_some hv with hnothing | ⟨g, hg, hkind, hid, rfl⟩
    · cases hnothing
    · obtain rfl := eq_of_same_id hids hf hg hid
      have hdate : g.type = .date := by simpa [Signing.AUTO_KINDS] using (fieldKind_auto_iff g).mp hkind
      simp [MayHold, hkind, autoValue, hdate]
  pending := by simp [Page.opened]
  dialog := by simp [Page.opened]
  clicked := by simp [Page.opened]

/-- A value written into a box that may hold it. -/
theorem Page.Sound.setFilled (hids : (fields.map (·.id)).Nodup) (h : page.Sound fields pageCount signedOn)
    {f : TemplateField} (hf : f ∈ fields) {v : JsString} (hv : MayHold pageCount page.adopted signedOn f v) :
    (page.setFilled f.id v).Sound fields pageCount signedOn := by
  refine ⟨h.layout, fun g hg w hw => ?_, h.pending, h.dialog, h.clicked⟩
  by_cases hid : g.id = f.id
  · obtain rfl := eq_of_same_id hids hf hg hid
    simp only [Page.setFilled, Function.update_self, Option.some.injEq] at hw
    exact hw ▸ hv
  · simp only [Page.setFilled, Function.update_of_ne hid] at hw
    exact h.boxes g hg w hw

theorem mayHold_input {adopted : Option AdoptedSignature} {f : TemplateField} (hkind : fieldKind f = .input)
    (hpage : onPage pageCount f = true) {v : JsString} (hv : v.length ≤ 500) :
    MayHold pageCount adopted signedOn f v := by
  simp [MayHold, hkind, hpage, hv]

theorem Page.Sound.onSignatureFieldClick (hids : (fields.map (·.id)).Nodup) (h : page.Sound fields pageCount signedOn)
    {f : TemplateField} (hf : f ∈ fields) (hkind : fieldKind f = .signature) (hpage : onPage pageCount f = true) :
    (page.onSignatureFieldClick f.id).Sound fields pageCount signedOn := by
  unfold Page.onSignatureFieldClick
  split
  · rename_i hadopted
    refine ⟨h.layout, h.boxes, fun key hkey => ?_, fun _ => hadopted, fun _ => ⟨f, hf, hkind, hpage⟩⟩
    exact ⟨f, hf, hkind, Option.some.inj hkey⟩
  · rename_i sig hadopted
    refine h.setFilled hids hf ?_
    rw [MayHold, hkind]
    exact ⟨sig, hadopted, rfl⟩

theorem Page.Sound.onAdopt (hids : (fields.map (·.id)).Nodup) (h : page.Sound fields pageCount signedOn)
    (hopen : page.adoptOpen = true) (sig : AdoptedSignature) : (page.onAdopt sig).Sound fields pageCount signedOn := by
  have hnone := h.dialog hopen
  -- No signature box held anything: nothing had been adopted.
  have hsignature {f : TemplateField} (hf : f ∈ fields) (hkind : fieldKind f = .signature) :
      page.filled f.id = none := by
    refine Option.eq_none_iff_forall_not_mem.mpr fun v hv => ?_
    have hold := h.boxes f hf v hv
    rw [MayHold, hkind, hnone] at hold
    obtain ⟨sig', hsig', -⟩ := hold
    cases hsig'
  have hold {f : TemplateField} (hf : f ∈ fields) {v : JsString} (hv : page.filled f.id = some v) :
      MayHold pageCount (some sig) signedOn f v := by
    have hbefore := h.boxes f hf v hv
    unfold MayHold at hbefore ⊢
    cases hkind : fieldKind f with
    | signature =>
        rw [hsignature hf hkind] at hv
        cases hv
    | auto =>
        rw [hkind] at hbefore
        exact hbefore
    | input =>
        rw [hkind] at hbefore
        exact hbefore
  have hnew {f : TemplateField} (hkind : fieldKind f = .signature) :
      MayHold pageCount (some sig) signedOn f sig.dataUrl := by
    rw [MayHold, hkind]
    exact ⟨sig, rfl, rfl⟩
  refine ⟨h.layout, fun f hf v hv => ?_, by simp [Page.onAdopt], by simp [Page.onAdopt],
    fun _ => h.clicked (Or.inl hopen)⟩
  simp only [Page.onAdopt, h.layout.1] at hv
  rcases fillEmpty_eq_some hv with hrest | ⟨g, hg, hkind, hid, rfl⟩
  · cases hpending : page.pendingField with
    | none =>
        rw [hpending] at hrest
        exact hold hf hrest
    | some key =>
        rw [hpending] at hrest
        obtain ⟨g, hg, hkind, rfl⟩ := h.pending key hpending
        by_cases hid : f.id = g.id
        · obtain rfl := eq_of_same_id hids hg hf hid
          simp only [Function.update_self, Option.some.injEq] at hrest
          exact hrest ▸ hnew hkind
        · simp only [Function.update_of_ne hid] at hrest
          exact hold hf hrest
  · obtain rfl := eq_of_same_id hids hf hg hid
    exact hnew hkind

theorem length_sanitizeFieldInput {f : TemplateField} (hkind : fieldKind f = .input) (raw : JsString) :
    (sanitizeFieldInput P f.type raw).length ≤ 500 := by
  have htyped := (fieldKind_input_iff f).mp hkind
  cases hrule : FIELD_VALUE_RULES P f.type with
  | none =>
      have himage := (rule_eq_none_iff P f.type).mp hrule
      simp [not_image_of_typed htyped, not_auto_of_typed htyped] at himage
  | some rule =>
      have hmax : rule.max ≤ 500 := by
        cases htype : f.type <;> rw [htype] at hrule <;>
          simp only [FIELD_VALUE_RULES, Option.some.injEq, reduceCtorEq] at hrule <;>
          subst hrule <;> simp [personName, printable, choice]
      unfold sanitizeFieldInput
      rw [hrule]
      exact (List.length_take_le _ _).trans hmax

theorem step_sound (hids : (fields.map (·.id)).Nodup) (hschema : ∀ f ∈ fields, TemplateFieldSchema P f = true)
    {event : Event} (h : page.Sound fields pageCount signedOn) (hstep : page.step P event = some page') :
    page'.Sound fields pageCount signedOn := by
  have hshown {f : TemplateField} (hf : page.shows f = true) : f ∈ fields ∧ onPage pageCount f = true := by
    simp only [Page.shows, Bool.and_eq_true, decide_eq_true_eq] at hf
    exact ⟨h.layout.1 ▸ hf.1.2, h.layout.2 ▸ hf.2⟩
  -- What leaves the boxes and the dialog as they are.
  have hsame {page' : Page} (hfields : page'.fields = page.fields ∧ page'.pageCount = page.pageCount)
      (hfilled : page'.filled = page.filled) (hadopted : page'.adopted = page.adopted)
      (hpending : page'.pendingField = page.pendingField) (hopen : page'.adoptOpen = page.adoptOpen) :
      page'.Sound fields pageCount signedOn := by
    refine ⟨⟨hfields.1.trans h.layout.1, hfields.2.trans h.layout.2⟩, ?_, ?_, ?_, ?_⟩
    · rw [hfilled, hadopted]
      exact h.boxes
    · rw [hpending]
      exact h.pending
    · rw [hopen, hadopted]
      exact h.dialog
    · rw [hopen, hadopted]
      exact h.clicked
  cases event with
  | consent ok =>
      simp only [Page.step, Option.ite_none_left_eq_some, Option.some.injEq] at hstep
      obtain ⟨-, rfl⟩ := hstep
      cases ok <;> exact hsame ⟨rfl, rfl⟩ rfl rfl rfl rfl
  | clickSignature f =>
      simp only [Page.step, Option.ite_none_right_eq_some, Option.some.injEq, Bool.and_eq_true, beq_iff_eq] at hstep
      obtain ⟨⟨hf, hkind⟩, rfl⟩ := hstep
      exact h.onSignatureFieldClick hids (hshown hf).1 hkind (hshown hf).2
  | adopt sig =>
      simp only [Page.step, Option.ite_none_right_eq_some, Option.some.injEq] at hstep
      obtain ⟨hopen, rfl⟩ := hstep
      exact h.onAdopt hids hopen sig
  | closeDialog =>
      simp only [Page.step, Option.ite_none_right_eq_some, Option.some.injEq] at hstep
      obtain ⟨hopen, rfl⟩ := hstep
      exact ⟨h.layout, h.boxes, by simp, by simp, fun _ => h.clicked (Or.inl hopen)⟩
  | tick f checked =>
      simp only [Page.step, Option.ite_none_right_eq_some, Option.some.injEq, Bool.and_eq_true, beq_iff_eq] at hstep
      obtain ⟨⟨hf, htype⟩, rfl⟩ := hstep
      have hkind : fieldKind f = .input := by simp [fieldKind, htype, SIGNATURE_KINDS, AUTO_KINDS]
      refine h.setFilled hids (hshown hf).1 (mayHold_input hkind (hshown hf).2 ?_)
      cases checked <;> decide
  | choose f value =>
      simp only [Page.step, Option.ite_none_right_eq_some, Option.some.injEq, Bool.and_eq_true, Bool.or_eq_true,
        beq_iff_eq, List.contains_iff_mem] at hstep
      obtain ⟨⟨⟨hf, htype⟩, hvalue⟩, rfl⟩ := hstep
      have hkind : fieldKind f = .input := by
        rcases htype with htype | htype <;> simp [fieldKind, htype, SIGNATURE_KINDS, AUTO_KINDS]
      refine h.setFilled hids (hshown hf).1 (mayHold_input hkind (hshown hf).2 ?_)
      rcases hvalue with rfl | hoption
      · exact Nat.zero_le _
      · have hlength := (option_length (hschema f (hshown hf).1) hoption).2
        omega
  | typeIn f raw =>
      simp only [Page.step, Option.ite_none_right_eq_some, Option.some.injEq, Bool.and_eq_true, beq_iff_eq] at hstep
      obtain ⟨⟨⟨hf, hkind⟩, -⟩, rfl⟩ := hstep
      exact h.setFilled hids (hshown hf).1 (mayHold_input hkind (hshown hf).2 (length_sanitizeFieldInput hkind raw))
  | finish =>
      simp only [Page.step, Option.map_eq_some_iff] at hstep
      obtain ⟨-, -, rfl⟩ := hstep
      exact hsame ⟨rfl, rfl⟩ rfl rfl rfl rfl
  | answered status =>
      simp only [Page.step, Option.ite_none_left_eq_some] at hstep
      obtain ⟨-, hstep⟩ := hstep
      split at hstep
      · obtain rfl := Option.some.inj hstep
        exact hsame ⟨rfl, rfl⟩ rfl rfl rfl rfl
      · split at hstep
        · obtain rfl := Option.some.inj hstep
          exact hsame ⟨rfl, rfl⟩ rfl rfl rfl rfl
        · split at hstep <;> obtain rfl := Option.some.inj hstep <;> exact hsame ⟨rfl, rfl⟩ rfl rfl rfl rfl

theorem sound_of_run (hids : (fields.map (·.id)).Nodup) (hschema : ∀ f ∈ fields, TemplateFieldSchema P f = true)
    {consented : Bool} {events : List Event}
    (hrun : events.foldlM (Page.step P) (Page.opened fields pageCount consented signedOn) = some page) :
    page.Sound fields pageCount signedOn :=
  invariant_of_run (fun _ _ _ h hstep => step_sound hids hschema h hstep) (opened_sound hids consented) hrun

/-! ## What Finish sends -/

/-- The bounds the contract puts on a submission. -/
def SubmitSignatureSchema (dto : SubmitSignature) : Prop :=
  (js "data:image/png;base64," <+: dto.signatureImage ∧ dto.signatureImage.length ≤ 3000000) ∧
    ∀ id v, dto.fieldValues id = some v → v.length ≤ 500

/-- What is sent and what is stored, next to what the page shows. -/
structure SentAsShown (P : Platform) (fields : List TemplateField) (filled : Values) (body : SubmitSignature)
    (signedAt : Int) : Prop where
  /-- No value is longer than the contract allows. -/
  bounded : ∀ id v, body.fieldValues id = some v → v.length ≤ 500
  /-- Whether the contract lets the body in is up to the image. -/
  contract : SubmitSignatureSchema body ↔
    js "data:image/png;base64," <+: body.signatureImage ∧ body.signatureImage.length ≤ 3000000
  oneImage : ∀ f ∈ fields, fieldKind f = .signature → ∀ v, filled f.id = some v → v = body.signatureImage
  required : ∀ f ∈ fields, fieldKind f = .signature → f.required = true → filled f.id = some body.signatureImage
  accepted : (resolveFieldValues P fields body.fieldValues signedAt).accepted = true
  stored : ∀ f ∈ fields, (resolveFieldValues P fields body.fieldValues signedAt).values f.id =
    match fieldKind f with
    | .signature => none
    | .auto => some (Signing.autoValue f.type signedAt)
    | .input => if shown filled f.id = [] then none else some (shown filled f.id)

theorem submission_eq_some {body : SubmitSignature} (h : page.submission P = some body) :
    canFinish P page.fields page.filled = true ∧
      ∃ sig, page.adopted = some sig ∧ body = ⟨sig.method, sig.dataUrl, onFinish page.fields page.filled⟩ := by
  unfold Page.submission at h
  split at h
  · cases h
  · rename_i hready
    simp only [Page.ready, Bool.or_eq_true, Bool.not_eq_true', not_or, Bool.not_eq_false, Bool.and_eq_true] at hready
    obtain ⟨sig, hsig, rfl⟩ := Option.map_eq_some_iff.mp h
    exact ⟨hready.1.2.1, sig, hsig, rfl⟩

/-- The one field of its id is the last to write under it, if it writes. -/
theorem lastWriter_of_mem (hids : (fields.map (·.id)).Nodup) {f : TemplateField} (hf : f ∈ fields)
    (clientValues : Values) :
    lastWriter fields clientValues f.id = if writes clientValues f = true then some f else none := by
  unfold lastWriter
  cases hlast : (fields.filter fun g => g.id == f.id && writes clientValues g).getLast? with
  | none =>
      have hnil := List.getLast?_eq_none_iff.mp hlast
      have hnot := List.filter_eq_nil_iff.mp hnil f hf
      rw [if_neg fun h => hnot (by simp [h])]
  | some g =>
      obtain ⟨hg, hwrites⟩ := List.mem_filter.mp (List.mem_of_getLast? hlast)
      rw [Bool.and_eq_true, beq_iff_eq] at hwrites
      obtain rfl := eq_of_same_id hids hf hg hwrites.1
      rw [if_pos hwrites.2]

/-- What is stored under the id of a field, when nothing is refused. -/
theorem stored_as_shown (hids : (fields.map (·.id)).Nodup) {filled : Values} (signedAt : Int)
    (hvalid : (resolveFieldValues P fields (onFinish fields filled) signedAt).invalid = [])
    {f : TemplateField} (hf : f ∈ fields) :
    (resolveFieldValues P fields (onFinish fields filled) signedAt).values f.id =
      match fieldKind f with
      | .signature => none
      | .auto => some (Signing.autoValue f.type signedAt)
      | .input => if shown filled f.id = [] then none else some (shown filled f.id) := by
  have hpasses := (invalid_eq_nil_iff P fields (onFinish fields filled) signedAt).mp hvalid
  rw [values_eq_lastWriter hpasses, lastWriter_of_mem hids hf]
  cases hkind : fieldKind f with
  | signature =>
      have himage := (fieldKind_signature_iff f).mp hkind
      have hauto : Signing.AUTO_KINDS f.type = false := by
        revert himage
        cases f.type <;> simp [IMAGE_KINDS, Signing.AUTO_KINDS]
      simp [writes, Typed, himage, hauto]
  | auto =>
      have hauto := (fieldKind_auto_iff f).mp hkind
      simp [writes, written, hauto]
  | input =>
      have htyped := (fieldKind_input_iff f).mp hkind
      have hauto := not_auto_of_typed htyped
      have hread := supplied_onFinish filled hf (by simp [hkind])
      by_cases hempty : shown filled f.id = []
      · simp [writes, hauto, hread, hempty]
      · simp [writes, written, htyped, hauto, hread, hempty]

/-- Where Finish is on offer, every required box but Date Signed is filled. -/
theorem shown_of_canFinish {filled : Values} (hfinish : canFinish P fields filled = true) {f : TemplateField}
    (hf : f ∈ fields) (hrequired : f.required = true) (hkind : fieldKind f ≠ .auto) : shown filled f.id ≠ [] := by
  have hnil : blockingFields P fields filled = [] := by simpa [canFinish] using hfinish
  have hunsigned := ((blockingFields_eq_nil_iff P fields filled).mp hnil).1
  rw [unsignedFields_eq, List.filter_eq_nil_iff] at hunsigned
  have hauto : (fieldKind f != .auto) = true := bne_iff_ne.mpr hkind
  simpa [hrequired, hauto] using hunsigned f hf

theorem filled_of_canFinish {filled : Values} (hfinish : canFinish P fields filled = true) {f : TemplateField}
    (hf : f ∈ fields) (hrequired : f.required = true) (hkind : fieldKind f ≠ .auto) : ∃ v, filled f.id = some v := by
  have hshown := shown_of_canFinish hfinish hf hrequired hkind
  cases hv : filled f.id with
  | none =>
      have hblank : shown filled f.id = [] := by
        rw [shown, hv]
        rfl
      exact absurd hblank hshown
  | some v => exact ⟨v, rfl⟩

theorem length_of_sent (h : page.Sound fields pageCount signedOn) (hday : signedOn.length ≤ 500) {id v : JsString}
    (hv : onFinish fields page.filled id = some v) : v.length ≤ 500 := by
  rw [onFinish_apply] at hv
  split at hv
  · rename_i hsender
    obtain ⟨f, hf, hkind, rfl⟩ := hsender
    have hfilled : page.filled f.id = some v := by
      unfold sent at hv
      split at hv
      · cases hv
      · rename_i w hw
        split at hv
        · cases hv
        · rw [hw, hv]
    have hmay := h.boxes f hf v hfilled
    unfold MayHold at hmay
    cases hkind' : fieldKind f with
    | signature => exact absurd hkind' hkind
    | auto =>
        rw [hkind'] at hmay
        exact hmay ▸ hday
    | input =>
        rw [hkind'] at hmay
        exact hmay.2
  · cases hv

/-- **Finish sends what the page shows**, whatever the signer did before: the body keeps to the bounds of the
contract but for the image, the server accepts it and stores each box as it is shown, and the image sent is the
one every signature box shows. -/
theorem finish_sends_what_is_shown (hids : (fields.map (·.id)).Nodup)
    (hschema : ∀ f ∈ fields, TemplateFieldSchema P f = true) (hday : signedOn.length ≤ 500)
    {consented : Bool} {events : List Event} {body : SubmitSignature}
    (hrun : events.foldlM (Page.step P) (Page.opened fields pageCount consented signedOn) = some page)
    (hsent : page.submission P = some body) (signedAt : Int) :
    SentAsShown P fields page.filled body signedAt := by
  have hsound := sound_of_run hids hschema hrun
  obtain ⟨hfinish, sig, hsig, rfl⟩ := submission_eq_some hsent
  rw [hsound.layout.1] at hfinish ⊢
  have hone {f : TemplateField} (hf : f ∈ fields) (hkind : fieldKind f = .signature) {v : JsString}
      (hv : page.filled f.id = some v) : v = sig.dataUrl := by
    have hmay := hsound.boxes f hf v hv
    rw [MayHold, hkind, hsig] at hmay
    obtain ⟨sig', hsig', rfl⟩ := hmay
    obtain rfl := Option.some.inj hsig'
    rfl
  have hnil : blockingFields P fields page.filled = [] := by simpa [canFinish] using hfinish
  obtain ⟨hunsigned, hrefused⟩ := (blockingFields_eq_nil_iff P fields page.filled).mp hnil
  have hmissing := unsigned_ids P fields page.filled signedAt
  have hinvalid := invalid_ids P fields page.filled signedAt
  rw [hunsigned] at hmissing
  rw [hrefused] at hinvalid
  have hbounded : ∀ id v, onFinish fields page.filled id = some v → v.length ≤ 500 :=
    fun id v hv => length_of_sent hsound hday hv
  refine ⟨hbounded, ⟨fun h => h.1, fun h => ⟨h, hbounded⟩⟩, ?_, ?_, ?_, ?_⟩
  · exact fun f hf hkind v hv => hone hf hkind hv
  · intro f hf hkind hrequired
    obtain ⟨v, hv⟩ := filled_of_canFinish hfinish hf hrequired (by simp [hkind])
    rw [hv, hone hf hkind hv]
  · simp [ResolvedFieldValues.accepted, ← hmissing, ← hinvalid]
  · exact fun f hf => stored_as_shown hids signedAt hinvalid.symm hf

/-- A signature box and a text box. -/
def twoBoxes : List TemplateField :=
  [{ boxField .signature none with id := js "0e37df36-f698-11e6-8dd4-cb9ced3df976" }, boxField .text none]

/-- The signature is adopted, a text is typed, and Finish is on offer. -/
theorem finish_sends_two_boxes : ∃ page body,
    [Event.clickSignature (twoBoxes.head (by decide)), .adopt ⟨js "data:image/png;base64,iVBO", .drawn⟩,
      .typeIn (boxField .text none) (js " Ali")].foldlM (Page.step boxPlatform)
        (Page.opened twoBoxes 1 true (js "1/2/2026")) = some page ∧
      page.submission boxPlatform = some body ∧ SentAsShown boxPlatform twoBoxes page.filled body 0 := by
  have hrun : (([Event.clickSignature (twoBoxes.head (by decide)), .adopt ⟨js "data:image/png;base64,iVBO", .drawn⟩,
      .typeIn (boxField .text none) (js " Ali")].foldlM (Page.step boxPlatform)
        (Page.opened twoBoxes 1 true (js "1/2/2026"))).bind (Page.submission boxPlatform)).isSome = true := by
    decide +kernel
  obtain ⟨body, hbody⟩ := Option.isSome_iff_exists.mp hrun
  obtain ⟨page, hpage, hsent⟩ := Option.bind_eq_some_iff.mp hbody
  exact ⟨page, body, hpage, hsent,
    finish_sends_what_is_shown (by decide +kernel) (by decide +kernel) (by decide) hpage hsent 0⟩

/-- **A document without a signature box on one of its pages never offers Finish**: there is nothing to click that
opens the dialog. -/
theorem finish_needs_a_signature_box (hids : (fields.map (·.id)).Nodup)
    (hschema : ∀ f ∈ fields, TemplateFieldSchema P f = true)
    {consented : Bool} {events : List Event}
    (hrun : events.foldlM (Page.step P) (Page.opened fields pageCount consented signedOn) = some page)
    (hready : page.ready P = true) : ∃ f ∈ fields, fieldKind f = .signature ∧ onPage pageCount f = true := by
  have hsound := sound_of_run hids hschema hrun
  rw [Page.ready, Bool.and_eq_true] at hready
  exact hsound.clicked (Or.inr hready.2)

end Sound

end ESignSoft.Signing.Ceremony
