import ESignSoft.Signing.SigningPage
import ESignSoft.Signing.TypingFilter

/-!
# Whether Finish can be reached

Some layouts a sender may send cannot be finished, whatever their signer does: Finish waits for a signature, and
only a signature box on a page of the document opens the dialog it is adopted in; a required box that is on no
page is never filled; a required choice must be one of the options after trimming, and the options are compared
as they were written.

* `Fits` — a value that can be put into a box, and that the page then has nothing against;
* `exists_fits` — every box the signer fills has one, a choice where it can be made;
* `finish_reachable_iff` — those are all that can stand in the way, where each box has an id of its own.
-/

namespace ESignSoft.Signing.Ceremony

open ESignSoft.Lib ESignSoft.Lib.JsText ESignSoft.Contracts ESignSoft.Envelope

variable {P : Platform} {fields : List TemplateField} {pageCount : Nat} {signedOn : JsString} {page : Page}

/-! ## Values that fit -/

/-- The event that puts the value into its box: one click where it is a checkbox. -/
def enter (f : TemplateField) (v : JsString) : Event :=
  if f.type = .checkbox then .tick f true
  else if f.type = .dropdown ∨ f.type = .radio then .choose f v
  else .typeIn f v

/-- The value goes into the box, the box then counts as filled, and the page has nothing against it. -/
structure Fits (P : Platform) (f : TemplateField) (v : JsString) : Prop where
  filled : trim v ≠ []
  noProblem : fieldProblem P f v = none
  entered : ∀ page : Page, page.shows f = true → page.step P (enter f v) = some (page.setFilled f.id v)

/-- A valid value with no blank around it is what the box then holds, letter by letter. -/
theorem fits_typed (hunicode : UnicodeClasses P) (hemail : AddressesHaveNoBlank P) {f : TemplateField}
    {rule : FieldValueRule} (hrule : FIELD_VALUE_RULES P f.type = some rule)
    (htext : f.type ≠ .checkbox ∧ f.type ≠ .dropdown ∧ f.type ≠ .radio) {v : JsString}
    (hne : v ≠ []) (htrim : trim v = v) (hlength : v.length ≤ rule.max) (hvalid : rule.valid v = true) :
    Fits P f v := by
  obtain ⟨hcheckbox, hdropdown, hradio⟩ := htext
  have hinput : fieldKind f = .input := by
    have hnone : (IMAGE_KINDS f.type || Signing.AUTO_KINDS f.type) = false := by
      rw [← Bool.not_eq_true, ← rule_eq_none_iff P, hrule]
      simp
    rw [Bool.or_eq_false_iff] at hnone
    rw [fieldKind_input_iff, Typed, hnone.1, hnone.2]
    rfl
  have hproblem : fieldValueProblem P f.type v = none := by
    unfold fieldValueProblem
    rw [hrule]
    simp [htrim, hne, hlength, hvalid]
  have hkept : sanitizeFieldInput P f.type v = v :=
    sanitizeFieldInput_eq_self hrule
      (allKept_of_valid hunicode (charsOf_rule hemail hrule) hvalid fun _ hu => hu) hlength
  refine ⟨by rwa [htrim], ?_, fun page hshows => ?_⟩
  · simp [fieldProblem, hinput, htrim, hne, hdropdown, hradio, hproblem]
  · simp [enter, hinput, hcheckbox, hdropdown, hradio, Page.step, hshows, hkept]

theorem fits_checkbox {f : TemplateField} (htype : f.type = .checkbox) : Fits P f (js "true") := by
  have hinput : fieldKind f = .input := by simp [fieldKind, htype, SIGNATURE_KINDS, AUTO_KINDS]
  have htrim : trim (js "true") = js "true" := by decide
  have hlength : (js "true").length = 4 := by decide
  refine ⟨by decide, ?_, fun page hshows => ?_⟩
  · simp [fieldProblem, hinput, htype, fieldValueProblem, FIELD_VALUE_RULES, htrim, hlength]
  · simp [enter, htype, Page.step, hshows]

theorem fits_choice {f : TemplateField} (hschema : TemplateFieldSchema P f = true)
    (hchoice : CHOICE_KINDS f.type = true) {option : JsString} (ho : option ∈ f.options.getD [])
    (htrim : trim option = option) : Fits P f option := by
  obtain ⟨hlow, hhigh⟩ := option_length hschema ho
  have hne : option ≠ [] := List.length_pos_iff.mp hlow
  have hinput := (fieldKind_input_iff f).mpr (typed_of_choice hchoice)
  have htype : f.type = .dropdown ∨ f.type = .radio := by simpa [CHOICE_KINDS] using hchoice
  have hcheckbox : f.type ≠ .checkbox := by rcases htype with htype | htype <;> simp [htype]
  have hproblem : fieldValueProblem P f.type option = none := by
    unfold fieldValueProblem
    rw [choice_rule P hchoice]
    simpa [htrim, hne, choice] using hhigh
  refine ⟨by rwa [htrim], ?_, fun page hshows => ?_⟩
  · simp [fieldProblem, hinput, htrim, hne, ho, hproblem]
  · simp [enter, hcheckbox, htype, Page.step, hshows, ho]

/-- The choices can be made: an option with no blank around it is offered. -/
def Choosable (f : TemplateField) : Prop :=
  CHOICE_KINDS f.type = true → ∃ option ∈ f.options.getD [], trim option = option

/-- What the library takes for an address and what a box for one holds. -/
def HasAddress (P : Platform) : Prop := ∃ v, v ≠ [] ∧ v.length ≤ 254 ∧ P.email v = true

theorem exists_fits (hunicode : UnicodeClasses P) (hemail : AddressesHaveNoBlank P) (haddress : HasAddress P)
    {f : TemplateField} (hschema : TemplateFieldSchema P f = true) (hkind : fieldKind f = .input)
    (hchoice : Choosable f) : ∃ v, Fits P f v := by
  have htyped {rule : FieldValueRule} (hrule : FIELD_VALUE_RULES P f.type = some rule)
      (htext : f.type ≠ .checkbox ∧ f.type ≠ .dropdown ∧ f.type ≠ .radio) {v : JsString}
      (hne : v ≠ []) (htrim : trim v = v) (hlength : v.length ≤ rule.max) (hvalid : rule.valid v = true) :
      ∃ v, Fits P f v :=
    ⟨v, fits_typed hunicode hemail hrule htext hne htrim hlength hvalid⟩
  have hoption (htype : CHOICE_KINDS f.type = true) : ∃ v, Fits P f v := by
    obtain ⟨option, ho, htrim⟩ := hchoice htype
    exact ⟨option, fits_choice hschema htype ho htrim⟩
  cases htype : f.type with
  | signature | initial | stamp | date => simp [fieldKind, htype, SIGNATURE_KINDS, AUTO_KINDS] at hkind
  | checkbox => exact ⟨js "true", fits_checkbox htype⟩
  | dropdown | radio => exact hoption (by simp [CHOICE_KINDS, htype])
  | email =>
      obtain ⟨v, hne, hlength, hvalid⟩ := haddress
      have hblank := hemail v hvalid
      have htrim : trim v = v := by
        have hleft : v.dropWhile isWhiteSpace = v := by
          cases v with
          | nil => rfl
          | cons u v => exact List.dropWhile_cons_of_neg (by simp [hblank u (by simp)])
        rw [trim, hleft]
        exact List.rdropWhile_eq_self_iff.mpr fun hl => by simp [hblank _ (List.getLast_mem hl)]
      exact htyped (by rw [htype]; rfl) (by simp [htype]) hne htrim hlength hvalid
  | name | first_name | last_name =>
      exact htyped (v := js "A") (by rw [htype]; rfl) (by simp [htype]) (by decide) (by decide)
        (by simp only [personName]; decide) (by simp only [personName]; decide)
  | company | title | text | address =>
      exact htyped (v := js "A") (by rw [htype]; rfl) (by simp [htype]) (by decide) (by decide) (by decide) (by decide)
  | number =>
      exact htyped (v := js "1") (by rw [htype]; rfl) (by simp [htype]) (by decide) (by decide) (by decide) (by decide)
  | phone =>
      exact htyped (v := js "1234567") (by rw [htype]; rfl) (by simp [htype]) (by decide) (by decide) (by decide)
        (by decide)
  | date_input =>
      exact htyped (v := js "2000-01-01") (by rw [htype]; rfl) (by simp [htype]) (by decide) (by decide +kernel)
        (by decide) (by decide +kernel)

/-! ## Filling the boxes one by one -/

/-- The boxes are on the screen, a signature is adopted and no box holds what the page refuses. -/
structure Page.Working (P : Platform) (fields : List TemplateField) (pageCount : Nat) (page : Page) : Prop where
  layout : page.fields = fields ∧ page.pageCount = pageCount
  onScreen : (page.done || page.dead || !page.consented || page.submitting) = false
  adopted : page.adopted.isSome = true
  noProblem : ∀ f ∈ fields, fieldProblem P f ((page.filled f.id).getD []) = none

theorem Page.Working.shows (h : page.Working P fields pageCount) {f : TemplateField} (hf : f ∈ fields)
    (hpage : onPage pageCount f = true) : page.shows f = true := by
  have hopen := h.onScreen
  simp only [Bool.or_eq_false_iff, Bool.not_eq_false'] at hopen
  simp [Page.shows, h.layout, hf, hpage, hopen]

theorem Page.Working.setFilled (hids : (fields.map (·.id)).Nodup) (h : page.Working P fields pageCount)
    {f : TemplateField} (hf : f ∈ fields) {v : JsString} (hv : fieldProblem P f v = none) :
    (page.setFilled f.id v).Working P fields pageCount := by
  refine ⟨h.layout, h.onScreen, h.adopted, fun g hg => ?_⟩
  by_cases hid : g.id = f.id
  · obtain rfl := eq_of_same_id hids hf hg hid
    simpa [Page.setFilled] using hv
  · simpa [Page.setFilled, hid] using h.noProblem g hg

/-- Any boxes on the screen that have a value that fits can be filled, and what is filled stays so. -/
theorem exists_filling (hids : (fields.map (·.id)).Nodup) {boxes : List TemplateField}
    (hboxes : ∀ f ∈ boxes, f ∈ fields ∧ onPage pageCount f = true ∧ ∃ v, Fits P f v)
    (h : page.Working P fields pageCount) :
    ∃ (events : List Event) (page' : Page), events.foldlM (Page.step P) page = some page' ∧
      page'.Working P fields pageCount ∧ (∀ f ∈ boxes, shown page'.filled f.id ≠ []) ∧
      ∀ id, shown page.filled id ≠ [] → shown page'.filled id ≠ [] := by
  induction boxes generalizing page with
  | nil => exact ⟨[], page, rfl, h, by simp, fun _ hid => hid⟩
  | cons f boxes ih =>
      obtain ⟨hf, hpage, v, hfits⟩ := hboxes f (by simp)
      have hstep := hfits.entered page (h.shows hf hpage)
      have hworking := h.setFilled hids hf hfits.noProblem
      have hself : shown (page.setFilled f.id v).filled f.id ≠ [] := by
        simpa [Page.setFilled, shown] using hfits.filled
      have hkept (id : JsString) (hid : shown page.filled id ≠ []) :
          shown (page.setFilled f.id v).filled id ≠ [] := by
        by_cases heq : id = f.id
        · exact heq ▸ hself
        · simpa [Page.setFilled, shown, heq] using hid
      obtain ⟨events, page', hrun, hworking', hfilled, hstays⟩ :=
        ih (fun g hg => hboxes g (List.mem_cons_of_mem _ hg)) hworking
      refine ⟨enter f v :: events, page', ?_, hworking', ?_, fun id hid => hstays id (hkept id hid)⟩
      · rw [foldlM_cons_eq hstep, hrun]
      · intro g hg
        rcases List.mem_cons.mp hg with rfl | hg
        · exact hstays g.id hself
        · exact hfilled g hg

/-! ## From the link to Finish -/

/-- Something the signer can do brings the page to offer Finish. -/
def Finishable (P : Platform) (fields : List TemplateField) (pageCount : Nat) (consented : Bool)
    (signedOn : JsString) : Prop :=
  ∃ (events : List Event) (page : Page),
    events.foldlM (Page.step P) (Page.opened fields pageCount consented signedOn) = some page ∧
      (page.submission P).isSome = true

variable (P signedOn) in
/-- What a signature box on the screen leads to: agree, click it, adopt a signature, and every signature box shows
it, on the screen or not. -/
theorem exists_adopted (hids : (fields.map (·.id)).Nodup) {f : TemplateField} (hf : f ∈ fields)
    (hkind : fieldKind f = .signature) (hpage : onPage pageCount f = true) (consented : Bool)
    {sig : AdoptedSignature} (hsig : trim sig.dataUrl ≠ []) :
    ∃ (events : List Event) (page : Page),
      events.foldlM (Page.step P) (Page.opened fields pageCount consented signedOn) = some page ∧
        page.Working P fields pageCount ∧
        ∀ g ∈ fields, fieldKind g = .signature → shown page.filled g.id ≠ [] := by
  let agreed : Page := Page.opened fields pageCount true signedOn
  let clicked : Page := agreed.onSignatureFieldClick f.id
  have hagree : (if consented then [] else [Event.consent true]).foldlM (Page.step P)
      (Page.opened fields pageCount consented signedOn) = some agreed := by
    cases consented <;> rfl
  have hclick : agreed.step P (.clickSignature f) = some clicked := by
    simp [agreed, clicked, Page.step, Page.shows, Page.opened, hf, hkind, hpage]
  have hadopt : clicked.step P (.adopt sig) = some (clicked.onAdopt sig) := rfl
  have hsound : (clicked.onAdopt sig).Sound fields pageCount signedOn :=
    ((opened_sound hids true).onSignatureFieldClick hids hf hkind hpage).onAdopt hids rfl sig
  refine ⟨(if consented then [] else [Event.consent true]) ++ [.clickSignature f, .adopt sig], clicked.onAdopt sig,
    ?_, ⟨⟨rfl, rfl⟩, rfl, rfl, fun g hg => ?_⟩, fun g hg hmark => ?_⟩
  · rw [List.foldlM_append, hagree]
    change [Event.clickSignature f, .adopt sig].foldlM (Page.step P) agreed = _
    rw [foldlM_cons_eq hclick, foldlM_cons_eq hadopt]
    rfl
  · by_cases hinput : fieldKind g = .input
    · -- Nothing has been written into a box the signer fills.
      have hempty : (clicked.onAdopt sig).filled g.id = none := by
        refine Option.eq_none_iff_forall_not_mem.mpr fun v hv => ?_
        have hother (kind : FieldKind) (hne : kind ≠ .input) :
            ¬ ∃ h ∈ fields, fieldKind h = kind ∧ h.id = g.id := by
          rintro ⟨h, hh, rfl, hid⟩
          exact hne (eq_of_same_id hids hg hh hid ▸ hinput)
        have hadopted : fillEmpty .signature (fun _ => sig.dataUrl) fields
            (Function.update (fillEmpty .auto (fun f => autoValue f signedOn) fields fun _ => none) f.id
              (some sig.dataUrl)) g.id = some v := hv
        rcases fillEmpty_eq_some hadopted with hrest | ⟨h, hh, hmark, hid, -⟩
        · have hid : g.id ≠ f.id := fun h => hother .signature (by simp) ⟨f, hf, hkind, h.symm⟩
          rw [Function.update_of_ne hid] at hrest
          rcases fillEmpty_eq_some hrest with hnothing | ⟨h, hh, hauto, hid, -⟩
          · cases hnothing
          · exact hother .auto (by simp) ⟨h, hh, hauto, hid⟩
        · exact hother .signature (by simp) ⟨h, hh, hmark, hid⟩
      have hblank : trim [] = [] := rfl
      simp [hempty, fieldProblem, hinput, hblank]
    · simp [fieldProblem, hinput]
  · have hdataUrl : sig.dataUrl ≠ [] := by
      intro hnil
      rw [hnil] at hsig
      exact hsig rfl
    have hfilled : ((clicked.onAdopt sig).filled g.id).getD [] ≠ [] :=
      fillEmpty_filled (fun _ => hdataUrl) hg hmark
    cases hv : (clicked.onAdopt sig).filled g.id with
    | none => simp [hv] at hfilled
    | some v =>
        -- A signature box holds nothing but the signature adopted.
        have hmay := hsound.boxes g hg v hv
        rw [MayHold, hmark] at hmay
        obtain ⟨sig', hsame, rfl⟩ := hmay
        obtain rfl := Option.some.inj hsame
        simpa [shown, hv] using hsig

/-- A page that reports nothing offers Finish. -/
theorem Page.Working.submission_isSome (h : page.Working P fields pageCount)
    (hfilled : ∀ f ∈ fields, f.required = true → fieldKind f ≠ .auto → shown page.filled f.id ≠ []) :
    (page.submission P).isSome = true := by
  have hunsigned : unsignedFields fields page.filled = [] := by
    rw [unsignedFields_eq, List.filter_eq_nil_iff]
    intro f hf
    simp only [Bool.and_eq_true, bne_iff_ne, beq_iff_eq, not_and]
    exact fun hreported => hfilled f hf hreported.1 hreported.2
  have hinvalid : invalidFields P fields page.filled = [] := by
    rw [invalidFields_eq, List.filter_eq_nil_iff]
    intro f hf
    simp [h.noProblem f hf]
  have hfinish : canFinish P page.fields page.filled = true := by
    rw [h.layout.1, canFinish, (blockingFields_eq_nil_iff P fields page.filled).mpr ⟨hunsigned, hinvalid⟩]
    rfl
  have hopen := h.onScreen
  simp only [Bool.or_eq_false_iff] at hopen
  simp [Page.submission, Page.ready, hfinish, h.adopted, hopen]

/-- Whoever finished has chosen an offered option in every required choice. -/
theorem choosable_of_canFinish {filled : Values} (hfinish : canFinish P fields filled = true) {f : TemplateField}
    (hf : f ∈ fields) (hrequired : f.required = true) : Choosable f := by
  intro hchoice
  have hinput := (fieldKind_input_iff f).mpr (typed_of_choice hchoice)
  have hnil : blockingFields P fields filled = [] := by simpa [canFinish] using hfinish
  have hrefused := ((blockingFields_eq_nil_iff P fields filled).mp hnil).2
  rw [invalidFields_eq, List.filter_eq_nil_iff] at hrefused
  have hfilled := shown_of_canFinish hfinish hf hrequired (by simp [hinput])
  have hproblem : fieldProblem P f ((filled f.id).getD []) = none := by simpa using hrefused f hf
  have hread := supplied_onFinish filled hf (by simp [hinput])
  have hpasses := (fieldProblem_eq_none_iff hread).mp hproblem (typed_of_choice hchoice) (by rwa [hread])
  have hoffered := hpasses.1
  rw [offered, hchoice, hread, Bool.not_true, Bool.false_or, List.contains_iff_mem] at hoffered
  exact ⟨shown filled f.id, hoffered, trim_trim _⟩

/-- **A layout can be finished** exactly when it has a signature box on a page of the document, every required box
its signer fills is on such a page too, and every required choice has an option with no blank around it.  Boxes of
one id would share what they hold, so each has its own here. -/
theorem finish_reachable_iff (hunicode : UnicodeClasses P) (hemail : AddressesHaveNoBlank P)
    (haddress : HasAddress P) (hids : (fields.map (·.id)).Nodup)
    (hschema : ∀ f ∈ fields, TemplateFieldSchema P f = true) (pageCount : Nat) (consented : Bool)
    (signedOn : JsString) :
    Finishable P fields pageCount consented signedOn ↔
      (∃ f ∈ fields, fieldKind f = .signature ∧ onPage pageCount f = true) ∧
        ∀ f ∈ fields, f.required = true → fieldKind f = .input → onPage pageCount f = true ∧ Choosable f := by
  constructor
  · rintro ⟨events, page, hrun, hoffered⟩
    have hsound := sound_of_run hids hschema hrun
    obtain ⟨body, hbody⟩ := Option.isSome_iff_exists.mp hoffered
    obtain ⟨hfinish, sig, hsig, -⟩ := submission_eq_some hbody
    rw [hsound.layout.1] at hfinish
    refine ⟨hsound.clicked (Or.inr (by simp [hsig])), fun f hf hrequired hinput => ⟨?_, ?_⟩⟩
    · -- What a box holds was written on the screen.
      obtain ⟨v, hv⟩ := filled_of_canFinish hfinish hf hrequired (by simp [hinput])
      have hmay := hsound.boxes f hf v hv
      rw [MayHold, hinput] at hmay
      exact hmay.1
    · exact choosable_of_canFinish hfinish hf hrequired
  · rintro ⟨⟨f, hf, hkind, hpage⟩, hboxes⟩
    let sig : AdoptedSignature := ⟨js "data:image/png;base64,", .typed⟩
    have hsig : trim sig.dataUrl ≠ [] := by decide
    obtain ⟨before, page, hbefore, hworking, hsigned⟩ :=
      exists_adopted P signedOn hids hf hkind hpage consented hsig
    have hfits : ∀ g ∈ fields.filter (fun g => g.required && fieldKind g == .input),
        g ∈ fields ∧ onPage pageCount g = true ∧ ∃ v, Fits P g v := by
      intro g hg
      simp only [List.mem_filter, Bool.and_eq_true, beq_iff_eq] at hg
      obtain ⟨hg, hrequired, hinput⟩ := hg
      obtain ⟨hshown, hchoice⟩ := hboxes g hg hrequired hinput
      exact ⟨hg, hshown, exists_fits hunicode hemail haddress (hschema g hg) hinput hchoice⟩
    obtain ⟨events, page', hrun, hworking', hfilled, hstays⟩ := exists_filling hids hfits hworking
    refine ⟨before ++ events, page', ?_, hworking'.submission_isSome fun g hg hrequired hauto => ?_⟩
    · rw [List.foldlM_append, hbefore]
      exact hrun
    · cases hg' : fieldKind g with
      | signature => exact hstays g.id (hsigned g hg hg')
      | auto => exact absurd hg' hauto
      | input => exact hfilled g (List.mem_filter.mpr ⟨hg, by simp [hrequired, hg']⟩)

/-- A signature box and a text box can be finished on the page they are on; the text box alone, which the sender
can send since its signer has a field, and boxes on no page cannot. -/
theorem finish_reachable_iff_example :
    Finishable latinPlatform twoBoxes 1 true (js "1/2/2026") ∧
      ¬ Finishable latinPlatform [boxField .text none] 1 true (js "1/2/2026") ∧
      ¬ Finishable latinPlatform twoBoxes 0 true (js "1/2/2026") := by
  have haddress : HasAddress latinPlatform := ⟨js "a@b.c", by decide⟩
  have hiff {fields : List TemplateField} (hids : (fields.map (·.id)).Nodup)
      (hschema : ∀ f ∈ fields, TemplateFieldSchema latinPlatform f = true) (pageCount : Nat) :=
    finish_reachable_iff latinPlatform_classes latinPlatform_addresses haddress hids hschema pageCount true
      (js "1/2/2026")
  refine ⟨(hiff (by decide +kernel) (by decide +kernel) 1).mpr ⟨⟨twoBoxes.head (by decide), ?_⟩, ?_⟩, ?_, ?_⟩
  · decide +kernel
  · intro f hf _ hinput
    rcases List.mem_cons.mp hf with rfl | hf
    · exact absurd hinput (by decide +kernel)
    · obtain rfl := List.mem_singleton.mp hf
      exact ⟨by decide +kernel, fun hchoice => absurd hchoice (by decide +kernel)⟩
  · rw [hiff (by simp) (by decide +kernel)]
    rintro ⟨⟨f, hf, hkind, -⟩, -⟩
    rw [List.mem_singleton.mp hf] at hkind
    exact absurd hkind (by decide)
  · rw [hiff (by decide +kernel) (by decide +kernel)]
    rintro ⟨⟨f, -, -, hpage⟩, -⟩
    simp only [onPage, decide_eq_true_eq] at hpage
    omega

end ESignSoft.Signing.Ceremony
