import ESignSoft.Templates.Service

/-!
# What templates are good for

A layout is checked when it is written, against the pages its document had when it was measured, and stamped
much later, onto the bytes that are downloaded then.  Both are the same file, and the checks are enough.

* `every_envelope_fits` — whatever was sent can be stamped, and no field is dropped;
* `sent_as_it_was` — an envelope is one version of its template, which nothing later changes, and only its own
  send can take it back;
* `starterFields_accepted` — no starter is refused by the schema of a hand-made layout.
-/

namespace ESignSoft.Templates

open ESignSoft.Lib ESignSoft.Lib.JsText ESignSoft.Lib.Interleaving
open ESignSoft.Contracts ESignSoft.Signing ESignSoft.Tenancy

/-! ## Stamping -/

/-- A field shows something when it takes the signature's image, or there is a text to print. -/
def shows (values : Values) (f : TemplateField) : Prop := IMAGE_KINDS f.type = true ∨ (textOf values f).isSome = true

theorem stampMark_isSome_iff (T : StampTools) (values : Values) (f : TemplateField) (box : Signing.Box) :
    (stampMark T values f box).isSome = true ↔ shows values f := by
  unfold stampMark shows textOf
  by_cases himage : IMAGE_KINDS f.type = true
  · simp [himage]
  · rw [if_neg himage, if_neg himage]
    cases values f.id with
    | none => simp [himage]
    | some raw =>
        unfold boxText
        simp only [Option.bind_some, himage, Bool.false_eq_true, false_or]
        split
        · rfl
        · split
          · split <;> rfl
          · rfl

/-- The page of a field that is within the document. -/
theorem exists_pageOf {pages : List Page} {f : TemplateField} (hfirst : 1 ≤ f.page) (hlast : f.page ≤ pages.length) :
    ∃ page, pageOf pages f = some page := by
  unfold pageOf
  rw [if_neg (not_lt.mpr hfirst)]
  have hindex : (f.page - 1).toNat < pages.length := by omega
  exact ⟨pages[(f.page - 1).toNat], List.getElem?_eq_getElem hindex⟩

theorem one_le_page {P : Platform} {fields : List TemplateField} (h : TemplateFieldsSchema P fields = true)
    {f : TemplateField} (hf : f ∈ fields) : 1 ≤ f.page := by
  unfold TemplateFieldsSchema at h
  have hfield := List.all_eq_true.mp (Bool.and_eq_true_iff.mp h).2 f hf
  simp only [TemplateFieldSchema, Bool.and_eq_true, decide_eq_true_eq] at hfield
  tauto

/-- On upright pages that hold all of its fields, a layout is stamped in full. -/
theorem stamped_in_full {pages : List Page} {fields : List TemplateField} (hupright : ∀ page ∈ pages, page.turned = 0)
    (hpaged : ∀ f ∈ fields, 1 ≤ f.page ∧ f.page ≤ pages.length) (T : StampTools) (values : Values) :
    ∃ stamps, stampPdf T pages fields values = .ok stamps ∧
      ∀ f ∈ fields, (∃ st ∈ stamps, st.field = f) ↔ shows values f := by
  obtain ⟨stamps, hstamps⟩ := stampPdf_upright hupright T fields values
  refine ⟨stamps, hstamps, fun f hf => ?_⟩
  obtain ⟨page, hpage⟩ := exists_pageOf (hpaged f hf).1 (hpaged f hf).2
  constructor
  · rintro ⟨st, hst, rfl⟩
    obtain ⟨f, -, page, -, mark, hmark, rfl⟩ := (mem_stampPdf hstamps st).mp hst
    exact (stampMark_isSome_iff T values f _).mp (Option.isSome_iff_exists.mpr ⟨mark, hmark⟩)
  · intro hshows
    obtain ⟨mark, hmark⟩ := Option.isSome_iff_exists.mp ((stampMark_isSome_iff T values f (page.place f)).mpr hshows)
    exact ⟨⟨f, mark⟩, (mem_stampPdf hstamps _).mpr ⟨f, hf, page, hpage, mark, hmark, rfl⟩, rfl⟩

/-- A workspace with nothing in it. -/
def emptyShelf : System Shelf Stage := ⟨⟨[], [], []⟩, fun _ => .waiting⟩

variable {cfg : Settings} {s : System Shelf Stage}

theorem holds_of_reaches (hlib : cfg.library.Faithful) (h : Reaches (requests cfg) (fun _ _ => True) emptyShelf s) :
    Holds (Sound cfg) (fun s _ stage => stage.Fits cfg s) (fun _ _ => True) s := by
  refine (requests_outline hlib).holds_of_reaches h ⟨?_, fun _ => trivial, fun _ _ _ => trivial⟩
  exact ⟨List.nodup_nil, List.nodup_nil, fun t ht => absurd ht List.not_mem_nil, fun e he => absurd he List.not_mem_nil⟩

/-- **Whatever was sent can be stamped.**  In every run, the document of a request is one file, whose pages are
upright, and for whatever the signers enter, stamping it fails on no page and drops no field. -/
theorem every_envelope_fits (hlib : cfg.library.Faithful)
    (h : Reaches (requests cfg) (fun _ _ => True) emptyShelf s) : ∀ e ∈ s.shared.sent, e.request.fields ≠ [] ∧
      ∃ doc ∈ s.shared.documents, (∀ other ∈ s.shared.documents, other.id = e.documentId ↔ other = doc) ∧
        ∃ pages, cfg.library.load doc.bytes = .ok pages ∧ (∀ page ∈ pages, page.turned = 0) ∧ ∀ T values, ∃ stamps,
          stampPdf T pages e.request.fields values = .ok stamps ∧
            ∀ f ∈ e.request.fields, (∃ st ∈ stamps, st.field = f) ↔ shows values f := by
  intro e he
  have hsound := (holds_of_reaches hlib h).shared
  obtain ⟨⟨g, ⟨doc, hdoc, hid, pages, hpages⟩, hpaged⟩, haccepted, hsome⟩ := hsound.sent e he
  refine ⟨hsome, doc, hdoc, fun other hother => ⟨fun hsame => ?_, fun heq => heq ▸ hid⟩, pages, hpages.loaded,
    hpages.upright, fun T values =>
      stamped_in_full hpages.upright (fun f hf => ⟨one_le_page haccepted hf, ?_⟩) T values⟩
  · exact List.inj_on_of_nodup_map hsound.documentIds hother hdoc (hsame.trans hid.symm)
  · rw [hpages.count]
    exact hpaged f hf

/-! ## Versions -/

/-- At some point of the run so far the template was just so. -/
def Seen (cfg : Settings) (s₀ s : System Shelf Stage) (templateId documentId : JsString)
    (request : Envelope.SignatureRequest) : Prop :=
  ∃ t, Reaches (requests cfg) (fun _ _ => True) s₀ t ∧ Reaches (requests cfg) (fun _ _ => True) t s ∧
    ∃ row ∈ t.shared.templates, row.id = templateId ∧ row.documentId = documentId ∧
      request.documentName = row.name ∧ request.fields = row.fields

theorem Seen.mono {s₀ s s' : System Shelf Stage} {templateId documentId : JsString}
    {request : Envelope.SignatureRequest} (h : Seen cfg s₀ s templateId documentId request)
    (hrun : Reaches (requests cfg) (fun _ _ => True) s s') : Seen cfg s₀ s' templateId documentId request := by
  obtain ⟨t, hbefore, hafter, hrow⟩ := h
  exact ⟨t, hbefore, hafter.trans hrun, hrow⟩

/-- The name and the fields of an envelope stay what they were when it was sent. -/
theorem Seen.of_terms {s₀ s : System Shelf Stage} {templateId documentId : JsString}
    {request request' : Envelope.SignatureRequest} (h : Seen cfg s₀ s templateId documentId request)
    (hterms : terms request' = terms request) : Seen cfg s₀ s templateId documentId request' := by
  have hname : request'.documentName = request.documentName := congrArg Terms.documentName hterms
  have hfields : request'.fields = request.fields := congrArg Terms.fields hterms
  unfold Seen at h ⊢
  rwa [hname, hfields]

/-- A request in hand is a version of its template that was seen. -/
def Stage.Seen (cfg : Settings) (s₀ s : System Shelf Stage) : Stage → Prop
  | .sending templateId documentId made =>
      ∀ request ∈ made.db.request, Templates.Seen cfg s₀ s templateId documentId request
  | _ => True

/-- What one transaction of a request does to the envelopes. -/
inductive SentStep (sent : List Sent) (stage : Stage) : List Sent → Stage → Prop
  | same {stage' : Stage} (h : ∀ id, stage' ≠ .enqueuing id) : SentStep sent stage sent stage'
  /-- The row of the request in hand is added, under an id that is not taken. -/
  | added {id templateId documentId : JsString} {made : Envelope.Sending} {request : Envelope.SignatureRequest}
      (hstage : stage = .sending templateId documentId made) (hrequest : request ∈ made.db.request)
      (hnew : id ∉ sent.map Sent.id) :
      SentStep sent stage (sent ++ [⟨id, templateId, documentId, request⟩]) (.enqueuing id)
  | takenBack {id : JsString} (hstage : stage = .enqueuing id) :
      SentStep sent stage (sent.filter fun e => e.id != id) (.answered (.refused unavailable))

/-- What is there afterwards was there before, or was in hand. -/
theorem SentStep.mem {sent sent' : List Sent} {stage stage' : Stage} (h : SentStep sent stage sent' stage') :
    ∀ e ∈ sent', e ∈ sent ∨ ∃ made, stage = .sending e.templateId e.documentId made ∧ e.request ∈ made.db.request := by
  intro e he
  cases h with
  | same _ => exact Or.inl he
  | @added id templateId documentId made request hstage hrequest _ =>
      rcases List.mem_append.mp he with hold | hadded
      · exact Or.inl hold
      · obtain rfl := List.mem_singleton.mp hadded
        exact Or.inr ⟨made, hstage, hrequest⟩
  | takenBack _ => exact Or.inl (List.mem_filter.mp he).1

/-- A row stays and its id is not given to another, unless its own send takes it back. -/
theorem SentStep.kept {sent sent' : List Sent} {stage stage' : Stage} (h : SentStep sent stage sent' stage') {e : Sent}
    (he : e ∈ sent) : (e ∈ sent' ∧ stage' ≠ .enqueuing e.id) ∨
      stage = .enqueuing e.id ∧ stage' = .answered (.refused unavailable) := by
  cases h with
  | same hidle => exact Or.inl ⟨he, hidle e.id⟩
  | added _ _ hnew =>
      refine Or.inl ⟨List.mem_append_left _ he, fun hsame => hnew ?_⟩
      obtain rfl := Stage.enqueuing.inj hsame
      exact List.mem_map_of_mem he
  | @takenBack id hstage =>
      by_cases hid : e.id = id
      · exact Or.inr ⟨hid ▸ hstage, rfl⟩
      · exact Or.inl ⟨List.mem_filter.mpr ⟨he, bne_iff_ne.mpr hid⟩, nofun⟩

theorem sentStep_of_proceed {sh sh' : Shelf} {call : Call} {stage stage' : Stage}
    (h : proceed cfg sh call stage = some (sh', stage')) : SentStep sh.sent stage sh'.sent stage' := by
  unfold proceed at h
  split at h
  · split at h
    · cases h; exact SentStep.same nofun
    · split at h
      · cases h; exact SentStep.same nofun
      · cases h; exact SentStep.same nofun
  · split at h
    · cases h; exact SentStep.same nofun
    · cases h; exact SentStep.same nofun
  · split at h
    · cases h; exact SentStep.same nofun
    · cases h; exact SentStep.same nofun
  · split at h
    · cases h; exact SentStep.same nofun
    · cases h; exact SentStep.same nofun
  · rename_i id now templateId documentId made
    split at h
    · cases h
    · rename_i request hrequest
      split at h
      · cases h; exact SentStep.same nofun
      · rename_i hnew
        cases h
        exact SentStep.added rfl hrequest (not_mem_map_of_any hnew)
  · cases h; exact SentStep.same nofun
  · cases h; exact SentStep.takenBack rfl
  · cases h

/-- No further transaction of a request takes a new version in hand. -/
theorem not_sending_of_proceed {sh sh' : Shelf} {call : Call} {stage : Stage} {templateId documentId : JsString}
    {made : Envelope.Sending} : proceed cfg sh call stage ≠ some (sh', .sending templateId documentId made) := by
  intro h
  unfold proceed at h
  split at h <;> (try split at h) <;> (try split at h) <;> cases h

/-- A send reads one version of its template. -/
theorem seen_of_start {sh sh' : Shelf} {call : Call} {templateId documentId : JsString} {made : Envelope.Sending}
    (h : start cfg sh call = some (sh', .sending templateId documentId made)) :
    ∀ request ∈ made.db.request, ∃ row ∈ sh.templates, row.id = templateId ∧ row.documentId = documentId ∧
      request.documentName = row.name ∧ request.fields = row.fields := by
  cases call with
  | create name bytes =>
      simp only [start] at h
      split at h <;> cases h
  | createFromStarter key uuids =>
      simp only [start] at h
      split at h <;> cases h
  | update id patch =>
      simp only [start] at h
      split at h
      · split at h <;> cases h
      · cases h
  | send input senderName now =>
      simp only [start, startSend] at h
      split at h
      · split at h
        · cases h
        · rename_i row hfind
          split at h
          · cases h
          · cases h
          · cases h
          · rename_i made' hmade
            cases h
            intro request hrequest
            obtain ⟨built, hbuilt, hname, hfields, -⟩ := send_request hmade
            obtain rfl : built = request := Option.some.inj (hbuilt.symm.trans hrequest)
            exact ⟨row, (find_spec hfind).1, rfl, rfl, hname, hfields⟩
      · cases h
  | file id => cases h
  | shelve id now => cases h
  | write now => cases h
  | read => cases h
  | commit id now => cases h
  | queued => cases h
  | notQueued => cases h

/-- What every step keeps: whatever was sent, or is about to be, was seen. -/
structure AllSeen (cfg : Settings) (s₀ s : System Shelf Stage) : Prop where
  reached : Reaches (requests cfg) (fun _ _ => True) s₀ s
  sent : ∀ e ∈ s.shared.sent, Seen cfg s₀ s e.templateId e.documentId e.request
  inHand : ∀ p, (s.procs p).Seen cfg s₀ s

theorem Stage.Seen.mono {s₀ s s' : System Shelf Stage} {stage : Stage} (h : stage.Seen cfg s₀ s)
    (hrun : Reaches (requests cfg) (fun _ _ => True) s s') : stage.Seen cfg s₀ s' := by
  cases stage with
  | sending templateId documentId made => exact fun request hrequest => (h request hrequest).mono hrun
  | _ => trivial

theorem allSeen_step (hlib : cfg.library.Faithful) {s s' : System Shelf Stage} {l : Label Call Later}
    (hs : AllSeen cfg emptyShelf s) (hstep : (requests cfg).step s l = some s') : AllSeen cfg emptyShelf s' := by
  have hmove : Reaches (requests cfg) (fun _ _ => True) s s' := Relation.ReflTransGen.single ⟨l, trivial, hstep⟩
  have hreached := hs.reached.trans hmove
  cases l with
  | env later =>
      obtain ⟨sh, henv, rfl⟩ := Program.step_env hstep
      cases henv
      refine ⟨hreached, fun e' he' => ?_, fun p => (hs.inHand p).mono hmove⟩
      obtain ⟨e, he, rfl⟩ := List.mem_map.mp he'
      have hsame := sameEnvelope_later e later
      rw [hsame.templateId, hsame.documentId]
      exact ((hs.sent e he).mono hmove).of_terms hsame.terms
  | proc p call =>
      obtain ⟨sh, stage, hact, rfl⟩ := Program.step_proc hstep
      have hprocs : stage.Seen cfg emptyShelf ⟨sh, Function.update s.procs p stage⟩ → ∀ q,
          ((Function.update s.procs p stage) q).Seen cfg emptyShelf ⟨sh, Function.update s.procs p stage⟩ := by
        intro hown q
        by_cases hq : q = p
        · subst hq
          rwa [Function.update_self]
        · rw [Function.update_of_ne hq]
          exact (hs.inHand q).mono hmove
      have hkept : ∀ e ∈ s.shared.sent, Seen cfg emptyShelf ⟨sh, Function.update s.procs p stage⟩
          e.templateId e.documentId e.request := fun e he => (hs.sent e he).mono hmove
      simp only [requests] at hact
      split at hact
      · -- The request begins: what it takes in hand is there to be seen.
        have hsame := (start_spec hlib (holds_of_reaches hlib hs.reached).shared hact).1
        have hown : stage.Seen cfg emptyShelf ⟨sh, Function.update s.procs p stage⟩ := by
          cases stage with
          | sending templateId documentId made =>
              intro request hrequest
              exact ⟨s, hs.reached, hmove, seen_of_start hact request hrequest⟩
          | _ => trivial
        exact ⟨hreached, fun e he => hkept e (hsame ▸ he), hprocs hown⟩
      · -- It goes on: what it had in hand is what it sends.
        have hown : stage.Seen cfg emptyShelf ⟨sh, Function.update s.procs p stage⟩ := by
          cases stage with
          | sending templateId documentId made => exact absurd hact not_sending_of_proceed
          | _ => trivial
        refine ⟨hreached, fun e he => ?_, hprocs hown⟩
        rcases (sentStep_of_proceed hact).mem e he with hold | ⟨made, hstage, hrequest⟩
        · exact hkept e hold
        · have hhand := hs.inHand p
          rw [hstage] at hhand
          exact (hhand e.request hrequest).mono hmove

theorem allSeen_of_reaches (hlib : cfg.library.Faithful)
    (h : Reaches (requests cfg) (fun _ _ => True) emptyShelf s) : AllSeen cfg emptyShelf s := by
  refine Reaches.invariant (I := AllSeen cfg emptyShelf) (fun _ _ _ hs _ hstep => allSeen_step hlib hs hstep) h ?_
  exact ⟨Reaches.refl _, fun e he => absurd he List.not_mem_nil, fun _ => trivial⟩

theorem grown_step (hlib : cfg.library.Faithful) {s s' : System Shelf Stage} {l : Label Call Later}
    (h : Reaches (requests cfg) (fun _ _ => True) emptyShelf s) (hstep : (requests cfg).step s l = some s') :
    Grown s.shared s'.shared := by
  have hholds := holds_of_reaches hlib h
  cases l with
  | env later =>
      obtain ⟨sh, henv, rfl⟩ := Program.step_env hstep
      cases henv
      exact grown_sent s.shared _
  | proc p call =>
      obtain ⟨sh, stage, hact, rfl⟩ := Program.step_proc hstep
      simp only [requests] at hact
      split at hact
      · obtain ⟨rfl, -⟩ := start_spec hlib hholds.shared hact
        exact Grown.refl _
      · exact (proceed_spec hholds.shared (hholds.proc p) hact).2.1

/-! ## What becomes of an envelope -/

/-- The envelope is still there on its terms, or the send it was sent with has taken it back. -/
def Kept (s t : System Shelf Stage) (e : Sent) : Prop :=
  (∃ e' ∈ t.shared.sent, e.SameEnvelope e') ∨
    ∃ p, s.procs p = .enqueuing e.id ∧ t.procs p = .answered (.refused unavailable)

/-- What one step keeps of an envelope sent by then: nobody takes its id again while it is there. -/
def KeptSince (s t : System Shelf Stage) (e : Sent) : Prop :=
  (∃ e' ∈ t.shared.sent, e.SameEnvelope e' ∧ ∀ p, t.procs p = .enqueuing e.id → s.procs p = .enqueuing e.id) ∨
    ∃ p, s.procs p = .enqueuing e.id ∧ t.procs p = .answered (.refused unavailable)

/-- A request does not begin by queueing anything. -/
theorem not_enqueuing_of_start {sh sh' : Shelf} {call : Call} {id : JsString} :
    start cfg sh call ≠ some (sh', .enqueuing id) := by
  intro h
  cases call <;> simp only [start, startSend] at h <;> (try split at h) <;> (try split at h) <;> (try split at h) <;>
    cases h

theorem keptSince_step (hlib : cfg.library.Faithful) {s t u : System Shelf Stage} {l : Label Call Later} {e : Sent}
    (ht : Reaches (requests cfg) (fun _ _ => True) emptyShelf t) (hkept : KeptSince s t e)
    (hstep : (requests cfg).step t l = some u) : KeptSince s u e := by
  cases l with
  | env later =>
      obtain ⟨sh, henv, rfl⟩ := Program.step_env hstep
      cases henv
      rcases hkept with ⟨e', he', hsame, hids⟩ | htaken
      · exact Or.inl ⟨_, List.mem_map_of_mem he', hsame.trans (sameEnvelope_later e' later), hids⟩
      · exact Or.inr htaken
  | proc p call =>
      obtain ⟨sh, stage, hact, rfl⟩ := Program.step_proc hstep
      rcases hkept with ⟨e', he', hsame, hids⟩ | ⟨q, hqueued, hrefused⟩
      · -- The row is there: what the request does to it, and whether it takes its id.
        have hstays : stage ≠ .enqueuing e.id → ∀ q, (Function.update t.procs p stage) q = .enqueuing e.id →
            s.procs q = .enqueuing e.id := by
          intro hother q hq
          by_cases hp : q = p
          · subst hp
            exact absurd ((Function.update_self q stage t.procs).symm.trans hq) hother
          · exact hids q ((Function.update_of_ne hp stage t.procs).symm.trans hq)
        simp only [requests] at hact
        split at hact
        · have hstart := (start_spec hlib (holds_of_reaches hlib ht).shared hact).1
          subst hstart
          exact Or.inl ⟨e', he', hsame, hstays fun heq => not_enqueuing_of_start (heq ▸ hact)⟩
        · rcases (sentStep_of_proceed hact).kept he' with ⟨hmem, hother⟩ | ⟨hqueued, hrefused⟩
          · exact Or.inl ⟨e', hmem, hsame, hstays (hsame.id ▸ hother)⟩
          · refine Or.inr ⟨p, hids p (hsame.id ▸ hqueued), ?_⟩
            exact (Function.update_self p stage t.procs).trans hrefused
      · -- The send has been answered, and does nothing more.
        have hp : q ≠ p := by
          rintro rfl
          simp only [requests, hrefused] at hact
          cases call <;> cases hact
        exact Or.inr ⟨q, hqueued, (Function.update_of_ne hp stage t.procs).trans hrefused⟩

/-- **An envelope is one version of its template**: name, document and fields as they stood together at one moment.
And what was sent stays: whatever happens later, an envelope keeps what it was sent with, unless its invitations
could not be queued and its own send has taken it back; and no document, and no template's document, pages or age
ever change. -/
theorem sent_as_it_was (hlib : cfg.library.Faithful) {s' : System Shelf Stage}
    (h : Reaches (requests cfg) (fun _ _ => True) emptyShelf s) (h' : Reaches (requests cfg) (fun _ _ => True) s s') :
    (∀ e ∈ s.shared.sent, Seen cfg emptyShelf s e.templateId e.documentId e.request) ∧
      (∀ e ∈ s.shared.sent, Kept s s' e) ∧ s.shared.documents <+: s'.shared.documents ∧
      ∀ t ∈ s.shared.templates, ∃ t' ∈ s'.shared.templates, t.SameFile t' := by
  have hsince : Reaches (requests cfg) (fun _ _ => True) emptyShelf s' ∧ Grown s.shared s'.shared ∧
      ∀ e ∈ s.shared.sent, KeptSince s s' e := by
    refine Reaches.invariant (I := fun t => Reaches (requests cfg) (fun _ _ => True) emptyShelf t ∧
      Grown s.shared t.shared ∧ ∀ e ∈ s.shared.sent, KeptSince s t e) ?_ h' ⟨h, Grown.refl _, fun e he =>
        Or.inl ⟨e, he, Sent.SameEnvelope.refl e, fun _ hqueued => hqueued⟩⟩
    rintro t l t' ⟨hreached, hgrown, hkept⟩ _ hstep
    exact ⟨hreached.trans (Relation.ReflTransGen.single ⟨l, trivial, hstep⟩),
      hgrown.trans (grown_step hlib hreached hstep), fun e he => keptSince_step hlib hreached (hkept e he) hstep⟩
  obtain ⟨-, hgrown, hkept⟩ := hsince
  refine ⟨(allSeen_of_reaches hlib h).sent, fun e he => ?_, hgrown.documents, hgrown.templates⟩
  exact (hkept e he).imp_left fun ⟨e', he', hsame, _⟩ => ⟨e', he', hsame⟩

/-! ## Starters and the schema -/

/-- What the schema asks of a box's type and size. -/
structure FieldBox.Acceptable (box : FieldBox) : Prop where
  plain : box.type ≠ .dropdown ∧ box.type ≠ .radio
  wide : PAGE_W / 200 ≤ box.w
  high : PAGE_H / 200 ≤ box.h

theorem acceptable_lineBox {line : Line} (hline : (line.simple && line.wide) = true) {type : FieldType}
    (htype : type ∈ line.field) : (line.box type).Acceptable := by
  rw [Bool.and_eq_true] at hline
  obtain ⟨hsimple, hwide⟩ := hline
  unfold Line.simple at hsimple
  rw [Option.mem_def.mp htype, Option.all_some, Bool.and_eq_true, bne_iff_ne, bne_iff_ne] at hsimple
  unfold Line.wide at hwide
  rw [Bool.and_eq_true, decide_eq_true_eq, decide_eq_true_eq] at hwide
  refine ⟨hsimple, ?_, ?_⟩
  · simp only [Line.box, CONTENT_W_eq, PAGE_W]
    split <;> linarith [hwide.1]
  · simp only [Line.box, PAGE_H]
    split <;> norm_num

theorem acceptable_boxes {spec : StarterSpec} (hspec : spec.wellSpecified = true) :
    ∀ box ∈ spec.boxes, box.Acceptable := by
  intro box hbox
  unfold StarterSpec.boxes at hbox
  rcases List.mem_append.mp hbox with hbox | hbox
  · obtain ⟨block, hblock, hlines⟩ := List.mem_flatMap.mp hbox
    obtain ⟨line, hline, hmem⟩ := List.mem_flatMap.mp hlines
    unfold Line.boxes at hmem
    rw [Option.mem_toList, Option.map_eq_some_iff] at hmem
    obtain ⟨type, htype, rfl⟩ := hmem
    unfold StarterSpec.wellSpecified at hspec
    have hall := List.all_eq_true.mp (Bool.and_eq_true_iff.mp hspec).1 block hblock
    exact acceptable_lineBox (List.all_eq_true.mp hall line hline) htype
  · simp only [List.mem_cons, List.not_mem_nil, or_false] at hbox
    rcases hbox with rfl | rfl | rfl <;>
      refine ⟨⟨by decide, by decide⟩, ?_, ?_⟩ <;>
      norm_num [signatureBox, halfBox, PAGE_W, PAGE_H, sigW, sigH, halfW]

theorem length_lines_le {spec : StarterSpec} (hspec : spec.wellSpecified = true) :
    (spec.blocks.flatMap Block.lines).length ≤ 497 := by
  unfold StarterSpec.wellSpecified at hspec
  exact decide_eq_true_eq.mp (Bool.and_eq_true_iff.mp hspec).2

theorem length_boxes_le {spec : StarterSpec} (hspec : spec.wellSpecified = true) : spec.boxes.length ≤ 500 := by
  have hcount := length_lines_le hspec
  have hline : ∀ lines : List Line, (lines.flatMap Line.boxes).length ≤ lines.length := by
    intro lines
    induction lines with
    | nil => exact le_rfl
    | cons line rest ih =>
        have hone : line.boxes.length ≤ 1 := by
          unfold Line.boxes
          cases line.field <;> simp
        rw [List.flatMap_cons, List.length_append, List.length_cons]
        omega
  unfold StarterSpec.boxes
  rw [List.length_append, ← List.flatMap_assoc]
  exact Nat.add_le_add_right ((hline _).trans hcount) 3

/-- **No starter is refused** by the schema its fields are parsed with: whatever the widths of its texts come to,
its layout is one a sender could have made by hand, on pages the document has. -/
theorem starterFields_accepted (T : Typography) {spec : StarterSpec} (hspec : spec ∈ STARTER_TEMPLATES) (P : Platform)
    {uuids : Nat → JsString} (huuids : ∀ i, P.uuid (uuids i) = true) :
    TemplateFieldsSchema P (starterFields uuids (renderStarter T spec).fields) = true ∧
      ∀ f ∈ starterFields uuids (renderStarter T spec).fields, f.page ≤ (renderStarter T spec).pages := by
  have hwell := wellSpecified spec hspec
  have hlaid := laidOut_renderStarter T (inWidth_of_wellSpecified hwell)
  constructor
  · unfold TemplateFieldsSchema
    rw [Bool.and_eq_true, decide_eq_true_eq, List.all_eq_true]
    constructor
    · have hlength := congrArg List.length hlaid.asked
      rw [List.length_map, List.length_map] at hlength
      unfold starterFields
      rw [List.length_mapIdx, hlength]
      exact length_boxes_le hwell
    · intro f hf
      obtain ⟨i, q, hq, rfl⟩ := mem_starterFields hf
      obtain ⟨hfirst, hlast, hleft, hright, htop, hbottom⟩ := hlaid.inside q hq
      have hmem : (q.type, q.w, q.h, q.required) ∈ spec.boxes.map fun box =>
          (box.type, box.w / PAGE_W, box.h / PAGE_H, box.required) := hlaid.asked ▸ List.mem_map_of_mem hq
      obtain ⟨box, hbox, hsame⟩ := List.mem_map.mp hmem
      simp only [Prod.mk.injEq] at hsame
      obtain ⟨htype, hw, hh, -⟩ := hsame
      have haccept := acceptable_boxes hwell box hbox
      have hwide := haccept.wide
      have hhigh := haccept.high
      simp only [PlacedField.rect, writable, CONTENT_W_eq, MARGIN, PAGE_W, PAGE_H] at hleft hright htop hbottom
      simp only [PAGE_W, PAGE_H] at hw hh hwide hhigh
      norm_num at hleft hright htop hbottom hwide hhigh
      have hwide' : 1 / 200 ≤ q.w := by rw [← hw]; linarith
      have hhigh' : 1 / 200 ≤ q.h := by rw [← hh]; linarith
      have hplain : (!(q.type == .dropdown || q.type == .radio)) = true := by
        rw [← htype]
        simpa [not_or] using haccept.plain
      have hsigner : (js "signer").length = 6 := by decide
      have hsafe : (q.page : Int) ≤ MAX_SAFE_INTEGER := by
        have hpages := pages_renderStarter_le T (short_texts spec hspec)
        have hblocks := few_blocks spec hspec
        have hlines := length_lines_le hwell
        unfold MAX_SAFE_INTEGER
        omega
      unfold TemplateFieldSchema
      simp only [Bool.and_eq_true, Bool.or_eq_true, decide_eq_true_eq, Option.all_none, huuids, hplain, hsigner,
        and_assoc, true_and, and_true, true_or]
      refine ⟨Int.ofNat_le.mpr hfirst, hsafe, ?_, ?_, ?_, ?_, ?_, ?_, hwide', ?_, ?_, hhigh', by decide, by decide,
        ?_, ?_⟩ <;>
        linarith
  · intro f hf
    obtain ⟨i, q, hq, rfl⟩ := mem_starterFields hf
    exact Int.ofNat_le.mpr (hlaid.inside q hq).2.1

theorem starterFields_accepted_example : purchaseOrder ∈ STARTER_TEMPLATES ∧
    TemplateFieldsSchema ⟨fun _ => true, fun u => u.length == 2, fun _ => true, fun _ => true⟩
      (starterFields (padded 2) (renderStarter fixedWidth purchaseOrder).fields) = true ∧
    ∀ f ∈ starterFields (padded 2) (renderStarter fixedWidth purchaseOrder).fields,
      f.page ≤ (renderStarter fixedWidth purchaseOrder).pages := by
  have hmem : purchaseOrder ∈ STARTER_TEMPLATES := List.mem_cons_self
  refine ⟨hmem, starterFields_accepted fixedWidth hmem _ fun i => ?_⟩
  exact beq_iff_eq.mpr (length_padded 2 i)

/-! ## A template that is tagged, sent and tagged again -/

/-- A library whose files say no more than how many pages they have. -/
def blankPages : PdfLibrary where
  load bytes :=
    if bytes.take 5 = PDF_MAGIC then .ok (List.replicate (bytes.length - 5) ⟨0, 612, 792, 0, 0⟩)
    else .error (js "No PDF header found")
  save r := PDF_MAGIC ++ List.replicate r.pages 0

theorem faithful_blankPages : blankPages.Faithful where
  pages r := by
    refine ⟨List.replicate r.pages ⟨0, 612, 792, 0, 0⟩, ?_, List.length_replicate⟩
    have hmagic : (PDF_MAGIC ++ List.replicate r.pages 0).take 5 = PDF_MAGIC := List.take_left' rfl
    have hlength : (PDF_MAGIC ++ List.replicate r.pages 0).length - 5 = r.pages := by
      rw [List.length_append, List.length_replicate]
      exact Nat.add_sub_cancel_left 5 r.pages
    simp only [blankPages, if_pos hmagic, hlength]

def exampleSettings : Settings where
  platform := ⟨fun _ => true, fun _ => true, fun _ => true, fun _ => true⟩
  typography := fixedWidth
  library := blankPages
  sending := ⟨⟨fun _ => true, fun _ => true, fun _ => true, fun _ => true⟩, fun _ => [], List.length, 14, 3, 3⟩

def exampleField (page : Int) : TemplateField :=
  ⟨js "f", .signature, page, 1 / 10, 8 / 10, 1 / 4, 6 / 100, true, js "signer", none, none⟩

def exampleSend : SendRequest where
  templateId := js "t"
  routingMode := .parallel
  recipients := [⟨js "a@firm.uz", none, .signer, 1, js "signer"⟩]
  subject := none
  message := none

/-- The template is read for a send, given a second field by another request, and only then is the first sent. -/
def exampleTransactions : List (Label Call Later) :=
  [.proc 0 (.create (js " Lease ") (PDF_MAGIC ++ [0, 0])), .proc 0 (.file (js "d")), .proc 0 (.shelve (js "t") 1),
    .proc 1 (.update (js "t") ⟨none, some [exampleField 2], none⟩), .proc 1 (.write 2), .proc 1 .read,
    .proc 2 (.send exampleSend none 3),
    .proc 3 (.update (js "t") ⟨some (js "Old lease"), some [exampleField 2, exampleField 1], none⟩), .proc 3 (.write 4),
    .proc 2 (.commit (js "r") 5)]

theorem every_envelope_fits_example : ∃ s : System Shelf Stage,
      s.shared.sent.map (fun e => e.request.fields) = [[exampleField 2]] ∧
    ∀ e ∈ s.shared.sent, e.request.fields ≠ [] ∧
      ∃ doc ∈ s.shared.documents, (∀ other ∈ s.shared.documents, other.id = e.documentId ↔ other = doc) ∧
        ∃ pages, blankPages.load doc.bytes = .ok pages ∧ (∀ page ∈ pages, page.turned = 0) ∧ ∀ T values, ∃ stamps,
          stampPdf T pages e.request.fields values = .ok stamps ∧
            ∀ f ∈ e.request.fields, (∃ st ∈ stamps, st.field = f) ↔ shows values f := by
  have hshape : ((requests exampleSettings).run emptyShelf exampleTransactions).map
      (fun s => s.shared.sent.map fun e => e.request.fields) = some [[exampleField 2]] := by decide +kernel
  obtain ⟨s, hrun, hsent⟩ := Option.map_eq_some_iff.mp hshape
  exact ⟨s, hsent, every_envelope_fits (faithful_blankPages : exampleSettings.library.Faithful)
    (Reaches.of_run (fun _ _ _ => trivial) hrun)⟩

/-- The template is sent again. -/
def secondSend : List (Label Call Later) := [.proc 4 (.send exampleSend none 6), .proc 4 (.commit (js "q") 7)]

/-- The first envelope is signed and the template gets a new name; the second one's invitation cannot be queued. -/
def laterTransactions : List (Label Call Later) :=
  [.proc 2 .queued, .env ⟨js "r", .completed 8⟩, .proc 5 (.update (js "t") ⟨some (js "Older lease"), none, some true⟩),
    .proc 5 (.write 9), .proc 4 .notQueued]

/-- The first envelope has the version that was read, and stays when the second is taken back. -/
theorem sent_as_it_was_example : ∃ s s' : System Shelf Stage, s.shared.sent.map Sent.id = [js "r", js "q"] ∧
    s'.shared.sent.map (fun e => (e.id, e.request.status)) = [(js "r", .completed)] ∧
    s'.shared.templates.map (fun t => t.name) = [js "Older lease"] ∧
    (∀ e ∈ s.shared.sent, Seen exampleSettings emptyShelf s e.templateId e.documentId e.request) ∧
      (∀ e ∈ s.shared.sent, Kept s s' e) ∧ s.shared.documents <+: s'.shared.documents ∧
      ∀ t ∈ s.shared.templates, ∃ t' ∈ s'.shared.templates, t.SameFile t' := by
  have hshape : ((requests exampleSettings).run emptyShelf (exampleTransactions ++ secondSend)).bind (fun s =>
      ((requests exampleSettings).run s laterTransactions).map fun s' =>
        (s.shared.sent.map Sent.id, s'.shared.sent.map (fun e => (e.id, e.request.status)),
          s'.shared.templates.map fun t => t.name)) =
      some ([js "r", js "q"], [(js "r", .completed)], [js "Older lease"]) := by
    decide +kernel
  obtain ⟨s, hrun, hlater⟩ := Option.bind_eq_some_iff.mp hshape
  obtain ⟨s', hrun', hparts⟩ := Option.map_eq_some_iff.mp hlater
  simp only [Prod.mk.injEq] at hparts
  obtain ⟨hsent, hsigned, hnames⟩ := hparts
  exact ⟨s, s', hsent, hsigned, hnames, sent_as_it_was (faithful_blankPages : exampleSettings.library.Faithful)
    (Reaches.of_run (fun _ _ _ => trivial) hrun) (Reaches.of_run (fun _ _ _ => trivial) hrun')⟩

end ESignSoft.Templates
