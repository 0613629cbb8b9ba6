import ESignSoft.Envelope.Send
import ESignSoft.Lib.Interleaving
import ESignSoft.Lib.JsNumber
import ESignSoft.Templates.Catalogue
import ESignSoft.Templates.StarterLayout
import ESignSoft.Tenancy.Storage

/-!
# The templates of a workspace

A template is made over an uploaded file or from a starter, tagged, renamed and starred, and sent.  Each
request is a few transactions, and those of different requests interleave with each other and with what
becomes of the envelopes sent.  A document is modelled with the bytes its row leads to; nothing deletes a
document or a template, and no request changes which document a template is over.

* `create`, `createFromStarter`, `update`, `requests` — the service, a transaction a step;
* `terms_onRequest` — what no later transaction writes of an envelope;
* `requests_outline` — what holds of every row however the transactions interleave.
-/

namespace ESignSoft.Templates

open ESignSoft.Lib ESignSoft.Lib.JsText ESignSoft.Lib.JsNumber ESignSoft.Lib.Interleaving
open ESignSoft.Contracts ESignSoft.Signing ESignSoft.Tenancy

/-! ## The geometry of a PDF -/

/-- The PDF library: how it reads a file, with the message of what it throws, and what it writes. -/
structure PdfLibrary where
  load : Bytes → Except JsString (List Page)
  save : Rendered → Bytes

structure PdfGeometry where
  pageCount : Nat
  pageSizes : List (ℚ × ℚ)
  deriving DecidableEq

def MAX_PAGES : Nat := 300

def readPdfGeometry (L : PdfLibrary) (bytes : Bytes) : Except JsString PdfGeometry :=
  match L.load bytes with
  | .error reason => .error reason
  | .ok pages =>
      if pages.length = 0 then .error (js "PDF has no pages")
      else if pages.length > MAX_PAGES then .error (js "PDF exceeds " ++ natText MAX_PAGES ++ js " pages")
      else if pages.any fun page => page.turned ≠ 0 then
        .error (js "PDF contains rotated pages, which are not supported yet")
      else .ok ⟨pages.length, pages.map fun page => (page.width, page.height)⟩

/-! ## Rows -/

/-- A document with the bytes it leads to. -/
structure Filed where
  id : JsString
  name : JsString
  bytes : Bytes

structure Template where
  id : JsString
  name : JsString
  documentId : JsString
  geometry : PdfGeometry
  fields : List TemplateField
  favorite : Bool
  lastUsedAt : Option Int
  createdAt : Int
  updatedAt : Int

/-- What was sent: the request's own row, and what it was sent from. -/
structure Sent where
  id : JsString
  templateId : JsString
  documentId : JsString
  request : Envelope.SignatureRequest

structure Shelf where
  documents : List Filed
  templates : List Template
  sent : List Sent

def Shelf.find (s : Shelf) (id : JsString) : Option Template := s.templates.find? (·.id == id)

/-! ## The requests -/

inductive Refusal
  | badRequest (message : JsString)
  /-- The body does not fit its schema; the message lists the paths that do not. -/
  | invalidRequest
  | notFound
  | serviceUnavailable (message : JsString)
  /-- Anything else that is thrown. -/
  | internal

/-- What a template will be made with, once there is a document. -/
structure Draft where
  name : JsString
  geometry : PdfGeometry
  fields : List TemplateField

/-- A reason the sender can act on. -/
def surfaced (reason : JsString) : Bool :=
  [js "rotated", js "exceeds", js "no pages"].any fun word => reason.tails.any word.isPrefixOf

/-- An upload that may be filed, under its name. -/
def create (L : PdfLibrary) (name : JsString) (bytes : Bytes) : Except Refusal (JsString × Draft) :=
  if trim name = [] then .error (.badRequest (js "template name is required"))
  else
    match readPdfGeometry L bytes with
    | .error reason => .error (.badRequest (if surfaced reason then reason else js "file is not a readable PDF"))
    | .ok geometry => .ok (trim name, ⟨(trim name).take 200, geometry, []⟩)

/-- The fields of a starter, with fresh ids, all for the one signer. -/
def starterFields (uuids : Nat → JsString) (fields : List PlacedField) : List TemplateField :=
  fields.mapIdx fun i f =>
    { id := uuids i
      type := f.type
      page := f.page
      x := f.x
      y := f.y
      w := f.w
      h := f.h
      required := f.required
      recipientKey := js "signer"
      label := none
      options := none }

def createFromStarter (T : Typography) (L : PdfLibrary) (key : JsString) (uuids : Nat → JsString) :
    Except Refusal (JsString × Bytes × Draft) :=
  match findStarter key with
  | none => .error .notFound
  | some spec =>
      let rendered := renderStarter T spec
      match readPdfGeometry L (L.save rendered) with
      | .error _ => .error .internal
      | .ok geometry =>
          .ok (spec.name, L.save rendered, ⟨spec.name, geometry, starterFields uuids rendered.fields⟩)

/-- The body of an update; what is absent is left as it is. -/
structure TemplateUpdate where
  name : Option JsString
  fields : Option (List TemplateField)
  favorite : Option Bool

def TemplateUpdateSchema (P : Platform) (patch : TemplateUpdate) : Bool :=
  (patch.name.all fun n => 1 ≤ n.length && n.length ≤ 200) && (patch.fields.all (TemplateFieldsSchema P)) &&
    (patch.name.isSome || patch.fields.isSome || patch.favorite.isSome)

def newName (name : JsString) : JsString :=
  if (trim name).take 200 = [] then js "Untitled" else (trim name).take 200

def pageProblem (f : TemplateField) (pageCount : Nat) : JsString :=
  js "field on page " ++ intText f.page ++ js " but document has " ++ natText pageCount

/-- What an update is going to write. -/
def update (s : Shelf) (id : JsString) (patch : TemplateUpdate) : Except Refusal TemplateUpdate :=
  let data := { patch with name := patch.name.map newName }
  match patch.fields with
  | none => .ok data
  | some fields =>
      match s.find id with
      | none => .error .notFound
      | some row =>
          match fields.find? fun f => decide (f.page > (row.geometry.pageCount : Int)) with
          | some f => .error (.badRequest (pageProblem f row.geometry.pageCount))
          | none => .ok data

/-- `updateMany` on one template. -/
def Template.write (t : Template) (data : TemplateUpdate) (now : Int) : Template :=
  { t with
    name := data.name.getD t.name
    fields := data.fields.getD t.fields
    favorite := data.favorite.getD t.favorite
    updatedAt := now }

def Template.used (t : Template) (now : Int) : Template := { t with lastUsedAt := some now, updatedAt := now }

def updateTemplates (s : Shelf) (id : JsString) (f : Template → Template) : Shelf :=
  { s with templates := s.templates.map fun t => if t.id = id then f t else t }

inductive Reply
  | template (t : Template)
  | sent (id : JsString)
  | refused (r : Refusal)

/-- How far a request has come. -/
inductive Stage
  | waiting
  /-- A file has passed, and is about to be recorded. -/
  | uploading (name : JsString) (bytes : Bytes) (draft : Draft)
  | filed (documentId : JsString) (draft : Draft)
  | patching (id : JsString) (data : TemplateUpdate)
  | reading (id : JsString)
  | sending (templateId documentId : JsString) (made : Envelope.Sending)
  /-- The request's row is there, and its invitations are being queued. -/
  | enqueuing (id : JsString)
  | answered (reply : Reply)

/-- What is asked, or the next transaction of what was. -/
inductive Call
  | create (name : JsString) (bytes : Bytes)
  | createFromStarter (key : JsString) (uuids : Nat → JsString)
  | update (id : JsString) (patch : TemplateUpdate)
  | send (input : SendRequest) (senderName : Option JsString) (now : Int)
  /-- The document's row is inserted. -/
  | file (id : JsString)
  /-- The template's row is inserted. -/
  | shelve (id : JsString) (now : Int)
  | write (now : Int)
  | read
  /-- The request's row is inserted, and the template marked as used. -/
  | commit (id : JsString) (now : Int)
  /-- All invitations are queued, or one of them cannot be. -/
  | queued
  | notQueued

structure Settings where
  platform : Platform
  typography : Typography
  library : PdfLibrary
  sending : Envelope.Config

def refuse (s : Shelf) (r : Refusal) : Option (Shelf × Stage) := some (s, .answered (.refused r))

/-- The first of the transactions of a send reads the template. -/
def startSend (cfg : Settings) (s : Shelf) (input : SendRequest) (senderName : Option JsString) (now : Int) :
    Option (Shelf × Stage) :=
  if SendRequestSchema cfg.platform input then
    match s.find input.templateId with
    | none => refuse s .notFound
    | some t =>
        match Envelope.send cfg.sending (some ⟨t.name, t.fields⟩) input senderName now with
        | .error .notFound => refuse s .notFound
        | .error (.badRequest message) => refuse s (.badRequest message)
        | .error .typeError => refuse s .internal
        | .ok made => some (s, .sending t.id t.documentId made)
  else refuse s .invalidRequest

def start (cfg : Settings) (s : Shelf) : Call → Option (Shelf × Stage)
  | .create name bytes =>
      match create cfg.library name bytes with
      | .error r => refuse s r
      | .ok (title, draft) => some (s, .uploading title bytes draft)
  | .createFromStarter key uuids =>
      match createFromStarter cfg.typography cfg.library key uuids with
      | .error r => refuse s r
      | .ok (title, bytes, draft) => some (s, .uploading title bytes draft)
  | .update id patch =>
      if TemplateUpdateSchema cfg.platform patch then
        match update s id patch with
        | .error r => refuse s r
        | .ok data => some (s, .patching id data)
      else refuse s .invalidRequest
  | .send input senderName now => startSend cfg s input senderName now
  | _ => none

def unavailable : Refusal :=
  .serviceUnavailable (js "Could not send right now — the background service is unavailable. Please try again.")

/-- The next transaction of a request.  A key that is taken is refused by its table. -/
def proceed (cfg : Settings) (s : Shelf) : Call → Stage → Option (Shelf × Stage)
  | .file id, .uploading name bytes draft =>
      if bytes.length = 0 ∨ bytes.take 5 ≠ PDF_MAGIC then refuse s (.badRequest (js "Only PDF files are accepted"))
      else if s.documents.any (·.id == id) then refuse s .internal
      else some ({ s with documents := s.documents ++ [⟨id, sanitizeName name, bytes⟩] }, .filed id draft)
  | .shelve id now, .filed documentId draft =>
      if !TemplateFieldsSchema cfg.platform draft.fields || s.templates.any (·.id == id) then refuse s .internal
      else
        let row : Template := ⟨id, draft.name, documentId, draft.geometry, draft.fields, false, none, now, now⟩
        some ({ s with templates := s.templates ++ [row] }, .answered (.template row))
  | .write now, .patching id data =>
      if s.templates.any (·.id == id) then some (updateTemplates s id (·.write data now), .reading id)
      else refuse s .notFound
  | .read, .reading id =>
      match s.find id with
      | none => refuse s .notFound
      | some t => some (s, .answered (.template t))
  | .commit id now, .sending templateId documentId made =>
      match made.db.request with
      | none => none
      | some request =>
          if s.sent.any (·.id == id) then refuse s .internal
          else
            let inserted := { s with sent := s.sent ++ [⟨id, templateId, documentId, request⟩] }
            some (updateTemplates inserted templateId (·.used now), .enqueuing id)
  | .queued, .enqueuing id => some (s, .answered (.sent id))
  -- A send whose invitations cannot be queued takes its row back.
  | .notQueued, .enqueuing id => refuse { s with sent := s.sent.filter fun e => e.id != id } unavailable
  | _, _ => none

/-- A transaction of the envelope's own: what its signers, its sender and the sweeps do to its row. -/
structure Later where
  id : JsString
  write : Envelope.Write

def Sent.later (e : Sent) (l : Later) : Sent :=
  if e.id = l.id then { e with request := l.write.onRequest e.request } else e

/-- The requests to a workspace, a transaction a step. -/
def requests (cfg : Settings) : Program Shelf Stage Call Later where
  act _ call s stage :=
    match stage with
    | .waiting => start cfg s call
    | stage => proceed cfg s call stage
  env l s := some { s with sent := s.sent.map (·.later l) }

/-! ## What a send settles -/

/-- The columns of an envelope's row that its send writes for good. -/
structure Terms where
  documentName : JsString
  fields : List TemplateField
  routingMode : RoutingMode
  recipientEmail : JsString
  recipientName : Option JsString
  expiresAt : Int
  sentAt : Int
  senderEmail : Option JsString
  emailSubject : Option JsString
  emailMessage : Option JsString

def terms (row : Envelope.SignatureRequest) : Terms where
  documentName := row.documentName
  fields := row.fields
  routingMode := row.routingMode
  recipientEmail := row.recipientEmail
  recipientName := row.recipientName
  expiresAt := row.expiresAt
  sentAt := row.sentAt
  senderEmail := row.senderEmail
  emailSubject := row.emailSubject
  emailMessage := row.emailMessage

theorem terms_updateRow {p : Envelope.SignatureRequest → Bool}
    {f : Envelope.SignatureRequest → Envelope.SignatureRequest} (hf : ∀ row, terms (f row) = terms row)
    (row : Envelope.SignatureRequest) : terms (Table.updateRow p f row) = terms row := by
  unfold Table.updateRow
  split
  · exact hf row
  · rfl

/-- **No later transaction writes them**: neither its signers', nor its sender's, nor a sweep's. -/
theorem terms_onRequest (w : Envelope.Write) (row : Envelope.SignatureRequest) :
    terms (w.onRequest row) = terms row := by
  cases w with
  | viewed _ _ _ _ | viewedLegacy _ _ _ | consentedLegacy _ | claimedLegacy _ _ | completed _ | voided _ _ =>
      refine terms_updateRow ?_ row
      exact fun _ => rfl
  | expired passed told now =>
      have hretired : terms (Table.updateRow Envelope.SignatureRequest.open_
          (fun s => { s with status := .expired }) row) = terms row := by
        refine terms_updateRow ?_ row
        exact fun _ => rfl
      unfold Envelope.Write.onRequest
      dsimp only
      split
      · exact hretired
      · refine (terms_updateRow ?_ _).trans hretired
        exact fun _ => rfl
  | _ => rfl

/-- The row of one envelope, at two times. -/
structure Sent.SameEnvelope (e e' : Sent) : Prop where
  id : e'.id = e.id
  templateId : e'.templateId = e.templateId
  documentId : e'.documentId = e.documentId
  terms : terms e'.request = terms e.request

theorem Sent.SameEnvelope.refl (e : Sent) : e.SameEnvelope e := ⟨rfl, rfl, rfl, rfl⟩

theorem Sent.SameEnvelope.trans {e e' e'' : Sent} (h : e.SameEnvelope e') (h' : e'.SameEnvelope e'') :
    e.SameEnvelope e'' :=
  ⟨h'.id.trans h.id, h'.templateId.trans h.templateId, h'.documentId.trans h.documentId, h'.terms.trans h.terms⟩

theorem sameEnvelope_later (e : Sent) (l : Later) : e.SameEnvelope (e.later l) := by
  unfold Sent.later
  split
  · exact ⟨rfl, rfl, rfl, terms_onRequest l.write e.request⟩
  · exact Sent.SameEnvelope.refl e

/-! ## What is measured -/

/-- The pages of a file, and what was measured of them. -/
structure Measured (L : PdfLibrary) (bytes : Bytes) (g : PdfGeometry) (pages : List Page) : Prop where
  loaded : L.load bytes = .ok pages
  count : pages.length = g.pageCount
  sizes : g.pageSizes = pages.map fun page => (page.width, page.height)
  bounded : 1 ≤ pages.length ∧ pages.length ≤ MAX_PAGES
  upright : ∀ page ∈ pages, page.turned = 0

/-- A file that is accepted has 1 to 300 pages, and none of them is rotated. -/
theorem measured_of_readPdfGeometry {L : PdfLibrary} {bytes : Bytes} {g : PdfGeometry}
    (h : readPdfGeometry L bytes = .ok g) : ∃ pages, Measured L bytes g pages := by
  unfold readPdfGeometry at h
  split at h
  · cases h
  · rename_i pages hload
    split at h
    · cases h
    · rename_i hsome
      split at h
      · cases h
      · rename_i hmany
        split at h
        · cases h
        · rename_i hturned
          cases h
          refine ⟨pages, hload, rfl, rfl, ⟨Nat.pos_of_ne_zero hsome, not_lt.mp hmany⟩, fun page hpage => ?_⟩
          by_contra hpageTurned
          exact hturned (List.any_eq_true.mpr ⟨page, hpage, decide_eq_true hpageTurned⟩)

/-- What the library writes it reads again, with the same number of pages. -/
structure PdfLibrary.Faithful (L : PdfLibrary) : Prop where
  pages : ∀ r, ∃ pages, L.load (L.save r) = .ok pages ∧ pages.length = r.pages

/-! ## What holds of every row -/

section Outline

variable {cfg : Settings} {s s' : Shelf} {documentId : JsString} {g : PdfGeometry} {fields : List TemplateField}

/-- Every field is on a page of a document that is on the shelf. -/
structure LaidOver (cfg : Settings) (s : Shelf) (documentId : JsString) (g : PdfGeometry)
    (fields : List TemplateField) : Prop where
  document : ∃ doc ∈ s.documents, doc.id = documentId ∧ ∃ pages, Measured cfg.library doc.bytes g pages
  paged : ∀ f ∈ fields, f.page ≤ g.pageCount

def Named (name : JsString) : Prop := name ≠ [] ∧ name.length ≤ 200

structure Template.Sound (cfg : Settings) (s : Shelf) (t : Template) : Prop where
  named : Named t.name
  laid : LaidOver cfg s t.documentId t.geometry t.fields
  accepted : TemplateFieldsSchema cfg.platform t.fields = true

/-- A layout that can be signed. -/
structure Signable (cfg : Settings) (s : Shelf) (documentId : JsString) (fields : List TemplateField) : Prop where
  laid : ∃ g, LaidOver cfg s documentId g fields
  accepted : TemplateFieldsSchema cfg.platform fields = true
  some_ : fields ≠ []

structure Sound (cfg : Settings) (s : Shelf) : Prop where
  documentIds : (s.documents.map Filed.id).Nodup
  templateIds : (s.templates.map Template.id).Nodup
  templates : ∀ t ∈ s.templates, t.Sound cfg s
  sent : ∀ e ∈ s.sent, Signable cfg s e.documentId e.request.fields

/-- The parts of a template no request changes. -/
def Template.SameFile (t t' : Template) : Prop :=
  t'.id = t.id ∧ t'.documentId = t.documentId ∧ t'.geometry = t.geometry ∧ t'.createdAt = t.createdAt

/-- What becomes of the documents and templates: rows are added, and a template is never put over another
document. -/
structure Grown (s s' : Shelf) : Prop where
  documents : s.documents <+: s'.documents
  templates : ∀ t ∈ s.templates, ∃ t' ∈ s'.templates, t.SameFile t'

theorem Grown.refl (s : Shelf) : Grown s s where
  documents := List.prefix_refl _
  templates t ht := ⟨t, ht, rfl, rfl, rfl, rfl⟩

/-- What becomes of the envelopes does not matter here. -/
theorem grown_sent (s : Shelf) (sent : List Sent) : Grown s { s with sent := sent } where
  documents := List.prefix_refl _
  templates t ht := ⟨t, ht, rfl, rfl, rfl, rfl⟩

theorem Grown.trans {s'' : Shelf} (h : Grown s s') (h' : Grown s' s'') : Grown s s'' where
  documents := h.documents.trans h'.documents
  templates t ht := by
    obtain ⟨t', ht', hid, hdocument, hgeometry, hcreated⟩ := h.templates t ht
    obtain ⟨t'', ht'', hid', hdocument', hgeometry', hcreated'⟩ := h'.templates t' ht'
    exact ⟨t'', ht'', hid'.trans hid, hdocument'.trans hdocument, hgeometry'.trans hgeometry, hcreated'.trans hcreated⟩

theorem LaidOver.mono (h : LaidOver cfg s documentId g fields) (hgrown : Grown s s') :
    LaidOver cfg s' documentId g fields where
  document := by
    obtain ⟨doc, hdoc, hrest⟩ := h.document
    exact ⟨doc, hgrown.documents.subset hdoc, hrest⟩
  paged := h.paged

theorem Signable.mono (h : Signable cfg s documentId fields) (hgrown : Grown s s') :
    Signable cfg s' documentId fields where
  laid := h.laid.imp fun _ hlaid => hlaid.mono hgrown
  accepted := h.accepted
  some_ := h.some_

theorem Template.Sound.mono {t : Template} (h : t.Sound cfg s) (hgrown : Grown s s') : t.Sound cfg s' :=
  ⟨h.named, h.laid.mono hgrown, h.accepted⟩

/-- What a request has in hand. -/
def Stage.Fits (cfg : Settings) (s : Shelf) : Stage → Prop
  | .uploading _ bytes draft => Named draft.name ∧ (∃ pages, Measured cfg.library bytes draft.geometry pages) ∧
      ∀ f ∈ draft.fields, f.page ≤ draft.geometry.pageCount
  | .filed documentId draft => Named draft.name ∧ LaidOver cfg s documentId draft.geometry draft.fields
  | .patching id data => (∀ name ∈ data.name, Named name) ∧ ∀ fields ∈ data.fields,
      TemplateFieldsSchema cfg.platform fields = true ∧
        ∃ t ∈ s.templates, t.id = id ∧ ∀ f ∈ fields, f.page ≤ t.geometry.pageCount
  | .sending _ documentId made => ∀ request ∈ made.db.request, Signable cfg s documentId request.fields
  | _ => True

theorem Stage.Fits.mono {stage : Stage} (h : stage.Fits cfg s) (hgrown : Grown s s') : stage.Fits cfg s' := by
  cases stage with
  | uploading name bytes draft => exact h
  | filed documentId draft => exact ⟨h.1, h.2.mono hgrown⟩
  | patching id data =>
      refine ⟨h.1, fun fields hfields => ?_⟩
      obtain ⟨haccepted, t, ht, hid, hpaged⟩ := h.2 fields hfields
      obtain ⟨t', ht', hid', -, hgeometry, -⟩ := hgrown.templates t ht
      exact ⟨haccepted, t', ht', hid'.trans hid, hgeometry ▸ hpaged⟩
  | sending templateId documentId made => exact fun request hrequest => (h request hrequest).mono hgrown
  | _ => trivial

theorem find_spec {id : JsString} {t : Template} (h : s.find id = some t) : t ∈ s.templates ∧ t.id = id := by
  have hid : (t.id == id) = true := List.find?_some (p := fun t : Template => t.id == id) h
  exact ⟨List.mem_of_find?_eq_some h, beq_iff_eq.mp hid⟩

/-! ## What a request starts with -/

theorem named_take {name : JsString} (h : name ≠ []) : Named (name.take 200) := by
  refine ⟨?_, List.length_take_le 200 name⟩
  cases name with
  | nil => exact absurd rfl h
  | cons u rest => exact List.cons_ne_nil u _

theorem named_newName (name : JsString) : Named (newName name) := by
  unfold newName
  split
  · exact ⟨by decide, by decide⟩
  · rename_i hname
    exact ⟨hname, List.length_take_le 200 _⟩

theorem create_spec {L : PdfLibrary} {name title : JsString} {bytes : Bytes} {draft : Draft}
    (h : create L name bytes = .ok (title, draft)) :
    Named draft.name ∧ (∃ pages, Measured L bytes draft.geometry pages) ∧ draft.fields = [] := by
  unfold create at h
  split at h
  · cases h
  · rename_i hname
    split at h
    · cases h
    · rename_i geometry hgeometry
      cases h
      exact ⟨named_take hname, measured_of_readPdfGeometry hgeometry, rfl⟩

theorem inWidth_of_wellSpecified {spec : StarterSpec} (h : spec.wellSpecified = true) : spec.InWidth := by
  intro block hblock line hline
  unfold StarterSpec.wellSpecified at h
  have hlines := List.all_eq_true.mp (Bool.and_eq_true_iff.mp h).1 block hblock
  have hwide := (Bool.and_eq_true_iff.mp (List.all_eq_true.mp hlines line hline)).2
  unfold Line.wide at hwide
  rw [Bool.and_eq_true, decide_eq_true_eq, decide_eq_true_eq] at hwide
  exact ⟨(by norm_num : (0 : ℚ) ≤ 1 / 100).trans hwide.1, hwide.2⟩

theorem findStarter_mem {key : JsString} {spec : StarterSpec} (h : findStarter key = some spec) :
    spec ∈ STARTER_TEMPLATES := List.mem_of_find?_eq_some h

theorem mem_starterFields {uuids : Nat → JsString} {placed : List PlacedField} {f : TemplateField}
    (h : f ∈ starterFields uuids placed) : ∃ i, ∃ q ∈ placed, f =
      ⟨uuids i, q.type, q.page, q.x, q.y, q.w, q.h, q.required, js "signer", none, none⟩ := by
  obtain ⟨i, hi, rfl⟩ := List.mem_mapIdx.mp h
  exact ⟨i, placed[i], List.getElem_mem hi, rfl⟩

theorem createFromStarter_spec {T : Typography} {L : PdfLibrary} (hlib : L.Faithful) {key title : JsString}
    {uuids : Nat → JsString} {bytes : Bytes} {draft : Draft}
    (h : createFromStarter T L key uuids = .ok (title, bytes, draft)) :
    Named draft.name ∧ (∃ pages, Measured L bytes draft.geometry pages) ∧
      ∀ f ∈ draft.fields, f.page ≤ draft.geometry.pageCount := by
  unfold createFromStarter at h
  split at h
  · cases h
  · rename_i spec hfound
    dsimp only at h
    split at h
    · cases h
    · rename_i geometry hgeometry
      cases h
      obtain ⟨pages, hpages⟩ := measured_of_readPdfGeometry hgeometry
      have hspec := findStarter_mem hfound
      refine ⟨named_starter spec hspec, ⟨pages, hpages⟩, fun f hf => ?_⟩
      -- The file has the pages that were drawn, and every field was placed on one of them.
      obtain ⟨read, hread, hcount⟩ := hlib.pages (renderStarter T spec)
      have hsame : read = pages := Except.ok.inj (hread.symm.trans hpages.loaded)
      have hlaid := laidOut_renderStarter T (inWidth_of_wellSpecified (wellSpecified spec hspec))
      obtain ⟨i, q, hq, rfl⟩ := mem_starterFields hf
      have hpage := (hlaid.inside q hq).2.1
      have hdrawn : (renderStarter T spec).pages = geometry.pageCount :=
        hcount.symm.trans ((congrArg List.length hsame).trans hpages.count)
      exact Int.ofNat_le.mpr (hpage.trans_eq hdrawn)

theorem update_spec {id : JsString} {patch data : TemplateUpdate}
    (hpatch : TemplateUpdateSchema cfg.platform patch = true) (h : update s id patch = .ok data) :
    Stage.Fits cfg s (.patching id data) := by
  have haccepted : ∀ fields ∈ patch.fields, TemplateFieldsSchema cfg.platform fields = true := by
    intro fields hfields
    unfold TemplateUpdateSchema at hpatch
    rw [Option.mem_def.mp hfields, Bool.and_eq_true, Bool.and_eq_true] at hpatch
    exact hpatch.1.2
  have hnamed : ∀ name ∈ patch.name.map newName, Named name := by
    intro name hname
    obtain ⟨n, -, rfl⟩ := Option.map_eq_some_iff.mp hname
    exact named_newName n
  unfold update at h
  split at h
  · rename_i hfields
    cases h
    exact ⟨hnamed, fun fields hmem => absurd hmem (by rw [hfields]; exact Option.not_mem_none fields)⟩
  · rename_i fields hfields
    split at h
    · cases h
    · rename_i row hrow
      split at h
      · cases h
      · rename_i hnone
        cases h
        refine ⟨hnamed, fun other hmem => ?_⟩
        obtain rfl : fields = other := Option.some.inj (hfields.symm.trans hmem)
        refine ⟨haccepted fields hfields, row, (find_spec hrow).1, (find_spec hrow).2, fun f hf => ?_⟩
        have hpage := List.find?_eq_none.mp hnone f hf
        rw [decide_eq_true_eq] at hpage
        exact not_lt.mp hpage

/-- The request's row holds the template's name and fields, as they were read. -/
theorem send_request {sending : Envelope.Config} {t : Envelope.Template} {input : SendRequest}
    {senderName : Option JsString} {now : Int} {made : Envelope.Sending}
    (h : Envelope.send sending (some t) input senderName now = .ok made) :
    ∃ request, made.db.request = some request ∧ request.documentName = t.name ∧ request.fields = t.fields ∧
      t.fields ≠ [] := by
  unfold Envelope.send at h
  dsimp only at h
  split at h
  · cases h
  · rename_i hsome
    split at h
    · cases h
    · split at h
      · cases h
      · cases h
        refine ⟨_, rfl, rfl, rfl, fun hnil => hsome ?_⟩
        rw [hnil]
        rfl

/-- The first of a request's transactions changes nothing. -/
theorem start_spec (hlib : cfg.library.Faithful) (hs : Sound cfg s) {call : Call} {stage : Stage}
    (h : start cfg s call = some (s', stage)) : s' = s ∧ stage.Fits cfg s := by
  cases call with
  | create name bytes =>
      simp only [start] at h
      split at h
      · cases h
        exact ⟨rfl, trivial⟩
      · rename_i title draft hcreate
        cases h
        obtain ⟨hnamed, hmeasured, hnone⟩ := create_spec hcreate
        exact ⟨rfl, hnamed, hmeasured, fun f hf => absurd hf (by rw [hnone]; exact List.not_mem_nil)⟩
  | createFromStarter key uuids =>
      simp only [start] at h
      split at h
      · cases h
        exact ⟨rfl, trivial⟩
      · rename_i title bytes draft hcreate
        cases h
        exact ⟨rfl, createFromStarter_spec hlib hcreate⟩
  | update id patch =>
      simp only [start] at h
      split at h
      · rename_i hpatch
        split at h
        · cases h
          exact ⟨rfl, trivial⟩
        · rename_i data hupdate
          cases h
          exact ⟨rfl, update_spec hpatch hupdate⟩
      · cases h
        exact ⟨rfl, trivial⟩
  | send input senderName now =>
      simp only [start, startSend] at h
      split at h
      · split at h
        · cases h
          exact ⟨rfl, trivial⟩
        · rename_i t hfind
          split at h
          · cases h
            exact ⟨rfl, trivial⟩
          · cases h
            exact ⟨rfl, trivial⟩
          · cases h
            exact ⟨rfl, trivial⟩
          · rename_i made hmade
            cases h
            refine ⟨rfl, fun request hrequest => ?_⟩
            obtain ⟨row, hrow, -, hfields, hsome⟩ := send_request hmade
            obtain rfl : row = request := Option.some.inj (hrow.symm.trans hrequest)
            have ht := hs.templates t (find_spec hfind).1
            rw [hfields]
            exact ⟨⟨t.geometry, ht.laid⟩, ht.accepted, hsome⟩
      · cases h
        exact ⟨rfl, trivial⟩
  | file id => cases h
  | shelve id now => cases h
  | write now => cases h
  | read => cases h
  | commit id now => cases h
  | queued => cases h
  | notQueued => cases h

/-! ## What each further transaction does -/

theorem not_mem_map_of_any {α : Type*} {l : List α} {key : α → JsString} {id : JsString}
    (h : ¬ l.any (fun a => key a == id) = true) : id ∉ l.map key := by
  rintro hmem
  obtain ⟨a, ha, rfl⟩ := List.mem_map.mp hmem
  exact h (List.any_eq_true.mpr ⟨a, ha, beq_self_eq_true (key a)⟩)

theorem nodup_map_append {α : Type*} {l : List α} {key : α → JsString} {a : α} (h : (l.map key).Nodup)
    (ha : key a ∉ l.map key) : ((l ++ [a]).map key).Nodup := by
  rw [List.map_append, List.map_singleton]
  exact List.Nodup.append h (List.nodup_singleton _) (List.disjoint_singleton.mpr ha)

theorem map_id_updateTemplates {id : JsString} {f : Template → Template} (hf : ∀ t : Template, t.SameFile (f t)) :
    (updateTemplates s id f).templates.map Template.id = s.templates.map Template.id := by
  unfold updateTemplates
  rw [List.map_map]
  refine List.map_congr_left fun t _ => ?_
  dsimp only [Function.comp]
  split
  · exact (hf t).1
  · rfl

theorem grown_updateTemplates {id : JsString} {f : Template → Template} (hf : ∀ t : Template, t.SameFile (f t)) :
    Grown s (updateTemplates s id f) where
  documents := List.prefix_refl _
  templates t ht := by
    refine ⟨_, List.mem_map_of_mem ht, ?_⟩
    split
    · exact hf t
    · exact ⟨rfl, rfl, rfl, rfl⟩

theorem sound_updateTemplates {id : JsString} {f : Template → Template} (hs : Sound cfg s)
    (hf : ∀ t : Template, t.SameFile (f t)) (hsound : ∀ t ∈ s.templates, t.id = id → (f t).Sound cfg s) :
    Sound cfg (updateTemplates s id f) where
  documentIds := hs.documentIds
  templateIds := by
    rw [map_id_updateTemplates hf]
    exact hs.templateIds
  templates t ht := by
    obtain ⟨t₀, ht₀, rfl⟩ := List.mem_map.mp ht
    have hgrown : Grown s (updateTemplates s id f) := grown_updateTemplates hf
    split
    · rename_i hid
      exact (hsound t₀ ht₀ hid).mono hgrown
    · exact (hs.templates t₀ ht₀).mono hgrown
  sent e he := (hs.sent e he).mono (grown_updateTemplates hf)

theorem sameFile_write (data : TemplateUpdate) (now : Int) (t : Template) : t.SameFile (t.write data now) :=
  ⟨rfl, rfl, rfl, rfl⟩

theorem sameFile_used (now : Int) (t : Template) : t.SameFile (t.used now) := ⟨rfl, rfl, rfl, rfl⟩

/-- What an update was checked for is what it writes. -/
theorem sound_write (hs : Sound cfg s) {id : JsString} {data : TemplateUpdate}
    (hdata : Stage.Fits cfg s (.patching id data)) (now : Int) {t : Template} (ht : t ∈ s.templates)
    (hid : t.id = id) : (t.write data now).Sound cfg s := by
  have hold := hs.templates t ht
  refine ⟨?_, ⟨hold.laid.document, ?_⟩, ?_⟩
  · unfold Template.write
    cases hname : data.name with
    | none => exact hold.named
    | some name => exact hdata.1 name hname
  · unfold Template.write
    cases hfields : data.fields with
    | none => exact hold.laid.paged
    | some fields =>
        obtain ⟨-, t', ht', hid', hpaged⟩ := hdata.2 fields hfields
        -- The row that was read and the one that is written are one.
        obtain rfl : t' = t := List.inj_on_of_nodup_map hs.templateIds ht' ht (hid'.trans hid.symm)
        exact hpaged
  · unfold Template.write
    cases hfields : data.fields with
    | none => exact hold.accepted
    | some fields => exact (hdata.2 fields hfields).1

theorem sound_file (hs : Sound cfg s) (doc : Filed) (hnew : doc.id ∉ s.documents.map Filed.id) :
    Sound cfg { s with documents := s.documents ++ [doc] } ∧ Grown s { s with documents := s.documents ++ [doc] } := by
  have hgrown : Grown s { s with documents := s.documents ++ [doc] } :=
    ⟨List.prefix_append _ _, fun t ht => ⟨t, ht, rfl, rfl, rfl, rfl⟩⟩
  exact ⟨⟨nodup_map_append hs.documentIds hnew, hs.templateIds, fun t ht => (hs.templates t ht).mono hgrown,
    fun e he => (hs.sent e he).mono hgrown⟩, hgrown⟩

theorem sound_shelve (hs : Sound cfg s) {t : Template} (hnew : t.id ∉ s.templates.map Template.id)
    (ht : t.Sound cfg s) :
    Sound cfg { s with templates := s.templates ++ [t] } ∧ Grown s { s with templates := s.templates ++ [t] } := by
  have hgrown : Grown s { s with templates := s.templates ++ [t] } :=
    ⟨List.prefix_refl _, fun t ht => ⟨t, List.mem_append_left _ ht, rfl, rfl, rfl, rfl⟩⟩
  refine ⟨⟨hs.documentIds, nodup_map_append hs.templateIds hnew, fun other hother => ?_,
    fun e he => (hs.sent e he).mono hgrown⟩, hgrown⟩
  rcases List.mem_append.mp hother with hold | hadded
  · exact (hs.templates other hold).mono hgrown
  · obtain rfl := List.mem_singleton.mp hadded
    exact ht.mono hgrown

theorem sound_commit (hs : Sound cfg s) {e : Sent} (he : Signable cfg s e.documentId e.request.fields) (now : Int) :
    Sound cfg (updateTemplates { s with sent := s.sent ++ [e] } e.templateId (·.used now)) ∧
      Grown s (updateTemplates { s with sent := s.sent ++ [e] } e.templateId (·.used now)) := by
  have hgrown := grown_sent s (s.sent ++ [e])
  have hinserted : Sound cfg { s with sent := s.sent ++ [e] } := by
    refine ⟨hs.documentIds, hs.templateIds, fun t ht => (hs.templates t ht).mono hgrown, fun other hother => ?_⟩
    rcases List.mem_append.mp hother with hold | hadded
    · exact (hs.sent other hold).mono hgrown
    · obtain rfl := List.mem_singleton.mp hadded
      exact he.mono hgrown
  refine ⟨sound_updateTemplates hinserted (sameFile_used now) fun t ht _ => ?_,
    hgrown.trans (grown_updateTemplates (sameFile_used now))⟩
  have hold := hinserted.templates t ht
  exact ⟨hold.named, hold.laid, hold.accepted⟩

/-- Envelopes that were there before, rewritten by their own transactions or not, may be left over. -/
theorem sound_sent (hs : Sound cfg s) {sent : List Sent} (hsent : ∀ e' ∈ sent, ∃ e ∈ s.sent, e.SameEnvelope e') :
    Sound cfg { s with sent := sent } := by
  have hgrown := grown_sent s sent
  refine ⟨hs.documentIds, hs.templateIds, fun t ht => (hs.templates t ht).mono hgrown, fun e' he' => ?_⟩
  obtain ⟨e, he, hsame⟩ := hsent e' he'
  have hfields : e'.request.fields = e.request.fields := congrArg Terms.fields hsame.terms
  rw [hfields, hsame.documentId]
  exact (hs.sent e he).mono hgrown

/-- A refusal leaves everything as it is. -/
theorem refuse_spec (hs : Sound cfg s) {r : Refusal} {stage : Stage} (h : refuse s r = some (s', stage)) :
    Sound cfg s' ∧ Grown s s' ∧ stage.Fits cfg s' := by
  cases h
  exact ⟨hs, Grown.refl s, trivial⟩

theorem proceed_spec (hs : Sound cfg s) {call : Call} {stage stage' : Stage} (hfits : stage.Fits cfg s)
    (h : proceed cfg s call stage = some (s', stage')) : Sound cfg s' ∧ Grown s s' ∧ stage'.Fits cfg s' := by
  unfold proceed at h
  split at h
  · -- The document.
    rename_i id name bytes draft
    split at h
    · exact refuse_spec hs h
    · split at h
      · exact refuse_spec hs h
      · rename_i hnew
        cases h
        obtain ⟨hnamed, hmeasured, hpaged⟩ := hfits
        obtain ⟨hsound, hgrown⟩ := sound_file hs ⟨id, sanitizeName name, bytes⟩ (not_mem_map_of_any hnew)
        exact ⟨hsound, hgrown, hnamed, ⟨_, List.mem_append_right _ (List.mem_singleton_self _), rfl, hmeasured⟩, hpaged⟩
  · -- The template.
    rename_i id now documentId draft
    split at h
    · exact refuse_spec hs h
    · rename_i hpass
      rw [Bool.not_eq_true, Bool.or_eq_false_iff, Bool.not_eq_false'] at hpass
      cases h
      obtain ⟨hsound, hgrown⟩ := sound_shelve hs
        (t := ⟨id, draft.name, documentId, draft.geometry, draft.fields, false, none, now, now⟩)
        (not_mem_map_of_any (Bool.eq_false_iff.mp hpass.2)) ⟨hfits.1, hfits.2, hpass.1⟩
      exact ⟨hsound, hgrown, trivial⟩
  · -- The update.
    rename_i now id data
    split at h
    · cases h
      have hwrite := sound_updateTemplates hs (sameFile_write data now) fun t ht hid => sound_write hs hfits now ht hid
      exact ⟨hwrite, grown_updateTemplates (sameFile_write data now), trivial⟩
    · exact refuse_spec hs h
  · -- The row after an update.
    split at h
    · exact refuse_spec hs h
    · cases h
      exact ⟨hs, Grown.refl _, trivial⟩
  · -- What is sent.
    rename_i id now templateId documentId made
    split at h
    · cases h
    · rename_i request hrequest
      split at h
      · exact refuse_spec hs h
      · cases h
        obtain ⟨hsound, hgrown⟩ := sound_commit hs (e := ⟨id, templateId, documentId, request⟩)
          (hfits request hrequest) now
        exact ⟨hsound, hgrown, trivial⟩
  · -- The invitations are queued.
    cases h
    exact ⟨hs, Grown.refl _, trivial⟩
  · -- They cannot be.
    cases h
    exact ⟨sound_sent hs fun e he => ⟨e, (List.mem_filter.mp he).1, Sent.SameEnvelope.refl e⟩, grown_sent s _, trivial⟩
  · cases h

/-- **Every row is sound**, however the transactions interleave. -/
theorem requests_outline (hlib : cfg.library.Faithful) :
    ProofOutline (requests cfg) (fun _ _ => True) (Sound cfg) (fun s _ stage => stage.Fits cfg s)
      (fun _ _ => True) where
  env s l sh hs _ henv := by
    cases henv
    have hgrown := grown_sent s.shared (s.shared.sent.map (·.later l))
    refine ⟨sound_sent hs.shared fun e' he' => ?_, fun q => (hs.proc q).mono hgrown⟩
    obtain ⟨e, he, rfl⟩ := List.mem_map.mp he'
    exact ⟨e, he, sameEnvelope_later e l⟩
  act s p call sh stage hs _ hact := by
    have hstep : Sound cfg sh ∧ Grown s.shared sh ∧ stage.Fits cfg sh := by
      simp only [requests] at hact
      split at hact
      · obtain ⟨rfl, hfits⟩ := start_spec hlib hs.shared hact
        exact ⟨hs.shared, Grown.refl _, hfits⟩
      · exact proceed_spec hs.shared (hs.proc p) hact
    obtain ⟨hsound, hgrown, hfits⟩ := hstep
    exact ⟨hsound, hfits, fun q _ => (hs.proc q).mono hgrown, fun _ _ => ⟨trivial, trivial⟩⟩

end Outline

end ESignSoft.Templates
