import ESignSoft.Lib.Interleaving
import ESignSoft.Envelope.Rows
import ESignSoft.Signing.StampPdf
import ESignSoft.Sealing.Certificate
import ESignSoft.Sealing.Seal

/-!
# The completion pipeline

`completeSignature` of one request: stamp every signer's mark, seal the result, write the certificate,
store both, record them by a conditional update and mail the copies.  A run is a process; each of its
reads, each object it stores, its update and each mail is a step of its own.  Any number of runs go side
by side, a run may die at any point, and beside them the envelopes' own transactions go on.

What the PDF library does with a document is a parameter.  Saving the same document twice gives
different bytes, so a save is told which one it is.  A storage key made here ends in a random UUID,
known by the number of the draw, so that no two are the same.
-/

namespace ESignSoft.Sealing

open ESignSoft.Lib.JsText ESignSoft.Lib.Table ESignSoft.Lib.Interleaving
open ESignSoft.Contracts ESignSoft.Signing ESignSoft.Envelope
open Certificate (CertificateSigner CertificateInput)

/-! ## Storage -/

inductive Key
  /-- The key of an uploaded document, split at its slashes. -/
  | document (parts : List JsString)
  /-- The key of a stored signature. -/
  | image (key : Nat)
  /-- `tenants/<tenant>/<kind>/<uuid>`. -/
  | sibling (tenant kind : JsString) (uuid : Nat)
  deriving DecidableEq

abbrev Storage := Key → Option Bytes

def putObject (key : Key) (body : Bytes) (storage : Storage) : Storage :=
  Function.update storage key (some body)

/-- `none` where it throws. -/
def siblingKey (existingKey : List JsString) (kind : JsString) (uuid : Nat) : Option Key :=
  match existingKey with
  | root :: tenant :: _ :: _ => if root = js "tenants" then some (.sibling tenant kind uuid) else none
  | _ => none

/-! ## Rows -/

/-- The columns of a request that say what was sealed. -/
structure SealRecord where
  signedPdfKey : Option Key
  certificateKey : Option Key
  documentHash : Option JsString
  sealSignature : Option JsString
  sealKid : Option JsString
  deriving DecidableEq

def SealRecord.blank : SealRecord := ⟨none, none, none, none, none⟩

structure Request where
  id : JsString
  /-- The envelope's own row. -/
  row : SignatureRequest
  recipients : List Recipient
  /-- The key of the source document, while that is on file. -/
  documentKey : Option (List JsString)
  record : SealRecord
  completionEmailedAt : Option Int

/-! ## The certificate -/

def methodLabel (method : Option SignatureMethod) : JsString :=
  match method with
  | some .typed => js "Typed signature"
  | some .drawn => js "Drawn signature"
  | some .uploaded => js "Uploaded signature image"
  | none => js "Electronic signature"

/-- Every signer's own record, or that of the request itself on an envelope from before routing. -/
def certificateSigners (row : SignatureRequest) (recipients : List Recipient) : List CertificateSigner :=
  let signerRows := recipients.filter fun r => r.role == .signer
  if signerRows.isEmpty then
    [{ name := row.recipientName
       email := row.recipientEmail
       userId := none
       ip := row.signerIp
       userAgent := row.signerUserAgent
       viewedAt := row.viewedAt.map some
       consentAt := row.consentAt.map some
       signedAt := row.completedAt.map some
       method := methodLabel row.signatureMethod }]
  else
    signerRows.map fun r =>
      { name := r.name
        email := r.email
        userId := none
        ip := r.signerIp
        userAgent := r.signerUserAgent
        viewedAt := r.viewedAt.map some
        consentAt := r.consentAt.map some
        signedAt := r.completedAt.map some
        method := methodLabel r.signatureMethod }

/-! ## Stamping -/

/-- The worker's keyring and its PDF library. -/
structure Worker (C : NodeCrypto) where
  sealService : SealService C
  loadPdf : Bytes → Option (List Page)
  /-- The size of a signature image and the measure of the font. -/
  embedPng : Bytes → Option StampTools
  /-- The document with the stamps drawn into it, the image of the signature among them. -/
  savePdf : (save : Nat) → (pdfBytes signaturePng : Bytes) → List Stamp → Bytes
  buildCertificatePdf : (save : Nat) → CertificateInput → Option Bytes

variable {C : NodeCrypto}

/-- `stampPdf`, down to the bytes; `none` where it throws. -/
def Worker.stampPdf (cfg : Worker C) (save : Nat) (pdfBytes : Bytes) (fields : List TemplateField)
    (fieldValues : Values) (signaturePng : Bytes) : Option Bytes :=
  match cfg.loadPdf pdfBytes, cfg.embedPng signaturePng with
  | some pages, some tools =>
      match Signing.stampPdf tools pages fields fieldValues with
      | .ok stamps => some (cfg.savePdf save pdfBytes signaturePng stamps)
      | .error _ => none
  | _, _ => none

/-- One signer's fields, values and signature. -/
structure Pass where
  fields : List TemplateField
  values : Values
  imageKey : Nat

/-- One pass for each signer whose signature is on file, or one for the envelope itself; `none` where
there is no signature at all. -/
def passes (row : SignatureRequest) (recipients : List Recipient) : Option (List Pass) :=
  let signedSigners := recipients.filter fun r =>
    r.role == .signer && r.status == .completed && r.signatureImageKey.isSome
  if signedSigners.isEmpty then
    row.signatureImageKey.map fun imageKey => [⟨row.fields, row.fieldValues, imageKey⟩]
  else
    some (signedSigners.filterMap fun r => r.signatureImageKey.map fun imageKey =>
      ⟨row.fields.filter fun f => f.recipientKey == r.recipientKey, r.fieldValues, imageKey⟩)

/-! ## Delivery -/

structure Letter where
  to_ : JsString
  recipientName : Option JsString
  isSender : Bool

/-- A mail with the signed document and its certificate attached. -/
structure SignedCopy where
  requestId : JsString
  letter : Letter
  documentName : JsString
  filename : JsString
  signedPdf : Bytes
  certificatePdf : Bytes

/-- The loop over the audience: one letter for each address, and the addresses seen. -/
def lettersTo : List (JsString × Option JsString) → List JsString → List Letter × List JsString
  | [], seen => ([], seen)
  | (email, name) :: rest, seen =>
      if seen.contains (toLowerCase email) then lettersTo rest seen
      else
        let (letters, seen') := lettersTo rest (toLowerCase email :: seen)
        (⟨email, name, false⟩ :: letters, seen')

/-- Everyone on the envelope, and the sender when not among them. -/
def letters (row : SignatureRequest) (audience : List (JsString × Option JsString)) : List Letter :=
  let (toAudience, seen) :=
    lettersTo (if audience.isEmpty then [(row.recipientEmail, row.recipientName)] else audience) []
  match row.senderEmail with
  | some email =>
      if email = [] ∨ seen.contains (toLowerCase email) then toAudience
      else toAudience ++ [⟨email, row.recipientName, true⟩]
  | none => toAudience

/-- `[A-Za-z0-9 ._-]`. -/
def isFileNameUnit (u : UInt16) : Bool :=
  (0x41 ≤ u && u ≤ 0x5A) || (0x61 ≤ u && u ≤ 0x7A) || isDigit u || u == 0x20 || u == 0x2E || u == 0x5F ||
    u == 0x2D

def safeName (documentName : JsString) : JsString :=
  let kept := trim (documentName.filter isFileNameUnit)
  let base := if kept = [] then js "signed-document" else kept
  if (js ".pdf").isSuffixOf (toLowerCase base) then base else base ++ js ".pdf"

def signedCopy (req : Request) (signedPdf certificatePdf : Bytes) (letter : Letter) : SignedCopy where
  requestId := req.id
  letter := letter
  documentName := req.row.documentName
  filename := safeName req.row.documentName
  signedPdf := signedPdf
  certificatePdf := certificatePdf

/-! ## Runs -/

/-- What a run has sealed and goes on to store and record. -/
structure Artifacts where
  req : Request
  signedPdfKey : Key
  certificateKey : Key
  signedPdf : Bytes
  certificatePdf : Bytes
  documentHash : JsString
  sealSignature : JsString
  sealKid : JsString

def Artifacts.record (a : Artifacts) : SealRecord where
  signedPdfKey := some a.signedPdfKey
  certificateKey := some a.certificateKey
  documentHash := some a.documentHash
  sealSignature := some a.sealSignature
  sealKid := some a.sealKid

inductive Proc
  | idle
  | done
  | failed
  | loading (id : JsString)
  /-- A previous run has sealed: its artifacts are read back. -/
  | fetching (req : Request) (signedPdfKey certificateKey : Key)
  | recipientsReading (req : Request) (completedAt : Int) (documentKey : List JsString)
  | sourceReading (req : Request) (completedAt : Int) (documentKey : List JsString)
      (recipients : List Recipient)
  | stamping (req : Request) (completedAt : Int) (documentKey : List JsString)
      (recipients : List Recipient) (rest : List Pass) (signedPdf : Bytes)
  /-- The objects still to store, in any order. -/
  | storing (a : Artifacts) (pending : List (Key × Bytes))
  | recording (a : Artifacts)
  | delivering (req : Request) (signedPdf certificatePdf : Bytes)
  | mailing (req : Request) (signedPdf certificatePdf : Bytes) (rest : List Letter)
  | marking (req : Request)

inductive Choice
  /-- A job of the queue, first delivered or again, or of the reconciler. -/
  | call (id : JsString)
  | next
  /-- The second of two objects is stored first. -/
  | other
  /-- A mail fails for the run; it may have gone out all the same. -/
  | fail (sent : Bool)
  /-- The worker dies, or a call to the database, the storage or the mail server fails. -/
  | crash

inductive Event
  | clock (now : Int)
  /-- Another transaction on the envelope of a request. -/
  | wrote (id : JsString) (write : Write)

structure World where
  now : Int
  requests : List Request
  storage : Storage
  /-- How many UUIDs were drawn, and how many documents saved. -/
  uuids : Nat
  saves : Nat
  mailed : List SignedCopy

def World.find (w : World) (id : JsString) : Option Request := w.requests.find? fun r => r.id == id

/-- What a run does with the row it has loaded. -/
def Request.start (req : Request) : Proc :=
  if req.record.signedPdfKey.isSome && req.completionEmailedAt.isSome then .done
  else if req.row.status ≠ .completed then .failed
  else
    match req.row.completedAt with
    | none => .failed
    | some completedAt =>
        match req.record.signedPdfKey, req.record.certificateKey with
        | some signedPdfKey, some certificateKey => .fetching req signedPdfKey certificateKey
        | _, _ =>
            match req.documentKey with
            | none => .failed
            | some documentKey => .recipientsReading req completedAt documentKey

/-- The fingerprint and the seal of a stamped document, its certificate and the keys of both. -/
def Worker.sealed (cfg : Worker C) (uuids saves : Nat) (req : Request) (completedAt : Int)
    (documentKey : List JsString) (recipients : List Recipient) (signedPdf : Bytes) : Option Artifacts :=
  let documentHash := C.sha256Hex signedPdf
  let (sealSignature, sealKid) := cfg.sealService.seal ⟨req.id, completedAt, documentHash⟩
  match
      cfg.buildCertificatePdf saves
        { requestId := req.id
          documentName := req.row.documentName
          senderEmail := req.row.senderEmail
          signers := certificateSigners req.row recipients
          sentAt := some (some req.row.sentAt)
          signedAt := some completedAt
          documentHash := documentHash
          sealSignature := sealSignature
          sealKid := sealKid },
      siblingKey documentKey (js "signed") uuids, siblingKey documentKey (js "certificates") (uuids + 1) with
  | some certificatePdf, some signedPdfKey, some certificateKey =>
      some
        { req := req
          signedPdfKey := signedPdfKey
          certificateKey := certificateKey
          signedPdf := signedPdf
          certificatePdf := certificatePdf
          documentHash := documentHash
          sealSignature := sealSignature
          sealKid := sealKid }
  | _, _, _ => none

/-- The rows the recording of artifacts is for. -/
def unrecorded (id : JsString) (r : Request) : Bool := r.id == id && r.record.signedPdfKey == none

def next (cfg : Worker C) (w : World) : Proc → Option (World × Proc)
  | .idle | .done | .failed => none
  | .loading id =>
      match w.find id with
      | none => some (w, .failed)
      | some req => some (w, req.start)
  | .fetching req signedPdfKey certificateKey =>
      match w.storage signedPdfKey, w.storage certificateKey with
      | some signedPdf, some certificatePdf => some (w, .delivering req signedPdf certificatePdf)
      | _, _ => some (w, .failed)
  | .recipientsReading req completedAt documentKey =>
      let recipients := ((w.find req.id).map Request.recipients).getD []
      some (w, .sourceReading req completedAt documentKey
        (recipients.insertionSort fun a b => a.routingOrder ≤ b.routingOrder))
  | .sourceReading req completedAt documentKey recipients =>
      match w.storage (.document documentKey), passes req.row recipients with
      | some sourcePdf, some rest =>
          some (w, .stamping req completedAt documentKey recipients rest sourcePdf)
      | _, _ => some (w, .failed)
  | .stamping req completedAt documentKey recipients (pass :: rest) signedPdf =>
      match (w.storage (.image pass.imageKey)).bind
          (cfg.stampPdf w.saves signedPdf pass.fields pass.values) with
      | none => some (w, .failed)
      | some stamped =>
          some ({ w with saves := w.saves + 1 },
            .stamping req completedAt documentKey recipients rest stamped)
  | .stamping req completedAt documentKey recipients [] signedPdf =>
      match cfg.sealed w.uuids w.saves req completedAt documentKey recipients signedPdf with
      | none => some (w, .failed)
      | some a =>
          some ({ w with uuids := w.uuids + 2, saves := w.saves + 1 },
            .storing a [(a.signedPdfKey, a.signedPdf), (a.certificateKey, a.certificatePdf)])
  | .storing a [] => some (w, .recording a)
  | .storing a ((key, body) :: rest) =>
      some ({ w with storage := putObject key body w.storage }, .storing a rest)
  | .recording a =>
      -- The conditional update is the claim, and its count the verdict.
      some
        ({ w with
            requests := updateMany (unrecorded a.req.id) (fun r => { r with record := a.record }) w.requests },
          if matchCount (unrecorded a.req.id) w.requests = 1 then
            .delivering a.req a.signedPdf a.certificatePdf
          else .done)
  | .delivering req signedPdf certificatePdf =>
      let audience := ((w.find req.id).map Request.recipients).getD []
      some (w, .mailing req signedPdf certificatePdf
        (letters req.row (audience.map fun r => (r.email, r.name))))
  | .mailing req signedPdf certificatePdf (letter :: rest) =>
      some ({ w with mailed := signedCopy req signedPdf certificatePdf letter :: w.mailed },
        .mailing req signedPdf certificatePdf rest)
  | .mailing req _ _ [] => some (w, .marking req)
  | .marking req =>
      some
        ({ w with
            requests := updateMany (fun r => r.id == req.id && r.completionEmailedAt == none)
              (fun r => { r with completionEmailedAt := some w.now }) w.requests },
          .done)

def Proc.atRest : Proc → Bool
  | .idle | .done | .failed => true
  | _ => false

def act (cfg : Worker C) (_ : Nat) (choice : Choice) (w : World) (l : Proc) : Option (World × Proc) :=
  match choice with
  | .call id => if l.atRest then some (w, .loading id) else none
  | .next => next cfg w l
  | .other =>
      match l with
      | .storing a [first, (key, body)] =>
          some ({ w with storage := putObject key body w.storage }, .storing a [first])
      | _ => none
  | .fail sent =>
      match l with
      | .mailing req signedPdf certificatePdf (letter :: _) =>
          let copy := signedCopy req signedPdf certificatePdf letter
          some (if sent then { w with mailed := copy :: w.mailed } else w, .failed)
      | _ => none
  | .crash => if l.atRest then none else some (w, .failed)

def env (e : Event) (w : World) : Option World :=
  match e with
  | .clock now => some { w with now := now }
  | .wrote id write =>
      some
        { w with
          requests := updateMany (fun r => r.id == id)
            (fun r =>
              { r with
                row := write.onRequest r.row
                recipients := r.recipients.map write.onRecipient }) w.requests }

/-- Any number of runs of `completeSignature`, side by side. -/
def completion (cfg : Worker C) : Program World Proc Choice Event := ⟨act cfg, env⟩

/-- Requests that nobody has begun to complete, and what is in storage by then. -/
def start (now : Int) (requests : List Request) (storage : Storage) : System World Proc where
  shared :=
    { now := now
      requests := requests
      storage := storage
      uuids := 0
      saves := 0
      mailed := [] }
  procs := fun _ => .idle

end ESignSoft.Sealing
