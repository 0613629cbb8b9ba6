import ESignSoft.Lib.Table
import ESignSoft.Contracts.SendRequest
import ESignSoft.Signing.FieldValues

/-!
# The rows of an envelope and the transactions that write them

One envelope: its `signature_requests` row and its `recipients` rows.  Everything the services ever
write to them is one of the transactions of `Write`, each given by what it does to one row: a
conditional update reads and writes row by row.

Under Read Committed an `UPDATE` locks each row it writes until its transaction commits and evaluates
its `WHERE` on the row version it locks.  Nobody else changes that row between the statement and the
commit, so a transaction's updates act on the rows as they are when it commits, all together.  A row
the statement passed over is not locked and stays passed over.  That only matters where such a row can
meet the condition again before the commit, which is the clearing of the links of everyone who has not
completed: its transactions say whom they passed over.

A signing token is the number of the random draw that made it, so that tokens never repeat; a hash is
the token it was computed from, so that hashes never collide.
-/

namespace ESignSoft.Envelope

open ESignSoft.Lib.JsText ESignSoft.Lib.Table ESignSoft.Contracts ESignSoft.Signing

/-- The SHA-256 digest of a raw token. -/
inductive TokenHash
  | sha256 (token : Nat)
  deriving DecidableEq, Repr

structure Recipient where
  id : Nat
  email : JsString
  name : Option JsString
  role : RecipientRole
  routingOrder : Nat
  recipientKey : JsString
  status : RecipientStatus
  signingTokenHash : Option TokenHash
  sentAt : Option Int
  viewedAt : Option Int
  consentAt : Option Int
  completedAt : Option Int
  lastRemindedAt : Option Int
  reminderCount : Nat
  signatureMethod : Option SignatureMethod
  signatureImageKey : Option Nat
  fieldValues : Values
  viewedIp : Option JsString
  viewedUserAgent : Option JsString
  signerIp : Option JsString
  signerUserAgent : Option JsString

/-- The envelope's own row, the columns of single-recipient links from before routing included. -/
structure SignatureRequest where
  documentName : JsString
  fields : List TemplateField
  routingMode : RoutingMode
  recipientEmail : JsString
  recipientName : Option JsString
  signingTokenHash : Option TokenHash
  status : SignatureStatus
  expiresAt : Int
  sentAt : Int
  viewedAt : Option Int
  consentAt : Option Int
  completedAt : Option Int
  voidedAt : Option Int
  expiredNotifiedAt : Option Int
  signatureMethod : Option SignatureMethod
  signatureImageKey : Option Nat
  fieldValues : Values
  viewedIp : Option JsString
  viewedUserAgent : Option JsString
  signerIp : Option JsString
  signerUserAgent : Option JsString
  senderEmail : Option JsString
  emailSubject : Option JsString
  emailMessage : Option JsString

structure Db where
  request : Option SignatureRequest
  recipients : List Recipient

/-! ## Transactions -/

/-- What `submit` records about a signature. -/
structure ClaimData where
  completedAt : Int
  signatureMethod : SignatureMethod
  signatureImageKey : Nat
  fieldValues : Values
  signerIp : Option JsString
  signerUserAgent : Option JsString

/-- What a hand-off does for one member of the next routing group. -/
inductive HandOff
  | cc (id : Nat)
  | signer (id : Nat) (token : Nat)
  deriving DecidableEq, Repr

inductive Write
  /-- `view`, by the holder of a recipient's link. -/
  | viewed (id : Nat) (now : Int) (ip ua : Option JsString)
  | viewedLegacy (now : Int) (ip ua : Option JsString)
  /-- `consent`. -/
  | consented (id : Nat) (now : Int)
  | consentedLegacy (now : Int)
  /-- The claim of `submit`. -/
  | claimed (id : Nat) (hash : TokenHash) (data : ClaimData)
  | claimedLegacy (hash : TokenHash) (data : ClaimData)
  /-- `advanceEnvelope`, when every signer is done. -/
  | completed (now : Int)
  /-- `advanceEnvelope`, when the next group's turn has come. -/
  | handedOff (group : List HandOff) (now : Int)
  /-- `void`; `passed` are the recipients its second update passed over as already completed. -/
  | voided (passed : List Nat) (now : Int)
  /-- `resend`. -/
  | resent (id : Nat) (token : Nat) (now : Int)
  /-- `sweepExpiredEnvelopes`, likewise; `told` when the sender was told before. -/
  | expired (passed : List Nat) (told : Bool) (now : Int)
  /-- `sweepReminders`. -/
  | reminded (id : Nat) (token : Nat) (reminderCount : Nat) (now : Int)
  /-- The roll-back of a send whose invitations could not be queued. -/
  | deleted

/-- The link of the recipient is still open. -/
def Recipient.open_ (r : Recipient) : Bool := r.status == .sent || r.status == .viewed

def SignatureRequest.open_ (s : SignatureRequest) : Bool := s.status == .sent || s.status == .viewed

/-- One update of a hand-off, on one row. -/
def HandOff.onRecipient (now : Int) (h : HandOff) : Recipient → Recipient :=
  match h with
  | .cc id => updateRow (fun r => r.id == id) fun r => { r with status := .sent, sentAt := some now }
  | .signer id token => updateRow (fun r => r.id == id && r.status == .pending) fun r =>
      { r with status := .sent, sentAt := some now, signingTokenHash := some (.sha256 token) }

namespace Write

/-- What the transaction does to a recipient's row. -/
def onRecipient (w : Write) (r : Recipient) : Recipient :=
  match w with
  | viewed id now ip ua =>
      updateRow (fun r => r.id == id && r.status == .sent) (fun r =>
        { r with status := .viewed, viewedAt := some now, viewedIp := ip, viewedUserAgent := ua }) r
  | consented id now =>
      updateRow (fun r => r.id == id && r.open_ && r.consentAt == none)
        (fun r => { r with consentAt := some now }) r
  | claimed id hash data =>
      updateRow (fun r => r.id == id && r.signingTokenHash == some hash && r.open_) (fun r =>
        { r with
          status := .completed
          completedAt := some data.completedAt
          signatureMethod := some data.signatureMethod
          signatureImageKey := some data.signatureImageKey
          fieldValues := data.fieldValues
          signerIp := data.signerIp
          signerUserAgent := data.signerUserAgent }) r
  | handedOff group now => group.foldl (fun r h => h.onRecipient now r) r
  | voided passed _ | expired passed _ _ =>
      updateRow (fun r => r.status != .completed && !passed.contains r.id)
        (fun r => { r with signingTokenHash := none }) r
  | resent id token now =>
      updateRow (fun r => r.id == id) (fun r =>
        { r with signingTokenHash := some (.sha256 token), sentAt := some now, status := .sent }) r
  | reminded id token reminderCount now =>
      updateRow (fun r => r.id == id && r.reminderCount == reminderCount) (fun r =>
        { r with
          signingTokenHash := some (.sha256 token)
          lastRemindedAt := some now
          reminderCount := reminderCount + 1 }) r
  | _ => r

/-- What the transaction does to the envelope's row. -/
def onRequest (w : Write) (s : SignatureRequest) : SignatureRequest :=
  match w with
  | viewed _ now _ _ =>
      updateRow (fun s => s.status == .sent)
        (fun s => { s with status := .viewed, viewedAt := some now }) s
  | viewedLegacy now ip ua =>
      updateRow (fun s => s.status == .sent) (fun s =>
        { s with status := .viewed, viewedAt := some now, viewedIp := ip, viewedUserAgent := ua }) s
  | consentedLegacy now =>
      updateRow (fun s => s.open_ && s.consentAt == none)
        (fun s => { s with consentAt := some now }) s
  | claimedLegacy hash data =>
      updateRow (fun s => s.signingTokenHash == some hash && s.open_) (fun s =>
        { s with
          status := .completed
          completedAt := some data.completedAt
          signatureMethod := some data.signatureMethod
          signatureImageKey := some data.signatureImageKey
          fieldValues := data.fieldValues
          signerIp := data.signerIp
          signerUserAgent := data.signerUserAgent }) s
  | completed now =>
      updateRow SignatureRequest.open_
        (fun s => { s with status := .completed, completedAt := some now }) s
  | voided _ now =>
      updateRow (fun s => s.open_ || s.status == .expired)
        (fun s => { s with status := .voided, voidedAt := some now }) s
  | expired _ told now =>
      let s := updateRow SignatureRequest.open_ (fun s => { s with status := .expired }) s
      if told then s
      else
        updateRow (fun s => s.expiredNotifiedAt == none)
          (fun s => { s with expiredNotifiedAt := some now }) s
  | _ => s

/-- How many rows the update a caller looks at rewrites. -/
def count (w : Write) (db : Db) : Nat :=
  match w with
  | claimed id hash _ =>
      matchCount (fun r => r.id == id && r.signingTokenHash == some hash && r.open_) db.recipients
  | claimedLegacy hash _ =>
      matchCount (fun s => s.signingTokenHash == some hash && s.open_) db.request.toList
  | reminded id _ reminderCount _ =>
      matchCount (fun r => r.id == id && r.reminderCount == reminderCount) db.recipients
  | _ => 0

end Write

/-- Commit a transaction. -/
def Db.write (w : Write) (db : Db) : Db :=
  match w with
  | .deleted => { request := none, recipients := [] }
  | w => { request := db.request.map w.onRequest, recipients := db.recipients.map w.onRecipient }

end ESignSoft.Envelope
