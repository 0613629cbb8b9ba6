import ESignSoft.Lib.Interleaving
import ESignSoft.Envelope.Send
import ESignSoft.Signing.SignaturePng
import Mathlib.Data.List.Sort

/-!
# The operations on one envelope, side by side

Every request to the services and every run of a sweep is a process; each of its reads, each commit and
each call to the queue is a step of its own, and any number of processes take their steps in any order.
A process may die at any point, an enqueue may fail (whether or not the queue took the job), the clock
may be set and the worker may finish a job in between.

What the operations read of documents, templates and storage after the send plays no part in these
steps and is left out: the page geometry of a view, the bytes of a stored signature.
-/

namespace ESignSoft.Envelope

open ESignSoft.Lib.JsText ESignSoft.Lib.JsDate ESignSoft.Lib.Table ESignSoft.Lib.Interleaving
open ESignSoft.Contracts ESignSoft.Signing

/-! ## The signer's door -/

/-- One person's view of an envelope, resolved from their token. -/
structure LoadedRequest where
  documentName : JsString
  fields : List TemplateField
  /-- `none` only for single-recipient links from before routing. -/
  recipientId : Option Nat
  recipientKey : JsString
  recipientName : Option JsString
  recipientEmail : JsString
  /-- The status is `viewed`, and not `sent`. -/
  viewed : Bool
  expiresAt : Int
  consentAt : Option Int
  signingTokenHash : TokenHash

structure SubmitSignature where
  method : SignatureMethod
  signatureImage : JsString
  fieldValues : Values

/-- What the holder of a link asks for. -/
inductive Visit
  | view (ip ua : Option JsString)
  | consent
  | submit (dto : SubmitSignature) (ip ua : Option JsString)

structure SignerView where
  documentName : JsString
  recipientName : Option JsString
  signerEmail : JsString
  fields : List TemplateField
  viewed : Bool
  consentAt : Option JsString

/-- `resolve_signing_token`: the recipient who holds the hash, or the envelope itself. -/
def resolve (db : Db) (hash : TokenHash) : Option (Option Nat) :=
  match db.recipients.find? fun r => r.signingTokenHash == some hash with
  | some rc => some (some rc.id)
  | none =>
      match db.request with
      | some row => if row.signingTokenHash = some hash then some none else none
      | none => none

def Db.findRecipient (db : Db) (id : Nat) : Option Recipient := db.recipients.find? fun r => r.id == id

def LoadedRequest.ofRecipient (row : SignatureRequest) (rc : Recipient) (hash : TokenHash) :
    LoadedRequest where
  documentName := row.documentName
  fields := row.fields.filter fun f => f.recipientKey == rc.recipientKey
  recipientId := some rc.id
  recipientKey := rc.recipientKey
  recipientName := rc.name
  recipientEmail := rc.email
  viewed := rc.status == .viewed
  expiresAt := row.expiresAt
  consentAt := rc.consentAt
  signingTokenHash := hash

def LoadedRequest.ofLegacy (row : SignatureRequest) (hash : TokenHash) : LoadedRequest where
  documentName := row.documentName
  fields := row.fields
  recipientId := none
  recipientKey := js "signer"
  recipientName := row.recipientName
  recipientEmail := row.recipientEmail
  viewed := row.status == .viewed
  expiresAt := row.expiresAt
  consentAt := row.consentAt
  signingTokenHash := hash

def LoadedRequest.signerView (req : LoadedRequest) : SignerView where
  documentName := req.documentName
  recipientName := req.recipientName
  signerEmail := req.recipientEmail
  fields := req.fields
  viewed := req.viewed
  consentAt := req.consentAt.map toISOString

def LoadedRequest.viewWrite (req : LoadedRequest) (now : Int) (ip ua : Option JsString) : Write :=
  match req.recipientId with
  | some id => .viewed id now ip ua
  | none => .viewedLegacy now ip ua

def LoadedRequest.consentWrite (req : LoadedRequest) (now : Int) : Write :=
  match req.recipientId with
  | some id => .consented id now
  | none => .consentedLegacy now

def LoadedRequest.claimWrite (req : LoadedRequest) (data : ClaimData) : Write :=
  match req.recipientId with
  | some id => .claimed id req.signingTokenHash data
  | none => .claimedLegacy req.signingTokenHash data

/-- The checks of `submit` before its claim, and what it claims with; the image is stored under a new
key. -/
def claimData (cfg : Config) (req : LoadedRequest) (dto : SubmitSignature) (ip ua : Option JsString)
    (now : Int) (signatureKey : Nat) : Option ClaimData :=
  if req.consentAt = none then none
  else
    match decodeSignaturePng cfg.fromBase64 dto.signatureImage with
    | none => none
    | some _ =>
        let resolved := resolveFieldValues cfg.platform req.fields dto.fieldValues now
        if resolved.accepted then
          some
            { completedAt := now
              signatureMethod := dto.method
              signatureImageKey := signatureKey
              fieldValues := resolved.values
              signerIp := ip
              signerUserAgent := ua }
        else none

/-! ## Mail -/

/-- What the sweeps send themselves. -/
inductive Mail
  | expired (to_ : JsString) (documentName : JsString) (unsigned : List JsString)
  | reminder (to_ : JsString) (recipientName : Option JsString) (documentName : JsString) (token : Nat)
      (daysWaiting : Int)
  deriving DecidableEq

/-- The queue's job for an invitation of a hand-off. -/
def PendingInvite.job (invite : PendingInvite) (documentName : JsString) : Job where
  id := .invite invite.id
  payload := .invite
    { to_ := invite.email
      recipientName := invite.name
      documentName := documentName
      senderName := none
      token := invite.token
      subject := none
      message := none }

def voidedJob (documentName : JsString) (reason : Option JsString) (r : Recipient) : Job where
  id := .void r.id
  payload := .voidedEmail r.email r.name documentName reason

def resendJob (row : SignatureRequest) (rc : Recipient) (token : Nat) (now : Int) : Job where
  id := .resend rc.id now
  payload := .inviteEmail
    { to_ := rc.email
      recipientName := rc.name
      documentName := row.documentName
      senderName := none
      token := token
      subject := row.emailSubject
      message := row.emailMessage }

def reminderMail (row : SignatureRequest) (rc : Recipient) (token : Nat) (now : Int) : Mail :=
  let since := ((rc.lastRemindedAt.or rc.sentAt).getD row.sentAt)
  -- `Math.round` of the days.
  .reminder rc.email rc.name row.documentName token (max 1 ((2 * (now - since) + dayMs) / (2 * dayMs)))

/-- The sender is told once, when there is an address to write to. -/
def expiredMail (row : SignatureRequest) (unsigned : List JsString) : Option Mail :=
  if row.expiredNotifiedAt = none then
    match row.senderEmail with
    | some email => if email = [] then none else some (.expired email row.documentName unsigned)
    | none => none
  else none

/-! ## Who is due -/

def RESEND_COOLDOWN_MS : Int := 60000

/-- `find_expired_envelopes`, on this envelope. -/
def findExpired (db : Db) (now : Int) : Bool :=
  match db.request with
  | some row => row.open_ && decide (row.expiresAt ≤ now)
  | none => false

def Recipient.waitingSince (r : Recipient) : Option Int := r.lastRemindedAt.or r.sentAt

/-- `find_recipients_to_remind`, on this envelope. -/
def findRecipientsToRemind (cfg : Config) (db : Db) (now : Int) : List Nat :=
  match db.request with
  | some row =>
      if row.open_ && decide (now < row.expiresAt) then
        let due := db.recipients.filter fun r =>
          r.role == .signer && r.open_ && r.signingTokenHash.isSome &&
            decide (r.reminderCount < cfg.reminderMax) &&
            r.waitingSince.any fun since => decide (since ≤ now - cfg.reminderAfterDays * dayMs)
        ((due.insertionSort fun a b => a.waitingSince.getD 0 ≤ b.waitingSince.getD 0).take 50).map
          Recipient.id
      else []
  | none => []

/-! ## Processes -/

inductive Answer
  | ok
  | view (v : SignerView)
  /-- The one failure of the public surface. -/
  | notValid
  | notFound
  | conflict (message : JsString)
  | serviceUnavailable (message : JsString)
  | swept (count : Nat)
  | failed

/-- What a process goes on to do once its transaction has committed. -/
inductive Kont
  | answer (a : Answer)
  | claimed (token : Nat) (documentName : JsString) (now : Int)
  | completed
  | handedOff (documentName : JsString) (invites : List PendingInvite)
  | notify (jobs : List Job)
  | expired (mail : Option Mail)
  | reminded (mail : Mail) (rest : List Nat) (total : Nat)

inductive Proc
  | idle
  | done (a : Answer)
  | resolving (token : Nat) (visit : Visit)
  | requestReading (token : Nat) (visit : Visit) (recipientId : Option Nat)
  | recipientReading (token : Nat) (visit : Visit) (recipientId : Nat) (row : SignatureRequest)
  | loaded (token : Nat) (visit : Visit) (req : LoadedRequest)
  /-- About to commit. -/
  | writing (w : Write) (k : Kont)
  | advancing (documentName : JsString) (now : Int)
  /-- With each invitation, whether the hand-off wrote its row: the code does not look. -/
  | inviting (documentName : JsString) (invites : List (PendingInvite × Bool))
  | completing
  | sending (jobs : List Job)
  | voidReading (reason : Option JsString)
  | voidUpdating (people : List Recipient) (documentName : JsString) (reason : Option JsString) (now : Int)
  | notifying (jobs : List Job)
  | remindReading (id : Nat)
  | remindRecipientReading (id : Nat)
  | resendReading (id : Nat)
  | resendRecipientReading (id : Nat) (row : SignatureRequest)
  | expireFinding
  | expireReading
  | expireUpdating (row : SignatureRequest) (unsigned : List JsString)
  | expiredMailing (mail : Mail)
  | reminderFinding
  | reminding (due : List Nat) (total : Nat)
  | reminderRequestReading (rc : Recipient) (rest : List Nat) (total : Nat)
  | reminderMailing (mail : Mail) (rest : List Nat) (total : Nat)

inductive Call
  | visit (token : Nat) (visit : Visit)
  | void (reason : Option JsString)
  | resend (id : Nat)
  | remind (id : Nat)
  | sweepExpiredEnvelopes
  | sweepReminders

def Call.begin : Call → Proc
  | .visit token v => .resolving token v
  | .void reason => .voidReading reason
  | .resend id => .resendReading id
  | .remind id => .remindReading id
  | .sweepExpiredEnvelopes => .expireFinding
  | .sweepReminders => .reminderFinding

inductive Choice
  | call (c : Call)
  | next
  /-- An enqueue fails for its caller; the queue may have taken the job all the same. -/
  | fail (taken : Bool)
  /-- The process dies, or the database or the storage fails under it. -/
  | crash

inductive Event
  | clock (now : Int)
  | processed (id : JobId)

/-- A successful submit: the token it was made with and the row its claim rewrote. -/
inductive SignedRow
  | recipient (before after : Recipient)
  | legacy (before after : SignatureRequest)

structure Signing where
  token : Nat
  row : SignedRow

structure World where
  now : Int
  db : Db
  queue : Queue
  mailed : List Mail
  /-- How many tokens, and how many storage keys, were ever drawn. -/
  minted : Nat
  images : Nat
  /-- The history of successful submits, newest first. -/
  signings : List Signing

/-- The rows a claim rewrites. -/
def Write.signedRows (w : Write) (db : Db) : List SignedRow :=
  match w with
  | .claimed id hash _ =>
      (db.recipients.filter fun r => r.id == id && r.signingTokenHash == some hash && r.open_).map
        fun r => .recipient r (w.onRecipient r)
  | .claimedLegacy hash _ =>
      (db.request.toList.filter fun s => s.signingTokenHash == some hash && s.open_).map
        fun s => .legacy s (w.onRequest s)
  | _ => []

/-- The submits a commit makes successful. -/
def Write.signings (w : Write) (k : Kont) (db : Db) : List Signing :=
  match k with
  | .claimed token _ _ => if w.count db = 1 then (w.signedRows db).map fun row => ⟨token, row⟩ else []
  | _ => []

/-- The hand-off's update of the row matches it. -/
def storesInvite (db : Db) (invite : PendingInvite) : Bool :=
  db.recipients.any fun r => r.id == invite.id && r.status == .pending

/-- What follows a commit on the rows `db`. -/
def Kont.after (k : Kont) (w : Write) (db : Db) : Proc :=
  match k with
  | .answer a => .done a
  | .claimed _ documentName now =>
      if w.count db = 1 then
        match w with
        | .claimed .. => .advancing documentName now
        | _ => .completing
      else .done .notValid
  | .completed => .completing
  | .handedOff documentName invites => .inviting documentName (invites.map fun i => (i, storesInvite db i))
  | .notify jobs => .notifying jobs
  | .expired (some mail) => .expiredMailing mail
  | .expired none => .done (.swept 1)
  | .reminded mail rest total =>
      if w.count db = 1 then .reminderMailing mail rest total else .reminding rest total

/-- The commit of a transaction. -/
def World.commit (w : World) (write : Write) (k : Kont) : World :=
  { w with db := w.db.write write, signings := write.signings k w.db ++ w.signings }

def World.enqueue (w : World) (job : Job) : World := { w with queue := w.queue.add job }

def World.mail (w : World) (mail : Mail) : World := { w with mailed := mail :: w.mailed }

/-- The recipients an update of everyone who has not completed passes over. -/
def passedOver (db : Db) : List Nat :=
  (db.recipients.filter fun r => r.status == .completed).map Recipient.id

/-- The next step of a process when nothing goes wrong. -/
def next (cfg : Config) (w : World) : Proc → Option (World × Proc)
  | .idle => none
  | .done _ => none
  | .resolving token visit =>
      match resolve w.db (.sha256 token) with
      | none => some (w, .done .notValid)
      | some recipientId => some (w, .requestReading token visit recipientId)
  -- Every reason to refuse a link is answered alike.
  | .requestReading token visit recipientId =>
      match w.db.request with
      | none => some (w, .done .notValid)
      | some row =>
          if row.expiresAt ≤ w.now then some (w, .done .notValid)
          else if row.status = .voided then some (w, .done .notValid)
          else
            match recipientId with
            | some id => some (w, .recipientReading token visit id row)
            | none =>
                if row.signingTokenHash = some (.sha256 token) ∧ row.open_ = true then
                  some (w, .loaded token visit (.ofLegacy row (.sha256 token)))
                else some (w, .done .notValid)
  | .recipientReading token visit id row =>
      match w.db.findRecipient id with
      | none => some (w, .done .notValid)
      | some rc =>
          if rc.signingTokenHash = some (.sha256 token) ∧ rc.open_ = true then
            some (w, .loaded token visit (.ofRecipient row rc (.sha256 token)))
          else some (w, .done .notValid)
  | .loaded _ (.view ip ua) req =>
      if req.viewed then some (w, .done (.view req.signerView))
      else some (w, .writing (req.viewWrite w.now ip ua) (.answer (.view req.signerView)))
  | .loaded _ .consent req =>
      if req.consentAt = none then some (w, .writing (req.consentWrite w.now) (.answer .ok))
      else some (w, .done .ok)
  | .loaded token (.submit dto ip ua) req =>
      match claimData cfg req dto ip ua w.now w.images with
      | none => some (w, .done .notValid)
      | some data =>
          some ({ w with images := w.images + 1 },
            .writing (req.claimWrite data) (.claimed token req.documentName w.now))
  | .writing write k => some (w.commit write k, k.after write w.db)
  -- The decision is made on one reading of the rows; the commit that follows looks at them again.
  | .advancing documentName now =>
      match advanceEnvelope w.db with
      | .nothing => some (w, .done .ok)
      | .complete => some (w, .writing (.completed now) .completed)
      | .handOff group =>
          let minted := mintGroup group w.minted
          some ({ w with minted := w.minted + mintCount group },
            .writing (.handedOff (handOffs minted) now) (.handedOff documentName (handOffInvites minted)))
  | .inviting _ [] => some (w, .done .ok)
  | .inviting documentName (invite :: rest) =>
      some (w.enqueue (invite.1.job documentName), .inviting documentName rest)
  | .completing => some (w.enqueue ⟨.complete, .complete⟩, .done .ok)
  | .sending [] => some (w, .done .ok)
  | .sending (job :: rest) => some (w.enqueue job, .sending rest)
  | .voidReading reason =>
      match w.db.request with
      | none => some (w, .done .notFound)
      | some row =>
          if row.status = .completed then
            some (w, .done (.conflict (js "This document is already signed and cannot be cancelled.")))
          else if row.status = .voided then some (w, .done .ok)
          else
            some (w, .voidUpdating (w.db.recipients.filter fun r => r.status != .completed)
              row.documentName reason w.now)
  -- Who has completed by the second update keeps their link; the envelope itself is updated at the commit.
  | .voidUpdating people documentName reason now =>
      some (w, .writing (.voided (passedOver w.db) now)
        (.notify (people.map (voidedJob documentName reason))))
  | .notifying [] => some (w, .done .ok)
  | .notifying (job :: rest) => some (w.enqueue job, .notifying rest)
  -- `remind` is a resend behind two checks of its own.
  | .remindReading id =>
      match w.db.request with
      | none => some (w, .done .notFound)
      | some row =>
          if row.open_ then some (w, .remindRecipientReading id)
          else some (w, .done (.conflict (js "This document is no longer awaiting signatures.")))
  | .remindRecipientReading id =>
      match w.db.findRecipient id with
      | none => some (w, .done .notFound)
      | some rc =>
          if rc.status = .completed then
            some (w, .done (.conflict (js "They have already signed.")))
          else if rc.signingTokenHash = none then
            some (w, .done (.conflict
              (js "That recipient has no active link; use Resend instead.")))
          else some (w, .resendReading id)
  | .resendReading id =>
      match w.db.request with
      | none => some (w, .done .notFound)
      | some row =>
          if row.open_ then some (w, .resendRecipientReading id row)
          else some (w, .done (.conflict (js "This document is no longer awaiting signatures.")))
  | .resendRecipientReading id row =>
      match w.db.findRecipient id with
      | none => some (w, .done .notFound)
      | some rc =>
          if rc.role ≠ .signer then some (w, .done (.conflict (js "That recipient does not sign.")))
          else if rc.status = .completed then
            some (w, .done (.conflict (js "They have already signed.")))
          else if rc.status = .pending then
            some (w, .done (.conflict (js "It is not this person's turn yet.")))
          else if ((rc.sentAt.or rc.lastRemindedAt).any fun since =>
              decide (w.now - since < RESEND_COOLDOWN_MS)) = true then
            some (w, .done (.conflict
              (js "A link was just sent to this person. Wait a moment before sending another.")))
          else
            some ({ w with minted := w.minted + 1 },
              .writing (.resent id w.minted w.now) (.notify [resendJob row rc w.minted w.now]))
  | .expireFinding =>
      if findExpired w.db w.now then some (w, .expireReading) else some (w, .done (.swept 0))
  | .expireReading =>
      match w.db.request with
      | none => some (w, .done (.swept 1))
      | some row =>
          some (w, .expireUpdating row
            ((w.db.recipients.filter fun r => r.role == .signer && r.status != .completed).map
              Recipient.email))
  | .expireUpdating row unsigned =>
      some (w, .writing (.expired (passedOver w.db) row.expiredNotifiedAt.isSome w.now)
        (.expired (expiredMail row unsigned)))
  | .expiredMailing mail => some (w.mail mail, .done (.swept 1))
  | .reminderFinding =>
      let due := findRecipientsToRemind cfg w.db w.now
      some (w, .reminding due due.length)
  | .reminding [] total => some (w, .done (.swept total))
  -- Each recipient found due is read again, and then once more by the update.
  | .reminding (id :: rest) total =>
      match w.db.findRecipient id with
      | none => some (w, .reminding rest total)
      | some rc => some (w, .reminderRequestReading rc rest total)
  | .reminderRequestReading rc rest total =>
      match w.db.request with
      | none => some (w, .reminding rest total)
      | some row =>
          if rc.status = .completed then some (w, .reminding rest total)
          else
            some ({ w with minted := w.minted + 1 },
              .writing (.reminded rc.id w.minted rc.reminderCount w.now)
                (.reminded (reminderMail row rc w.minted w.now) rest total))
  | .reminderMailing mail rest total => some (w.mail mail, .reminding rest total)

/-- An enqueue that fails for its caller. -/
def failEnqueue (taken : Bool) (w : World) : Proc → Option (World × Proc)
  -- A signature that was committed is not failed: the loss is logged.
  | .inviting documentName (invite :: rest) =>
      some (if taken then w.enqueue (invite.1.job documentName) else w, .inviting documentName rest)
  | .completing => some (if taken then w.enqueue ⟨.complete, .complete⟩ else w, .done .ok)
  | .notifying (job :: rest) => some (if taken then w.enqueue job else w, .notifying rest)
  -- Only the send itself rolls back.
  | .sending (job :: _) =>
      some (if taken then w.enqueue job else w, .writing .deleted (.answer (.serviceUnavailable
        (js "Could not send right now — the background service is unavailable. Please try again."))))
  | _ => none

/-- The process is not handling any call. -/
def Proc.atRest : Proc → Bool
  | .idle => true
  | .done _ => true
  | _ => false

/-- A submit is under way. -/
def Proc.submitting : Proc → Bool
  | .resolving _ (.submit ..) | .requestReading _ (.submit ..) _ => true
  | .recipientReading _ (.submit ..) _ _ | .loaded _ (.submit ..) _ => true
  | .writing (.claimed ..) _ | .writing (.claimedLegacy ..) _ => true
  | .writing (.completed _) _ | .writing (.handedOff ..) _ => true
  | .advancing _ _ | .inviting _ _ | .completing => true
  | _ => false

def act (cfg : Config) (_ : Nat) (choice : Choice) (w : World) (l : Proc) : Option (World × Proc) :=
  match choice with
  | .call c => if l.atRest then some (w, c.begin) else none
  | .next => next cfg w l
  | .fail taken => failEnqueue taken w l
  | .crash => if l.atRest then none else some (w, .done .failed)

def env (e : Event) (w : World) : Option World :=
  match e with
  | .clock now => some { w with now := now }
  | .processed id => some { w with queue := w.queue.remove id }

/-- The services under any number of concurrent calls. -/
def service (cfg : Config) : Program World Proc Choice Event := ⟨act cfg, env⟩

/-- Right after a send has committed: process 0 goes on to queue its invitations. -/
def start (s : Sending) (now : Int) : System World Proc where
  shared :=
    { now := now
      db := s.db
      queue := { present := [], accepted := [] }
      mailed := []
      minted := s.minted
      images := 0
      signings := [] }
  procs := fun p => if p = 0 then .sending s.jobs else .idle

/-- Replay a schedule right after a send, checking every step. -/
def replayIf (check : System World Proc → Label Choice Event → Bool) (cfg : Config)
    (template : Template) (input : SendRequest) (now : Int) (schedule : List (Label Choice Event)) :
    Option (System World Proc) :=
  match send cfg (some template) input none now with
  | .ok s => (service cfg).runIf check (start s now) schedule
  | .error _ => none

/-- Replay a schedule right after a send. -/
def replay (cfg : Config) (template : Template) (input : SendRequest) (now : Int)
    (schedule : List (Label Choice Event)) : Option (System World Proc) :=
  replayIf (fun _ _ => true) cfg template input now schedule

theorem replayIf_spec {check : System World Proc → Label Choice Event → Bool} {cfg : Config}
    {template : Template} {input : SendRequest} {now : Int} {schedule : List (Label Choice Event)}
    {s : System World Proc} (h : replayIf check cfg template input now schedule = some s) :
    ∃ sending, send cfg (some template) input none now = .ok sending ∧
      Reaches (service cfg) (fun s l => check s l = true) (start sending now) s := by
  unfold replayIf at h
  split at h
  · rename_i sending hsend
    exact ⟨sending, hsend, Reaches.of_runIf h⟩
  · cases h

theorem replay_spec {cfg : Config} {template : Template} {input : SendRequest} {now : Int}
    {schedule : List (Label Choice Event)} {s : System World Proc}
    (h : replay cfg template input now schedule = some s) :
    ∃ sending, send cfg (some template) input none now = .ok sending ∧
      Reaches (service cfg) (fun _ _ => True) (start sending now) s := by
  obtain ⟨sending, hsend, hreaches⟩ := replayIf_spec h
  exact ⟨sending, hsend, hreaches.mono fun _ _ _ => trivial⟩

/-- What holds of the processes a schedule moves, and of an idle one, holds of all. -/
theorem forall_procs_of_replayIf {check : System World Proc → Label Choice Event → Bool} {cfg : Config}
    {template : Template} {input : SendRequest} {now : Int} {schedule : List (Label Choice Event)}
    {s : System World Proc} (h : replayIf check cfg template input now schedule = some s) {n : Nat}
    (hn : 0 < n) (hschedule : schedule.all (Label.below n) = true) {Q : Proc → Bool}
    (hidle : Q .idle = true) (hmoved : ((List.range n).all fun p => Q (s.procs p)) = true) (p : Nat) :
    Q (s.procs p) = true := by
  by_cases hp : p < n
  · exact List.all_eq_true.mp hmoved p (List.mem_range.mpr hp)
  · unfold replayIf at h
    split at h
    · rw [Program.procs_of_runIf hschedule (Nat.le_of_not_lt hp) h]
      have hp0 : p ≠ 0 := by omega
      simp only [start, hp0, if_false]
      exact hidle
    · cases h

/-! ## A small envelope -/

/-- The runtime as it behaves on the signature image of `exampleSignature`. -/
def exampleConfig : Config where
  platform :=
    { email := fun _ => true, uuid := fun _ => true, isLetter := fun _ => false, isMark := fun _ => false }
  fromBase64 := fun _ => PNG_SIGNATURE ++ [0, 0, 0, 13, 0x49, 0x48, 0x44, 0x52, 0, 0, 0, 1, 0, 0, 0, 1]
  emailDigest := fun email => email.foldl (fun n u => n * 65536 + u.toNat) 0
  linkTtlDays := 14
  reminderAfterDays := 3
  reminderMax := 3

def signatureField (key : String) : TemplateField where
  id := js key
  type := .signature
  page := 1
  x := 1 / 10
  y := 1 / 10
  w := 1 / 5
  h := 1 / 20
  required := true
  recipientKey := js key
  label := none
  options := none

/-- A contract with a place to sign for each of three parties. -/
def exampleTemplate : Template := ⟨js "contract", [signatureField "a", signatureField "b", signatureField "c"]⟩

def exampleRecipient (key : String) (role : RecipientRole) (routingOrder : Nat) : SendRecipient where
  email := js key ++ js "@sign.uz"
  name := none
  role := role
  routingOrder := routingOrder
  recipientKey := js key

def exampleInput (routingMode : RoutingMode) (recipients : List SendRecipient) : SendRequest where
  templateId := js "6f9619ff-8b86-4d01-b42d-00cf4fc964ff"
  routingMode := routingMode
  recipients := recipients
  subject := none
  message := none

def exampleSignature : SubmitSignature where
  method := .drawn
  signatureImage := js "data:image/png;base64,iVBORw0KGgoAAAANSUhEUgAAAAEAAAAB"
  fieldValues := fun _ => none

/-- Process `p` makes a call and goes on for `steps` steps. -/
def exampleCall (p : Nat) (c : Call) (steps : Nat) : List (Label Choice Event) :=
  .proc p (.call c) :: List.replicate steps (.proc p .next)

/-- Process `p` agrees to sign with a link. -/
def exampleConsent (p token : Nat) : List (Label Choice Event) :=
  exampleCall p (.visit token .consent) 5

/-- Process `p` submits a signature, up to the commit of its claim. -/
def exampleClaim (p token : Nat) : List (Label Choice Event) :=
  exampleCall p (.visit token (.submit exampleSignature none none)) 5

end ESignSoft.Envelope
