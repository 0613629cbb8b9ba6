import ESignSoft.Envelope.Advance
import Mathlib.Logic.Function.Basic

/-!
# Sending an envelope

`send` snapshots the template, mints a token for everyone in the first routing group and creates the
rows in one transaction; it answers with the rows, the number of tokens minted and the invitations it
goes on to queue.  Whether they are all queued decides if the rows stay.

* `send_spec` — the rows a send creates.
-/

namespace ESignSoft.Envelope

open ESignSoft.Lib.JsText ESignSoft.Lib.Table ESignSoft.Contracts

/-! ## Jobs -/

/-- An invitation to sign; its `signUrl` ends in the raw token. -/
structure SigningInviteJob where
  to_ : JsString
  recipientName : Option JsString
  documentName : JsString
  senderName : Option JsString
  token : Nat
  subject : Option JsString
  message : Option JsString
  deriving DecidableEq

inductive Payload
  | invite (job : SigningInviteJob)
  | complete
  /-- A ready-made email: an invitation sent again. -/
  | inviteEmail (job : SigningInviteJob)
  /-- A ready-made email: the envelope was cancelled. -/
  | voidedEmail (to_ : JsString) (recipientName : Option JsString) (documentName : JsString)
      (reason : Option JsString)
  deriving DecidableEq

/-- The idempotency keys, without the request's own id. -/
inductive JobId
  | firstInvite (emailHash : Nat)
  | invite (recipientId : Nat)
  | complete
  | void (recipientId : Nat)
  | resend (recipientId : Nat) (now : Int)
  deriving DecidableEq

structure Job where
  id : JobId
  payload : Payload
  deriving DecidableEq

/-- The job queue, with the history of the jobs it took, newest first. -/
structure Queue where
  present : List Job
  accepted : List Job

/-- A job whose id the queue already holds is dropped. -/
def Queue.add (job : Job) (q : Queue) : Queue :=
  if q.present.any fun j => j.id == job.id then q
  else { present := job :: q.present, accepted := job :: q.accepted }

theorem Queue.accepted_add (q : Queue) (job : Job) :
    (q.add job).accepted = q.accepted ∨ (q.add job).accepted = job :: q.accepted := by
  unfold Queue.add
  split
  · exact Or.inl rfl
  · exact Or.inr rfl

/-- A processed job leaves the queue. -/
def Queue.remove (id : JobId) (q : Queue) : Queue :=
  { q with present := q.present.filter fun j => j.id != id }

/-! ## Settings -/

structure Config where
  platform : Platform
  fromBase64 : JsString → List UInt8
  /-- The digest of a lower-case address, cut to a job id. -/
  emailDigest : JsString → Nat
  linkTtlDays : Int
  reminderAfterDays : Int
  reminderMax : Nat

def Config.hashEmailForKey (cfg : Config) (email : JsString) : Nat :=
  cfg.emailDigest (toLowerCase email)

def dayMs : Int := 86400000

/-! ## The send -/

structure Template where
  name : JsString
  fields : List TemplateField

inductive SendError
  | notFound
  | badRequest (message : JsString)
  /-- The request has no recipients, which its schema excludes. -/
  | typeError

/-- A send once its transaction has committed. -/
structure Sending where
  db : Db
  minted : Nat
  jobs : List Job

/-- Everyone in the first routing group is invited now, and everyone when all sign in parallel. -/
def invitedNow (input : SendRequest) (order : Nat) : Bool :=
  input.routingMode == .parallel || (input.recipients.map SendRecipient.routingOrder).min? == some order

/-- One token for each address, the first of them with number zero. -/
def mintTokens (invite : SendRecipient → Bool) (recipients : List SendRecipient) :
    (JsString → Option Nat) × Nat :=
  recipients.foldl
    (fun acc r =>
      if invite r then (Function.update acc.1 r.email (some acc.2), acc.2 + 1) else acc)
    (fun _ => none, 0)

/-- `text?.trim() || null`. -/
def trimmed (text : Option JsString) : Option JsString :=
  match text with
  | none => none
  | some t => if trim t = [] then none else some (trim t)

def newRecipient (invite : SendRecipient → Bool) (tokens : JsString → Option Nat) (now : Int)
    (r : SendRecipient) (id : Nat) : Recipient where
  id := id
  email := r.email
  name := r.name
  role := r.role
  routingOrder := r.routingOrder
  recipientKey := r.recipientKey
  status := if invite r then .sent else .pending
  signingTokenHash := (tokens r.email).map .sha256
  sentAt := if invite r then some now else none
  viewedAt := none
  consentAt := none
  completedAt := none
  lastRemindedAt := none
  reminderCount := 0
  signatureMethod := none
  signatureImageKey := none
  fieldValues := fun _ => none
  viewedIp := none
  viewedUserAgent := none
  signerIp := none
  signerUserAgent := none

def newRequest (cfg : Config) (template : Template) (input : SendRequest)
    (senderName : Option JsString) (firstSigner : SendRecipient) (now : Int) : SignatureRequest where
  documentName := template.name
  fields := template.fields
  routingMode := input.routingMode
  recipientEmail := firstSigner.email
  recipientName := firstSigner.name
  signingTokenHash := none
  status := .sent
  expiresAt := now + cfg.linkTtlDays * dayMs
  sentAt := now
  viewedAt := none
  consentAt := none
  completedAt := none
  voidedAt := none
  expiredNotifiedAt := none
  signatureMethod := none
  signatureImageKey := none
  fieldValues := fun _ => none
  viewedIp := none
  viewedUserAgent := none
  signerIp := none
  signerUserAgent := none
  senderEmail := senderName
  emailSubject := trimmed input.subject
  emailMessage := trimmed input.message

def firstInvite (cfg : Config) (template : Template) (input : SendRequest)
    (senderName : Option JsString) (r : SendRecipient) (token : Nat) : Job where
  id := .firstInvite (cfg.hashEmailForKey r.email)
  payload := .invite
    { to_ := r.email
      recipientName := r.name
      documentName := template.name
      senderName := senderName
      token := token
      subject := trimmed input.subject
      message := trimmed input.message }

/-- Whom a send mints a token for. -/
def inviteNow (input : SendRequest) (r : SendRecipient) : Bool :=
  invitedNow input r.routingOrder && r.role == .signer

/-- The rows of `createMany`. -/
def newRecipients (input : SendRequest) (tokens : JsString → Option Nat) (now : Int) :
    List Recipient :=
  input.recipients.zipIdx.map fun r => newRecipient (inviteNow input) tokens now r.1 r.2

def send (cfg : Config) (template : Option Template) (input : SendRequest)
    (senderName : Option JsString) (now : Int) : Except SendError Sending :=
  match template with
  | none => .error .notFound
  | some template =>
      if template.fields.isEmpty then .error (.badRequest (js "template has no fields to sign"))
      else
        match assertSignersAreTagged input template.fields with
        | .error message => .error (.badRequest message)
        | .ok () =>
            match (input.recipients.find? fun r => r.role == .signer).or input.recipients.head? with
            | none => .error .typeError
            | some firstSigner =>
                let tokens := mintTokens (inviteNow input) input.recipients
                .ok
                  { db :=
                      { request := some (newRequest cfg template input senderName firstSigner now)
                        recipients := newRecipients input tokens.1 now }
                    minted := tokens.2
                    jobs := input.recipients.filterMap fun r =>
                      (tokens.1 r.email).map (firstInvite cfg template input senderName r) }

/-! ## What a send creates -/

/-- Each invited address has a token of its own, and nobody else has one. -/
theorem mintTokens_spec (invite : SendRecipient → Bool) (recipients : List SendRecipient) :
    let tokens := mintTokens invite recipients
    (∀ e t, tokens.1 e = some t → t < tokens.2 ∧ ∃ r ∈ recipients, r.email = e ∧ invite r = true) ∧
    (∀ r ∈ recipients, invite r = true → (tokens.1 r.email).isSome) ∧
    ∀ e e' t, tokens.1 e = some t → tokens.1 e' = some t → e = e' := by
  induction recipients using List.reverseRecOn with
  | nil => simp [mintTokens]
  | append_singleton rest r ih =>
      simp only at ih ⊢
      have hfold : mintTokens invite (rest ++ [r]) =
          if invite r then (Function.update (mintTokens invite rest).1 r.email
            (some (mintTokens invite rest).2), (mintTokens invite rest).2 + 1)
          else mintTokens invite rest := by
        simp [mintTokens, List.foldl_append]
      generalize mintTokens invite rest = acc at hfold ih
      obtain ⟨hknown, hinvited, hinj⟩ := ih
      rw [hfold]
      by_cases hr : invite r = true
      · rw [if_pos hr]
        refine ⟨fun e t ht => ?_, fun q hq hinvite => ?_, fun e e' t ht ht' => ?_⟩
        · by_cases he : e = r.email
          · subst he
            simp only [Function.update_self, Option.some.injEq] at ht
            exact ⟨by simp only; omega, r, by simp, rfl, hr⟩
          · simp only [Function.update_of_ne he] at ht
            obtain ⟨hlt, q, hq, hqe, hqi⟩ := hknown e t ht
            exact ⟨by simp only; omega, q, by simp [hq], hqe, hqi⟩
        · by_cases he : q.email = r.email
          · simp [he]
          · have hold : q ∈ rest := by
              rcases List.mem_append.mp hq with h | h
              · exact h
              · exact absurd (congrArg SendRecipient.email (List.mem_singleton.mp h)) he
            simpa [Function.update_of_ne he] using hinvited q hold hinvite
        · -- The new token is above every older one.
          have hlater : ∀ x, x ≠ r.email → acc.1 x = some t → t < acc.2 := fun x _ hx => (hknown x t hx).1
          simp only at ht ht'
          by_cases he : e = r.email
          · by_cases he' : e' = r.email
            · rw [he, he']
            · rw [he, Function.update_self, Option.some.injEq] at ht
              rw [Function.update_of_ne he'] at ht'
              have := hlater e' he' ht'
              omega
          · rw [Function.update_of_ne he] at ht
            by_cases he' : e' = r.email
            · rw [he', Function.update_self, Option.some.injEq] at ht'
              have := hlater e he ht
              omega
            · rw [Function.update_of_ne he'] at ht'
              exact hinj e e' t ht ht'
      · -- Nothing is minted for somebody who is not invited yet.
        rw [if_neg hr]
        refine ⟨fun e t ht => ?_, fun q hq hinvite => ?_, hinj⟩
        · obtain ⟨hlt, q, hq, hqe, hqi⟩ := hknown e t ht
          exact ⟨hlt, q, by simp [hq], hqe, hqi⟩
        · rcases List.mem_append.mp hq with h | h
          · exact hinvited q h hinvite
          · rw [List.mem_singleton.mp h] at hinvite
            exact absurd hinvite hr

theorem exists_of_mem_newRecipients {input : SendRequest} {tokens : JsString → Option Nat} {now : Int}
    {r : Recipient} (hr : r ∈ newRecipients input tokens now) :
    ∃ x ∈ input.recipients, ∃ id, r = newRecipient (inviteNow input) tokens now x id := by
  obtain ⟨x, hx, rfl⟩ := List.mem_map.mp hr
  exact ⟨x.1, List.fst_mem_of_mem_zipIdx hx, x.2, rfl⟩

/-- A column of the new rows is the column of the recipients they are made from. -/
theorem map_newRecipients {κ : Type*} (input : SendRequest) (tokens : JsString → Option Nat)
    (now : Int) (col : Recipient → κ) (col' : SendRecipient → κ)
    (hcol : ∀ r id, col (newRecipient (inviteNow input) tokens now r id) = col' r) :
    (newRecipients input tokens now).map col = input.recipients.map col' := by
  calc (newRecipients input tokens now).map col
      = (input.recipients.zipIdx.map Prod.fst).map col' := by
        rw [newRecipients, List.map_map, List.map_map]
        exact List.map_congr_left fun r _ => hcol r.1 r.2
    _ = input.recipients.map col' := by rw [List.zipIdx_map_fst]

theorem newRecipients_ids (input : SendRequest) (tokens : JsString → Option Nat) (now : Int) :
    ((newRecipients input tokens now).map Recipient.id).Nodup := by
  rw [newRecipients, List.map_map]
  show (input.recipients.zipIdx.map Prod.snd).Nodup
  rw [List.zipIdx_map_snd]
  exact List.nodup_range'

/-- The signer is in the first group, or all sign in parallel. -/
def Invited (input : SendRequest) (r : Recipient) : Prop :=
  r.role = .signer ∧ invitedNow input r.routingOrder = true

theorem invited_newRecipient {input : SendRequest} {tokens : JsString → Option Nat} {now : Int}
    {x : SendRecipient} {id : Nat} :
    Invited input (newRecipient (inviteNow input) tokens now x id) ↔ inviteNow input x = true := by
  show x.role = .signer ∧ invitedNow input x.routingOrder = true ↔ _
  simp [inviteNow, and_comm]

/-- The rows of an envelope that was just sent. -/
structure NewEnvelope (input : SendRequest) (minted : Nat) (db : Db) : Prop where
  request : ∃ row, db.request = some row ∧ row.routingMode = input.routingMode ∧
    row.status = .sent ∧ row.signingTokenHash = none
  ids : (db.recipients.map Recipient.id).Nodup
  turns : db.recipients.map (fun r => (r.role, r.routingOrder)) =
    input.recipients.map fun r => (r.role, r.routingOrder)
  signer : ∃ r ∈ db.recipients, r.role = .signer
  invited : ∀ r ∈ db.recipients, Invited input r →
    r.status = .sent ∧ ∃ t, t < minted ∧ r.signingTokenHash = some (.sha256 t)
  waiting : ∀ r ∈ db.recipients, ¬ Invited input r →
    r.status = .pending ∧ r.signingTokenHash = none
  distinct : ∀ r ∈ db.recipients, ∀ q ∈ db.recipients,
    r.signingTokenHash = q.signingTokenHash → r.signingTokenHash ≠ none → r = q
  blank : ∀ r ∈ db.recipients, r.consentAt = none

/-- Nobody has signed yet. -/
theorem NewEnvelope.not_completed {input : SendRequest} {minted : Nat} {db : Db}
    (h : NewEnvelope input minted db) {r : Recipient} (hr : r ∈ db.recipients) :
    r.status ≠ .completed := by
  by_cases hi : Invited input r
  · rw [(h.invited r hr hi).1]
    simp
  · rw [(h.waiting r hr hi).1]
    simp

theorem newEnvelope_rows {P : Platform} {input : SendRequest} (now : Int)
    (hinput : SendRequestSchema P input = true) (request : SignatureRequest)
    (hmode : request.routingMode = input.routingMode) (hstatus : request.status = .sent)
    (hhash : request.signingTokenHash = none) :
    let tokens := mintTokens (inviteNow input) input.recipients
    NewEnvelope input tokens.2 ⟨some request, newRecipients input tokens.1 now⟩ := by
  have hemails := SendRequestSchema.emails_nodup hinput
  obtain ⟨hknown, hissued, hinj⟩ := mintTokens_spec (inviteNow input) input.recipients
  generalize mintTokens (inviteNow input) input.recipients = tokens at hknown hissued hinj ⊢
  constructor
  case request => exact ⟨request, rfl, hmode, hstatus, hhash⟩
  case ids => exact newRecipients_ids input tokens.1 now
  case turns => exact map_newRecipients input tokens.1 now _ _ fun _ _ => rfl
  case signer =>
    obtain ⟨signer, hsigner, hrole⟩ := SendRequestSchema.exists_signer hinput
    have hroles := map_newRecipients input tokens.1 now Recipient.role SendRecipient.role fun _ _ => rfl
    have hin : RecipientRole.signer ∈ input.recipients.map SendRecipient.role :=
      List.mem_map.mpr ⟨signer, hsigner, hrole⟩
    rw [← hroles] at hin
    obtain ⟨r, hr, hrr⟩ := List.mem_map.mp hin
    exact ⟨r, hr, hrr⟩
  case invited =>
    intro r hr hi
    obtain ⟨x, hx, id, rfl⟩ := exists_of_mem_newRecipients hr
    have hix : inviteNow input x = true := invited_newRecipient.mp hi
    obtain ⟨t, ht⟩ := Option.isSome_iff_exists.mp (hissued x hx hix)
    exact ⟨by simp [newRecipient, hix], t, (hknown _ t ht).1, by simp [newRecipient, ht]⟩
  case waiting =>
    intro r hr hi
    obtain ⟨x, hx, id, rfl⟩ := exists_of_mem_newRecipients hr
    have hix : ¬ inviteNow input x = true := fun h => hi (invited_newRecipient.mpr h)
    -- Its address is nobody else's, so it got no token through another recipient either.
    have hnone : tokens.1 x.email = none := by
      by_contra hsome
      obtain ⟨t, ht⟩ := Option.ne_none_iff_exists'.mp hsome
      obtain ⟨-, q, hq, hqe, hqi⟩ := hknown _ t ht
      rw [eq_of_key_eq hemails hq hx hqe] at hqi
      exact hix hqi
    exact ⟨by simp [newRecipient, hix], by simp [newRecipient, hnone]⟩
  case distinct =>
    intro r hr q hq hsame hsome
    have hkeys : ((newRecipients input tokens.1 now).map Recipient.email).Nodup := by
      rw [map_newRecipients input tokens.1 now Recipient.email SendRecipient.email fun _ _ => rfl]
      exact hemails
    -- One token means one address, and one address one recipient.
    apply eq_of_key_eq hkeys hr hq
    obtain ⟨x, -, i, rfl⟩ := exists_of_mem_newRecipients hr
    obtain ⟨y, -, j, rfl⟩ := exists_of_mem_newRecipients hq
    simp only [newRecipient, ne_eq, Option.map_eq_none_iff] at hsame hsome ⊢
    obtain ⟨t, ht⟩ := Option.ne_none_iff_exists'.mp hsome
    rw [ht, Option.map_some] at hsame
    obtain ⟨t', ht', heq⟩ := Option.map_eq_some_iff.mp hsame.symm
    rw [TokenHash.sha256.inj heq] at ht'
    exact hinj _ _ t ht ht'
  case blank =>
    intro r hr
    obtain ⟨x, -, id, rfl⟩ := exists_of_mem_newRecipients hr
    rfl

/-- A send that goes through has a template with a field for each signer, and makes its rows and jobs with
one minting of tokens; the envelope is addressed to the first signer. -/
theorem send_inv {cfg : Config} {template : Option Template} {input : SendRequest}
    {senderName : Option JsString} {now : Int} {s : Sending}
    (h : send cfg template input senderName now = .ok s) :
    ∃ t firstSigner, template = some t ∧ t.fields ≠ [] ∧ assertSignersAreTagged input t.fields = .ok () ∧
      (input.recipients.find? fun r => r.role == .signer).or input.recipients.head? = some firstSigner ∧
      s =
        { db :=
            { request := some (newRequest cfg t input senderName firstSigner now)
              recipients := newRecipients input (mintTokens (inviteNow input) input.recipients).1 now }
          minted := (mintTokens (inviteNow input) input.recipients).2
          jobs := input.recipients.filterMap fun r =>
            ((mintTokens (inviteNow input) input.recipients).1 r.email).map
              (firstInvite cfg t input senderName r) } := by
  unfold send at h
  split at h
  · cases h
  · rename_i t
    split at h
    · cases h
    · rename_i hfields
      split at h
      · cases h
      · rename_i htagged
        split at h
        · cases h
        · rename_i firstSigner hfirst
          exact ⟨t, firstSigner, rfl, by simpa using hfields, htagged, hfirst, (Except.ok.inj h).symm⟩

/-- The rows a send inserts. -/
theorem send_rows {cfg : Config} {template : Option Template} {input : SendRequest}
    {senderName : Option JsString} {now : Int} {s : Sending}
    (h : send cfg template input senderName now = .ok s) :
    ∃ t firstSigner tokens, template = some t ∧
      s.db = ⟨some (newRequest cfg t input senderName firstSigner now), newRecipients input tokens now⟩ := by
  obtain ⟨t, firstSigner, ht, -, -, -, rfl⟩ := send_inv h
  exact ⟨t, firstSigner, _, ht, rfl⟩

/-- The jobs a send goes on to queue are invitations with the tokens it minted. -/
theorem exists_of_mem_jobs {cfg : Config} {template : Option Template} {input : SendRequest}
    {senderName : Option JsString} {now : Int} {s : Sending}
    (h : send cfg template input senderName now = .ok s) {job : Job} (hjob : job ∈ s.jobs) :
    ∃ t, ∃ r ∈ input.recipients, ∃ token, (mintTokens (inviteNow input) input.recipients).1 r.email = some token ∧
      job = firstInvite cfg t input senderName r token := by
  obtain ⟨t, firstSigner, -, -, -, -, rfl⟩ := send_inv h
  obtain ⟨r, hr, hsome⟩ := List.mem_filterMap.mp hjob
  obtain ⟨token, htoken, rfl⟩ := Option.map_eq_some_iff.mp hsome
  exact ⟨t, r, hr, token, htoken, rfl⟩

/-- Each link in the new rows is in the job for their address. -/
theorem mem_jobs_of_minted {cfg : Config} {template : Option Template} {input : SendRequest}
    {senderName : Option JsString} {now : Int} {s : Sending}
    (h : send cfg template input senderName now = .ok s) {r : Recipient} (hr : r ∈ s.db.recipients) {t : Nat}
    (ht : r.signingTokenHash = some (.sha256 t)) :
    ∃ template, ∃ x ∈ input.recipients, x.email = r.email ∧
      firstInvite cfg template input senderName x t ∈ s.jobs := by
  obtain ⟨template, firstSigner, -, -, -, -, rfl⟩ := send_inv h
  obtain ⟨x, hx, id, rfl⟩ := exists_of_mem_newRecipients hr
  obtain ⟨token, htoken, heq⟩ := Option.map_eq_some_iff.mp ht
  obtain rfl := TokenHash.sha256.inj heq
  refine ⟨template, x, hx, rfl, List.mem_filterMap.mpr ⟨x, hx, ?_⟩⟩
  rw [htoken]
  rfl

theorem send_spec {cfg : Config} {template : Option Template} {input : SendRequest}
    {senderName : Option JsString} {now : Int} {s : Sending}
    (hinput : SendRequestSchema cfg.platform input = true)
    (h : send cfg template input senderName now = .ok s) : NewEnvelope input s.minted s.db := by
  obtain ⟨t, firstSigner, -, -, -, -, rfl⟩ := send_inv h
  exact newEnvelope_rows now hinput _ rfl rfl rfl

end ESignSoft.Envelope
