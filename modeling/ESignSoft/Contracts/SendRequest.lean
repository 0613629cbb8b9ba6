import ESignSoft.Contracts.Fields

/-!
# What a sender submits

The contract of a send request, and the check that every signer has at least one field of the template.
-/

namespace ESignSoft.Contracts

open ESignSoft.Lib.JsText

inductive RecipientRole
  | signer
  | cc
  deriving DecidableEq, Repr

inductive RecipientStatus
  | pending
  | sent
  | viewed
  | completed
  deriving DecidableEq, Repr

inductive RoutingMode
  | parallel
  | sequential
  deriving DecidableEq, Repr

inductive SignatureStatus
  | sent
  | viewed
  | completed
  | voided
  | expired
  deriving DecidableEq, Repr

inductive SignatureMethod
  | typed
  | drawn
  | uploaded
  deriving DecidableEq, Repr

/-- One person on an envelope, as the sender specifies them. -/
structure SendRecipient where
  email : JsString
  name : Option JsString
  role : RecipientRole
  routingOrder : Nat
  recipientKey : JsString
  deriving DecidableEq

structure SendRequest where
  templateId : JsString
  routingMode : RoutingMode
  recipients : List SendRecipient
  subject : Option JsString
  message : Option JsString

def SendRecipientSchema (P : Platform) (r : SendRecipient) : Bool :=
  P.email r.email && (r.name.all fun n => 1 ≤ n.length && n.length ≤ 200) &&
    (1 ≤ r.routingOrder && r.routingOrder ≤ 50) &&
    (1 ≤ r.recipientKey.length && r.recipientKey.length ≤ 64)

/-- `toLowerCase` on an address; accepted addresses are ASCII. -/
def toLowerCase (s : JsString) : JsString :=
  s.map fun u => if 0x41 ≤ u && u ≤ 0x5A then u + 0x20 else u

def SendRequestSchema (P : Platform) (b : SendRequest) : Bool :=
  P.uuid b.templateId && (1 ≤ b.recipients.length && b.recipients.length ≤ 50) &&
    b.recipients.all (SendRecipientSchema P) &&
    (b.subject.all fun s => s.length ≤ 200) && (b.message.all fun m => m.length ≤ 2000) &&
    (b.recipients.any fun r => r.role == .signer) &&
    decide ((b.recipients.map fun r => toLowerCase r.email).Nodup)

/-- Every signer must own at least one field; the failure names the first signer without one. -/
def assertSignersAreTagged (input : SendRequest) (fields : List TemplateField) :
    Except JsString Unit :=
  match input.recipients.find? fun r =>
      r.role == .signer && !(fields.any fun f => f.recipientKey == r.recipientKey) with
  | some r => .error (r.email ++
      js " has no fields to sign — tag at least one field for them before sending.")
  | none => .ok ()

/-- No two recipients share an address, whatever its case. -/
theorem SendRequestSchema.lower_emails_nodup {P : Platform} {b : SendRequest}
    (h : SendRequestSchema P b = true) : (b.recipients.map fun r => toLowerCase r.email).Nodup := by
  simp only [SendRequestSchema, Bool.and_eq_true, decide_eq_true_eq] at h
  exact h.2

/-- Addresses that differ in lower case differ. -/
theorem SendRequestSchema.emails_nodup {P : Platform} {b : SendRequest}
    (h : SendRequestSchema P b = true) : (b.recipients.map SendRecipient.email).Nodup := by
  have hlower : ((b.recipients.map SendRecipient.email).map toLowerCase).Nodup := by
    rw [List.map_map]
    exact SendRequestSchema.lower_emails_nodup h
  exact List.Nodup.of_map toLowerCase hlower

/-- An accepted envelope has a signer. -/
theorem SendRequestSchema.exists_signer {P : Platform} {b : SendRequest}
    (h : SendRequestSchema P b = true) : ∃ r ∈ b.recipients, r.role = .signer := by
  simp only [SendRequestSchema, Bool.and_eq_true] at h
  obtain ⟨r, hr, hrole⟩ := List.any_eq_true.mp h.1.2
  exact ⟨r, hr, by simpa using hrole⟩

theorem SendRequestSchema.exists_firstSigner {P : Platform} {b : SendRequest}
    (h : SendRequestSchema P b = true) :
    ∃ first, (b.recipients.find? fun r => r.role == .signer) = some first := by
  obtain ⟨r, hr, hrole⟩ := exists_signer h
  apply Option.isSome_iff_exists.mp
  rw [List.find?_isSome]
  exact ⟨r, hr, beq_iff_eq.mpr hrole⟩

end ESignSoft.Contracts
