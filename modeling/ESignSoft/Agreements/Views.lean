import ESignSoft.Envelope.Send
import ESignSoft.Lib.EarliestFirst
import ESignSoft.Lib.JsDate

/-!
# The documents of a workspace

`list` answers with one row for each envelope, and the quick views of the agreements page are predicates over
these rows.  Of the people on an envelope a row tells how many sign and how many have signed, and the address
of the first signer.

* `toWire` — the row of an envelope;
* `selectRows` — the rows of a view;
* `mem_toSign_iff` — whose row is in the To Sign view.
-/

namespace ESignSoft.Agreements

open ESignSoft.Lib ESignSoft.Lib.JsText ESignSoft.Lib.JsDate ESignSoft.Contracts ESignSoft.Envelope

/-! ## Rows -/

/-- An envelope as `list` reads it, its recipients, as the sender listed them, and the name of its folder
included. -/
structure EnvelopeRow where
  id : JsString
  request : SignatureRequest
  recipients : List Recipient
  folderId : Option JsString
  folderName : Option JsString
  deletedAt : Option Int
  signedPdfKey : Option JsString

structure SignatureRequestWire where
  id : JsString
  documentName : JsString
  recipientEmail : JsString
  recipientName : Option JsString
  routingMode : RoutingMode
  signedCount : Nat
  signerCount : Nat
  status : SignatureStatus
  sentAt : JsString
  viewedAt : Option JsString
  completedAt : Option JsString
  expiresAt : JsString
  lastChangeAt : JsString
  waitingOn : Option JsString
  senderEmail : Option JsString
  folderId : Option JsString
  folderName : Option JsString
  deletedAt : Option JsString
  hasSignedPdf : Bool

/-- `Boolean(text)`. -/
def truthy (text : Option JsString) : Bool := text.any fun t => t != []

def EnvelopeRow.signers (row : EnvelopeRow) : List Recipient := row.recipients.filter fun r => r.role == .signer

/-- The first of those who have not finished, by routing order. -/
def EnvelopeRow.outstanding (row : EnvelopeRow) : Option Recipient :=
  let unfinished := row.signers.filter fun r => r.status != .completed
  (unfinished.mergeSort fun a b => a.routingOrder ≤ b.routingOrder).head?

/-- The most recent movement of any kind. -/
def lastChange (request : SignatureRequest) : Int :=
  let dates := [request.completedAt, request.voidedAt, request.viewedAt, some request.sentAt].filterMap id
  dates.tail.foldl (fun a b => if a ≥ b then a else b) (dates.headD request.sentAt)

/-- `outstanding.name?.trim() || outstanding.email || null`. -/
def displayName (r : Recipient) : Option JsString :=
  (trimmed r.name).or (if r.email = [] then none else some r.email)

def toWire (row : EnvelopeRow) : SignatureRequestWire where
  id := row.id
  documentName := row.request.documentName
  recipientEmail := row.request.recipientEmail
  recipientName := row.request.recipientName
  routingMode := row.request.routingMode
  signedCount := row.signers.countP fun r => r.status == .completed
  signerCount := row.signers.length
  status := row.request.status
  sentAt := toISOString row.request.sentAt
  viewedAt := row.request.viewedAt.map toISOString
  completedAt := row.request.completedAt.map toISOString
  expiresAt := toISOString row.request.expiresAt
  lastChangeAt := toISOString (lastChange row.request)
  waitingOn := if row.request.open_ then row.outstanding.bind displayName else none
  senderEmail := row.request.senderEmail
  folderId := row.folderId
  folderName := row.folderName
  deletedAt := row.deletedAt.map toISOString
  hasSignedPdf := truthy row.signedPdfKey

/-- `orderBy: { sentAt: 'desc' }, take: 500`: the order of envelopes sent at the same instant is the
database's. -/
def Listed (rows listed : List EnvelopeRow) : Prop := Earliest (fun row => -row.request.sentAt) 500 rows listed

/-- The answer of `list`. -/
def list (listed : List EnvelopeRow) : List SignatureRequestWire := listed.map toWire

/-! ## Views -/

inductive ViewKey
  | toSign
  | inbox
  | waiting
  | sent
  | drafts
  | completed
  | deleted

/-- The envelope can still be signed by somebody. -/
def isLive (r : SignatureRequestWire) : Bool := r.status == .sent || r.status == .viewed

/-- The rows of a view; `myEmail` is the address of whoever looks, in lower case. -/
def selectRows (view : ViewKey) (all : List SignatureRequestWire) (myEmail : Option JsString) :
    List SignatureRequestWire :=
  let alive := all.filter fun r => !truthy r.deletedAt
  let mine := fun r : SignatureRequestWire => myEmail.any fun me => toLowerCase r.recipientEmail == me
  match view with
  | .toSign => alive.filter fun r => mine r && isLive r && r.signedCount < r.signerCount
  | .inbox => alive.filter mine
  | .waiting => alive.filter isLive
  | .sent => alive
  | .completed => alive.filter fun r => r.status == .completed
  | .deleted => all.filter fun r => truthy r.deletedAt
  | .drafts => []

/-! ## To Sign -/

theorem truthy_deletedAt (row : EnvelopeRow) : truthy (toWire row).deletedAt = row.deletedAt.isSome := by
  unfold toWire truthy
  cases row.deletedAt with
  | none => rfl
  | some t =>
      have hlength := length_toISOString t
      cases htext : toISOString t with
      | nil =>
          rw [htext] at hlength
          cases hlength
      | cons u rest => simp [htext]

/-- Fewer have signed than sign unless all have signed. -/
theorem signedCount_lt_iff (row : EnvelopeRow) :
    (toWire row).signedCount < (toWire row).signerCount ↔ ¬ AllSigned row.recipients := by
  have hall : (toWire row).signedCount = (toWire row).signerCount ↔ AllSigned row.recipients := by
    show row.signers.countP (fun r => r.status == .completed) = row.signers.length ↔ _
    rw [List.countP_eq_length]
    simp only [EnvelopeRow.signers, AllSigned, List.mem_filter, beq_iff_eq, and_imp]
  have hle : (toWire row).signedCount ≤ (toWire row).signerCount := List.countP_le_length
  rw [lt_iff_le_and_ne, and_iff_right hle, Ne, hall]

theorem mem_selectRows_toSign {w : SignatureRequestWire} {all : List SignatureRequestWire} {me : JsString} :
    w ∈ selectRows .toSign all (some me) ↔
      w ∈ all ∧ truthy w.deletedAt = false ∧ toLowerCase w.recipientEmail = me ∧ isLive w = true ∧
        w.signedCount < w.signerCount := by
  simp only [selectRows, List.mem_filter, Option.any_some, Bool.and_eq_true, Bool.not_eq_true', beq_iff_eq,
    decide_eq_true_eq, and_assoc]

/-- What the row of an envelope is shown for in To Sign. -/
structure ShownToSign (me : JsString) (row : EnvelopeRow) : Prop where
  alive : row.deletedAt = none
  mine : toLowerCase row.request.recipientEmail = me
  live : row.request.open_ = true
  unfinished : ¬ AllSigned row.recipients

/-- **To Sign** has a row of each live envelope with somebody yet to sign whose first signer is addressed. -/
theorem mem_toSign_iff {listed : List EnvelopeRow} {me id : JsString} :
    (∃ w ∈ selectRows .toSign (list listed) (some me), w.id = id) ↔
      ∃ row ∈ listed, row.id = id ∧ ShownToSign me row := by
  constructor
  · rintro ⟨w, hw, rfl⟩
    obtain ⟨hmem, hdeleted, hmine, hlive, hcount⟩ := mem_selectRows_toSign.mp hw
    obtain ⟨row, hrow, rfl⟩ := List.mem_map.mp hmem
    rw [truthy_deletedAt] at hdeleted
    have halive : row.deletedAt = none := by simpa using hdeleted
    exact ⟨row, hrow, rfl, halive, hmine, hlive, (signedCount_lt_iff row).mp hcount⟩
  · rintro ⟨row, hrow, rfl, hshown⟩
    refine ⟨toWire row, mem_selectRows_toSign.mpr ⟨List.mem_map_of_mem hrow, ?_, hshown.mine, hshown.live,
      (signedCount_lt_iff row).mpr hshown.unfinished⟩, rfl⟩
    rw [truthy_deletedAt, hshown.alive]
    rfl

end ESignSoft.Agreements
