import ESignSoft.Templates.Starter

/-!
# The starter library

The catalogue, in its order.  A starter is found by its key.

* `nodup_keys` — the keys differ, so that every starter is found by its own;
* `wellSpecified` — what the renderer and the field schema need of a starter holds of each;
* `short_texts` — no starter is long.
-/

namespace ESignSoft.Templates

open ESignSoft.Lib.JsText ESignSoft.Contracts

def purchaseOrder : StarterSpec where
  key := js "purchase-order"
  name := js "Purchase Order"
  category := .crossIndustry
  summary := js "Order goods or services at an agreed price, signed by both sides."
  intro := js "This Purchase Order authorises the supplier named below to provide the goods or services " ++
    js "described, at the prices stated, subject to the terms agreed between the parties."
  blocks :=
    [{ heading := some (js "Buyer")
       lines :=
         [{ label := js "Company", field := some .company },
          { label := js "Contact name", field := some .name },
          { label := js "Email", field := some .email }] },
     { heading := some (js "Order details")
       lines :=
         [{ label := js "PO number", field := some .text },
          { label := js "Description of goods / services", field := some .text },
          { label := js "Quantity", field := some .text, width := some (9 / 20) },
          { label := js "Unit price", field := some .text, width := some (9 / 20) },
          { label := js "Total", field := some .text, width := some (9 / 20) },
          { label := js "Required delivery date", field := some .text, width := some (9 / 20) }] },
     { heading := some (js "Terms")
       body := some (js "Payment is due within 30 days of delivery unless otherwise agreed in writing. Delivery " ++
         js "must match the description and quantity above. Partial shipments require prior written approval.") }]
  attestation := js "By signing, the supplier accepts this Purchase Order and agrees to supply the goods or " ++
    js "services described above on the stated terms."

def salesContract : StarterSpec where
  key := js "sales-contract"
  name := js "Sales Contract"
  category := .crossIndustry
  summary := js "A short-form agreement to sell goods, with price and delivery terms."
  intro := js "This Sales Contract records the sale of the goods described below from the seller to the buyer, " ++
    js "on the terms set out in this document."
  blocks :=
    [{ heading := some (js "Parties")
       lines :=
         [{ label := js "Seller", field := some .company },
          { label := js "Buyer (full name)", field := some .name },
          { label := js "Buyer email", field := some .email }] },
     { heading := some (js "The goods")
       lines :=
         [{ label := js "Description", field := some .text },
          { label := js "Purchase price", field := some .text, width := some (9 / 20) },
          { label := js "Deposit paid", field := some .text, width := some (9 / 20) },
          { label := js "Delivery date", field := some .text, width := some (9 / 20) },
          { label := js "Delivery address", field := some .text }] },
     { heading := some (js "Title and risk")
       body := some (js "Title to the goods passes to the buyer on payment in full. Risk passes on delivery. The " ++
         js "seller warrants that it has the right to sell the goods and that they are free of undisclosed " ++
         js "encumbrances.") }]
  attestation := js "Both parties agree to the terms of this Sales Contract as of the date signed below."

def statementOfWork : StarterSpec where
  key := js "statement-of-work"
  name := js "Statement of Work (SOW)"
  category := .crossIndustry
  summary := js "Scope, deliverables, timeline and fees for a piece of work."
  intro := js "This Statement of Work describes the services to be performed, what will be delivered, when, " ++
    js "and on what commercial terms. It forms part of the agreement between the parties."
  blocks :=
    [{ heading := some (js "Engagement")
       lines :=
         [{ label := js "Client", field := some .company },
          { label := js "Project name", field := some .text },
          { label := js "Start date", field := some .text, width := some (9 / 20) },
          { label := js "Target completion", field := some .text, width := some (9 / 20) }] },
     { heading := some (js "Scope of work")
       body := some (js "The provider will perform the services described below. Anything not listed here is out of " ++
         js "scope and requires a written change order before work begins.")
       lines :=
         [{ label := js "Deliverable 1", field := some .text },
          { label := js "Deliverable 2", field := some .text },
          { label := js "Deliverable 3", field := some .text }] },
     { heading := some (js "Fees")
       lines :=
         [{ label := js "Fee structure", field := some .text, width := some (9 / 20) },
          { label := js "Total estimated fee", field := some .text, width := some (9 / 20) },
          { label := js "Invoicing schedule", field := some .text }] }]
  attestation := js "By signing, the client approves this Statement of Work and authorises the provider to " ++
    js "begin."

def newBadgeRequest : StarterSpec where
  key := js "new-badge-request"
  name := js "New Badge Request"
  category := .crossIndustry
  summary := js "Request a building access badge, approved by a manager."
  intro := js "Use this form to request a new or replacement access badge. Requests must be approved by the " ++
    js "requester’s manager before a badge is issued."
  blocks :=
    [{ heading := some (js "Requester")
       lines :=
         [{ label := js "Full name", field := some .name },
          { label := js "Email", field := some .email },
          { label := js "Department", field := some .text, width := some (9 / 20) },
          { label := js "Job title", field := some .title, width := some (9 / 20) }] },
     { heading := some (js "Access needed")
       lines :=
         [{ label := js "Building / site", field := some .text },
          { label := js "Areas required", field := some .text },
          { label := js "Reason for request", field := some .text },
          { label := js "Replacement for a lost badge", field := some .checkbox, width := some (1 / 5) }] }]
  attestation := js "The requester confirms the information above is accurate and agrees to report a lost or " ++
    js "stolen badge immediately."

def nda : StarterSpec where
  key := js "nda"
  name := js "Mutual Non-Disclosure Agreement"
  category := .crossIndustry
  summary := js "Protect confidential information shared in both directions."
  intro := js "This Agreement protects confidential information that either party discloses to the other while " ++
    js "exploring or conducting a business relationship."
  blocks :=
    [{ heading := some (js "Parties")
       lines :=
         [{ label := js "Disclosing party", field := some .company },
          { label := js "Receiving party (full name)", field := some .name },
          { label := js "Email", field := some .email }] },
     { heading := some (js "Confidentiality")
       body := some (js "Each party will keep the other’s confidential information secret, use it only for the " ++
         js "agreed purpose, and disclose it only to people who need it and are bound by equivalent obligations. " ++
         js "This obligation continues for five years from the date of disclosure, and indefinitely for anything " ++
         js "that qualifies as a trade secret.") },
     { heading := some (js "Exclusions")
       body := some (js "Confidential information does not include anything that is already public, was known " ++
         js "before disclosure, is independently developed without reference to the disclosure, or is lawfully " ++
         js "received from a third party.") }]
  attestation := js "By signing, each party agrees to the confidentiality obligations set out above."

def offerLetter : StarterSpec where
  key := js "offer-letter"
  name := js "Employment Offer Letter"
  category := .humanResources
  summary := js "Offer a role with title, start date and compensation."
  intro := js "We are pleased to offer you the position described below. This letter sets out the main terms " ++
    js "of the offer; your employment is subject to the conditions stated at the end."
  blocks :=
    [{ heading := some (js "The role")
       lines :=
         [{ label := js "Candidate name", field := some .name },
          { label := js "Position", field := some .title },
          { label := js "Start date", field := some .text, width := some (9 / 20) },
          { label := js "Reports to", field := some .text, width := some (9 / 20) },
          { label := js "Work location", field := some .text }] },
     { heading := some (js "Compensation")
       lines :=
         [{ label := js "Base salary", field := some .text, width := some (9 / 20) },
          { label := js "Pay frequency", field := some .text, width := some (9 / 20) },
          { label := js "Other compensation", field := some .text }] },
     { heading := some (js "Conditions")
       body := some (js "This offer is contingent on satisfactory reference checks, proof of your right to work, " ++
         js "and your agreement to the company’s confidentiality policy. Employment is at will and either party may " ++
         js "end it with the notice required by law.") }]
  attestation := js "By signing below, you accept this offer of employment on the terms described."

def directDeposit : StarterSpec where
  key := js "direct-deposit"
  name := js "Direct Deposit Authorisation"
  category := .financialServices
  summary := js "Authorise pay to be deposited to a bank account."
  intro := js "Complete this form to have your pay deposited directly into your bank account. Your " ++
    js "authorisation stays in effect until you cancel it in writing."
  blocks :=
    [{ heading := some (js "Employee")
       lines :=
         [{ label := js "Full name", field := some .name },
          { label := js "Email", field := some .email }] },
     { heading := some (js "Account")
       lines :=
         [{ label := js "Bank name", field := some .text },
          { label := js "Account type (checking / savings)", field := some .text, width := some (9 / 20) },
          { label := js "Routing number", field := some .text, width := some (9 / 20) },
          { label := js "Account number", field := some .text }] },
     { heading := some (js "Authorisation")
       body := some (js "I authorise my employer to deposit my pay into the account above and, if funds are " ++
         js "deposited in error, to reverse the entry. This authorisation remains in force until I cancel it in " ++
         js "writing with reasonable notice.") }]
  attestation := js "I confirm the account details above are correct and authorise direct deposit to that " ++
    js "account."

def accountChangeRequest : StarterSpec where
  key := js "account-change-request"
  name := js "Account Change Request"
  category := .financialServices
  summary := js "Update contact, ownership or mailing details on an account."
  intro := js "Use this form to request a change to an existing account. Changes take effect once the request " ++
    js "has been verified and countersigned."
  blocks :=
    [{ heading := some (js "Account holder")
       lines :=
         [{ label := js "Full name", field := some .name },
          { label := js "Account number", field := some .text, width := some (9 / 20) },
          { label := js "Email on file", field := some .email, width := some (9 / 20) }] },
     { heading := some (js "Requested change")
       lines :=
         [{ label := js "What should change", field := some .text },
          { label := js "New value", field := some .text },
          { label := js "Effective date", field := some .text, width := some (9 / 20) }] }]
  attestation := js "I confirm I am authorised to request this change and that the details provided are " ++
    js "accurate."

def fieldTripPermission : StarterSpec where
  key := js "field-trip-permission"
  name := js "Field Trip Permission Slip"
  category := .education
  summary := js "Parent or guardian consent for a school trip."
  intro := js "Your child has been invited on the school trip described below. Please review the details and " ++
    js "sign to give permission."
  blocks :=
    [{ heading := some (js "Student")
       lines :=
         [{ label := js "Student name", field := some .text },
          { label := js "Class / year group", field := some .text, width := some (9 / 20) },
          { label := js "Date of birth", field := some .text, width := some (9 / 20) }] },
     { heading := some (js "The trip")
       lines :=
         [{ label := js "Destination", field := some .text },
          { label := js "Date", field := some .text, width := some (9 / 20) },
          { label := js "Departure / return time", field := some .text, width := some (9 / 20) },
          { label := js "Cost", field := some .text, width := some (9 / 20) }] },
     { heading := some (js "Parent or guardian")
       lines :=
         [{ label := js "Full name", field := some .name },
          { label := js "Email", field := some .email, width := some (9 / 20) },
          { label := js "Emergency contact number", field := some .text, width := some (9 / 20) },
          { label := js "My child may travel by school-arranged transport",
            field := some .checkbox, width := some (1 / 5) }] }]
  attestation := js "I give permission for my child to take part in this trip and confirm the emergency " ++
    js "contact details above are correct."

def emergencyContactWaiver : StarterSpec where
  key := js "emergency-contact-waiver"
  name := js "Emergency Contact & Medical Waiver"
  category := .education
  summary := js "Emergency contacts plus consent to treat."
  intro := js "This form records who to contact in an emergency and authorises staff to seek medical attention " ++
    js "if you cannot be reached."
  blocks :=
    [{ heading := some (js "Participant")
       lines :=
         [{ label := js "Full name", field := some .text },
          { label := js "Date of birth", field := some .text, width := some (9 / 20) },
          { label := js "Known allergies or conditions", field := some .text }] },
     { heading := some (js "Emergency contacts")
       lines :=
         [{ label := js "Primary contact name", field := some .name },
          { label := js "Primary contact phone", field := some .text, width := some (9 / 20) },
          { label := js "Relationship", field := some .text, width := some (9 / 20) },
          { label := js "Secondary contact name and phone", field := some .text }] },
     { heading := some (js "Consent to treat")
       body := some (js "If a medical emergency arises and I cannot be reached, I authorise staff to obtain medical " ++
         js "treatment for the participant named above, and I accept responsibility for the cost of that treatment.") }]
  attestation := js "I confirm the information above is accurate and give the consent described."

def leaseAgreement : StarterSpec where
  key := js "lease-agreement"
  name := js "Residential Lease Agreement"
  category := .realEstate
  summary := js "Short-form residential tenancy with rent and term."
  intro := js "This Lease Agreement sets out the terms on which the landlord rents the property described " ++
    js "below to the tenant."
  blocks :=
    [{ heading := some (js "Parties and property")
       lines :=
         [{ label := js "Landlord", field := some .company },
          { label := js "Tenant (full name)", field := some .name },
          { label := js "Tenant email", field := some .email },
          { label := js "Property address", field := some .text }] },
     { heading := some (js "Term and rent")
       lines :=
         [{ label := js "Lease start date", field := some .text, width := some (9 / 20) },
          { label := js "Lease end date", field := some .text, width := some (9 / 20) },
          { label := js "Monthly rent", field := some .text, width := some (9 / 20) },
          { label := js "Security deposit", field := some .text, width := some (9 / 20) },
          { label := js "Rent due on (day of month)", field := some .text, width := some (9 / 20) }] },
     { heading := some (js "Condition and use")
       body := some (js "The tenant will keep the property in good condition, use it as a private residence only, " ++
         js "and not sublet without written consent. The landlord is responsible for structural repairs and for " ++
         js "keeping the property fit to live in.") }]
  attestation := js "By signing, both parties agree to the terms of this lease for the property and period " ++
    js "described above."

def STARTER_TEMPLATES : List StarterSpec :=
  [purchaseOrder, salesContract, statementOfWork, newBadgeRequest,
   nda, offerLetter, directDeposit, accountChangeRequest,
   fieldTripPermission, emergencyContactWaiver, leaseAgreement]

def findStarter (key : JsString) : Option StarterSpec := STARTER_TEMPLATES.find? (·.key == key)

/-! ## What holds of every starter -/

theorem nodup_keys : (STARTER_TEMPLATES.map StarterSpec.key).Nodup := by
  decide +kernel

/-- Every starter is found by its key. -/
theorem findStarter_key {spec : StarterSpec} (h : spec ∈ STARTER_TEMPLATES) : findStarter spec.key = some spec := by
  have hunique : ∀ other ∈ STARTER_TEMPLATES, other.key = spec.key → other = spec := fun other hother heq =>
    List.inj_on_of_nodup_map nodup_keys hother h heq
  unfold findStarter
  cases hfound : STARTER_TEMPLATES.find? (·.key == spec.key) with
  | none =>
      have hnone := List.find?_eq_none.mp hfound spec h
      exact absurd (beq_self_eq_true spec.key) hnone
  | some other =>
      have hkey := List.find?_some hfound
      exact congrArg some (hunique other (List.mem_of_find?_eq_some hfound) (beq_iff_eq.mp hkey))

/-- Types of which a field can be placed without options. -/
def Line.simple (line : Line) : Bool := line.field.all fun type => type != .dropdown && type != .radio

/-- A width that is a fraction of the page, and not too small a one for a field. -/
def Line.wide (line : Line) : Bool := 1 / 100 ≤ line.width.getD 1 && line.width.getD 1 ≤ 1

/-- What the renderer and the field schema need. -/
def StarterSpec.wellSpecified (spec : StarterSpec) : Bool :=
  spec.blocks.all (fun block => block.lines.all fun line => line.simple && line.wide) &&
    (spec.blocks.flatMap Block.lines).length ≤ 497

theorem wellSpecified : ∀ spec ∈ STARTER_TEMPLATES, spec.wellSpecified = true := by
  decide +kernel

theorem js_ofList (chars : List Char) : js (String.ofList chars) = chars.flatMap utf16 := by
  rw [js, String.toList_ofList]

theorem few_blocks : ∀ spec ∈ STARTER_TEMPLATES, spec.blocks.length ≤ 10 := by
  decide +kernel

/-- A literal is taken apart before its length is counted: the kernel is slow at reading one. -/
theorem short_texts : ∀ spec ∈ STARTER_TEMPLATES, ∀ text ∈ spec.texts, text.length ≤ 1000 := by
  simp only [STARTER_TEMPLATES, List.forall_mem_cons, StarterSpec.texts]
  refine ⟨?_, ?_, ?_, ?_, ?_, ?_, ?_, ?_, ?_, ?_, ?_, fun spec hspec => absurd hspec List.not_mem_nil⟩
  all_goals simp only [purchaseOrder, salesContract, statementOfWork, newBadgeRequest, nda, offerLetter, directDeposit,
    accountChangeRequest, fieldTripPermission, emergencyContactWaiver, leaseAgreement, List.map_cons, List.map_nil,
    List.forall_mem_cons, Option.getD_some, Option.getD_none]
  all_goals refine ⟨?_, ?_, ?_⟩
  all_goals repeat rw [js_ofList]
  all_goals decide +kernel

theorem named_starter : ∀ spec ∈ STARTER_TEMPLATES, spec.name ≠ [] ∧ spec.name.length ≤ 200 := by
  decide +kernel

end ESignSoft.Templates
