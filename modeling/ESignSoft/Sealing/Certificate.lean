import Mathlib.Data.Rat.Cast.Order
import ESignSoft.Lib.JsDate
import ESignSoft.Lib.JsNumber
import ESignSoft.Lib.Pagination
import ESignSoft.Signing.StampPdf

/-!
# The Certificate of Completion

`buildCertificatePdf` writes the certificate from the top of a page down and goes on to a new page when the
next block does not fit: a heading asks for 64 points, a row for its own height, the lines of a user agent
for theirs, and the fingerprint and the seal for theirs together.  Distances are exact rationals: all of
them but the height of the page are whole points, so that no comparison is near a rounding.  Only texts are
modelled, and of them what decides where they stand; the mark and the rules are drawn between them and move
nothing.

* `items_certificate` — the lines that are drawn, wherever they stand.
-/

namespace ESignSoft.Sealing.Certificate

open ESignSoft.Lib.JsText ESignSoft.Lib.JsNumber ESignSoft.Lib.JsDate ESignSoft.Lib.Pagination
open ESignSoft.Signing

/-! ## What is certified -/

/-- The time value of a date, `none` for an invalid one. -/
abbrev Date := Option Int

/-- One person's ceremony record. -/
structure CertificateSigner where
  name : Option JsString
  email : JsString
  userId : Option JsString
  ip : Option JsString
  userAgent : Option JsString
  viewedAt : Option Date
  consentAt : Option Date
  signedAt : Option Date
  method : JsString

structure CertificateInput where
  requestId : JsString
  documentName : JsString
  senderEmail : Option JsString
  signers : List CertificateSigner
  sentAt : Option Date
  signedAt : Date
  documentHash : JsString
  sealSignature : JsString
  sealKid : JsString

/-- A missing and an invalid date are both a dash. -/
def fmt : Option Date → JsString
  -- The only `T` becomes a blank, and `.mmmZ` at the end becomes ` UTC`.
  | some (some t) => ((toISOString t).replace 0x54 0x20).takeWhile (· != 0x2E) ++ js " UTC"
  | _ => js "—"

def chunk (value : JsString) (perLine : Nat) : List JsString :=
  let out := (List.range ((value.length + perLine - 1) / perLine)).map fun i =>
    (value.drop (i * perLine)).take perLine
  if out.length > 0 then out else [js "—"]

/-! ## Drawing -/

def MARGIN : ℚ := 56
def PAGE_H : ℚ := 84189 / 100
def LOGO_SRC_W : ℚ := 360
def LOGO_SRC_H : ℚ := 330
def MARK_H : ℚ := 26

def A4 : Sheet ℚ := ⟨PAGE_H - MARGIN, MARGIN⟩

structure TextOptions where
  size : ℚ := 10
  bold : Bool := false
  x : ℚ := MARGIN

/-- A text as it is drawn; without line breaks, which `toPdfSafeText` has made blanks. -/
structure Line where
  text : JsString
  opts : TextOptions

abbrev Draw := List (Cmd ℚ Line)

def line (value : JsString) (opts : TextOptions) : Line := ⟨toPdfSafeText value, opts⟩

def text (value : JsString) (opts : TextOptions) : Cmd ℚ Line := .put (line value opts)

def row (label value : JsString) : Draw :=
  [.reserve 18, text label { size := 9 }, text value { size := 10, x := MARGIN + 150 }, .down 18]

def section_ (title : JsString) : Draw :=
  [.reserve 64, .down 10, text title { size := 11, bold := true }, .down 6, .down 16]

def header (requestId : JsString) : Draw :=
  [text (js "E-SIGNSOFT") { size := 13, bold := true, x := MARGIN + MARK_H * (LOGO_SRC_W / LOGO_SRC_H) + 10 },
   .down 32,
   text (js "Certificate of Completion") { size := 18, bold := true },
   .down 22,
   text (js "Reference " ++ requestId) { size := 9 },
   .down 26]

def documentSection (input : CertificateInput) : Draw :=
  section_ (js "Document") ++
  row (js "Document") input.documentName ++
  row (js "Sent by") (input.senderEmail.getD (js "—")) ++
  row (js "Sent") (fmt input.sentAt) ++
  row (js "Signers") (natText input.signers.length) ++
  row (js "Completed") (fmt (some input.signedAt))

/-- `ua.forEach`: the pen goes down between two lines, not after the last. -/
def agentLines : List JsString → Draw
  | [] => []
  | [agent] => [text agent { size := 8, x := MARGIN + 150 }]
  | agent :: next :: rest =>
      text agent { size := 8, x := MARGIN + 150 } :: .down 11 :: agentLines (next :: rest)

def CertificateSigner.agent (signer : CertificateSigner) : List JsString :=
  chunk (signer.userAgent.getD (js "—")) 62

def browser (ua : List JsString) : Draw :=
  .reserve (11 * ua.length + 9) :: text (js "Browser") { size := 9 } :: (agentLines ua ++ [.down 20])

def signerTitle (total i : Nat) : JsString :=
  if total = 1 then js "Signer" else js "Signer " ++ natText (i + 1) ++ js " of " ++ natText total

def signerSection (total i : Nat) (signer : CertificateSigner) : Draw :=
  section_ (signerTitle total i) ++
  row (js "Name") (signer.name.getD (js "—")) ++
  row (js "Email") signer.email ++
  row (js "Account") (signer.userId.getD (js "No account (signed via secure link)")) ++
  row (js "IP address") (signer.ip.getD (js "—")) ++
  browser signer.agent ++
  row (js "First opened") (fmt signer.viewedAt) ++
  row (js "Consent to sign electronically") (fmt signer.consentAt) ++
  row (js "Signed") (fmt signer.signedAt) ++
  row (js "Signature method") signer.method

/-- `input.signers.forEach`, from the `i`-th on. -/
def signerSections (total : Nat) : Nat → List CertificateSigner → Draw
  | _, [] => []
  | i, signer :: rest => signerSection total i signer ++ signerSections total (i + 1) rest

def blob (lines : List JsString) : Draw :=
  lines.flatMap fun piece => [text piece { size := 8 }, .down 11]

def evidence (hashLines sealLines : List JsString) (sealKid : JsString) : Draw :=
  .reserve (14 + hashLines.length * 11 + 20 + sealLines.length * 11) ::
  text (js "SHA-256 of the signed document") { size := 9 } ::
  .down 14 ::
  (blob hashLines ++
  .down 6 ::
  text (js "Server seal (Ed25519, key " ++ sealKid ++ js ")") { size := 9 } ::
  .down 14 ::
  blob sealLines)

def explanation : List JsString :=
  [js "The hash above is the fingerprint of the signed document as it existed at completion.",
   js "The seal is that fingerprint signed by this system's private key. Re-hashing the signed",
   js "document and checking it against the seal proves the file has not been altered since.",
   js "This certificate records an electronic signature made under ESIGN/UETA: the signer was",
   js "shown the document, affirmatively agreed to sign electronically, and signed from the",
   js "address and network recorded above."]

def closing : Draw :=
  .down 16 :: explanation.flatMap fun sentence => [.reserve 11, text sentence { size := 8 }, .down 11]

def CertificateInput.hashLines (input : CertificateInput) : List JsString := chunk input.documentHash 72

def CertificateInput.sealLines (input : CertificateInput) : List JsString := chunk input.sealSignature 72

/-- Everything above the tamper evidence. -/
def record (input : CertificateInput) : Draw :=
  header input.requestId ++ documentSection input ++ signerSections input.signers.length 0 input.signers

def certificate (input : CertificateInput) : Draw :=
  record input ++ section_ (js "Tamper evidence") ++
    evidence input.hashLines input.sealLines input.sealKid ++ closing

/-- Where the pen starts. -/
def firstPage : Pen ℚ := ⟨0, PAGE_H - MARGIN⟩

/-- The texts, each with the page and the height of its baseline. -/
def buildCertificatePdf (input : CertificateInput) : List (Placed ℚ Line) :=
  lay A4 firstPage (certificate input)

/-! ## Pieces of a value -/

theorem length_chunk (value : JsString) (perLine : Nat) :
    (chunk value perLine).length = max 1 ((value.length + perLine - 1) / perLine) := by
  unfold chunk
  simp only [List.length_map, List.length_range]
  split
  · rename_i hpos
    rw [List.length_map, List.length_range]
    omega
  · rename_i hnone
    rw [List.length_singleton]
    omega

/-! ## The lines of a certificate -/

def heading (title : JsString) : Line := line title { size := 11, bold := true }

def rowLines (label value : JsString) : List Line :=
  [line label { size := 9 }, line value { size := 10, x := MARGIN + 150 }]

def headerLines (input : CertificateInput) : List Line :=
  [line (js "E-SIGNSOFT") { size := 13, bold := true, x := MARGIN + MARK_H * (LOGO_SRC_W / LOGO_SRC_H) + 10 },
   line (js "Certificate of Completion") { size := 18, bold := true },
   line (js "Reference " ++ input.requestId) { size := 9 }]

def documentLines (input : CertificateInput) : List Line :=
  [heading (js "Document")] ++
  rowLines (js "Document") input.documentName ++
  rowLines (js "Sent by") (input.senderEmail.getD (js "—")) ++
  rowLines (js "Sent") (fmt input.sentAt) ++
  rowLines (js "Signers") (natText input.signers.length) ++
  rowLines (js "Completed") (fmt (some input.signedAt))

def browserLines (ua : List JsString) : List Line :=
  [line (js "Browser") { size := 9 }] ++ ua.map fun agent => line agent { size := 8, x := MARGIN + 150 }

def signerLines (total i : Nat) (signer : CertificateSigner) : List Line :=
  [heading (signerTitle total i)] ++
  rowLines (js "Name") (signer.name.getD (js "—")) ++
  rowLines (js "Email") signer.email ++
  rowLines (js "Account") (signer.userId.getD (js "No account (signed via secure link)")) ++
  rowLines (js "IP address") (signer.ip.getD (js "—")) ++
  browserLines signer.agent ++
  rowLines (js "First opened") (fmt signer.viewedAt) ++
  rowLines (js "Consent to sign electronically") (fmt signer.consentAt) ++
  rowLines (js "Signed") (fmt signer.signedAt) ++
  rowLines (js "Signature method") signer.method

def blobLines (pieces : List JsString) : List Line := pieces.map fun piece => line piece { size := 8 }

/-- The fingerprint and the seal. -/
def evidenceLines (input : CertificateInput) : List Line :=
  [line (js "SHA-256 of the signed document") { size := 9 }] ++
  blobLines input.hashLines ++
  [line (js "Server seal (Ed25519, key " ++ input.sealKid ++ js ")") { size := 9 }] ++
  blobLines input.sealLines

/-- Each signer once, in the order of the envelope. -/
def certificateLines (input : CertificateInput) : List Line :=
  headerLines input ++ documentLines input ++
  (input.signers.mapIdx (signerLines input.signers.length)).flatten ++
  [heading (js "Tamper evidence")] ++ evidenceLines input ++ blobLines explanation

section Items

variable {pieces : List JsString}

theorem items_agentLines :
    items (agentLines pieces) = pieces.map fun agent => line agent { size := 8, x := MARGIN + 150 } := by
  fun_induction agentLines pieces with
  | case1 => rfl
  | case2 agent => rfl
  | case3 agent next rest ih => exact congrArg (_ :: ·) ih

theorem items_browser : items (browser pieces) = browserLines pieces := by
  have hlines : items (agentLines pieces ++ [.down 20]) = items (agentLines pieces) ++ [] := items_append
  rw [items_agentLines, List.append_nil] at hlines
  exact congrArg (_ :: ·) hlines

theorem items_blob : items (blob pieces) = blobLines pieces := by
  induction pieces with
  | nil => rfl
  | cons piece rest ih => exact congrArg (_ :: ·) ih

theorem items_signerSection (total i : Nat) (signer : CertificateSigner) :
    items (signerSection total i signer) = signerLines total i signer := by
  unfold signerSection
  simp only [items_append, items_browser]
  rfl

theorem items_signerSections (total i : Nat) (signers : List CertificateSigner) :
    items (signerSections total i signers) =
      (signers.mapIdx fun j signer => signerLines total (i + j) signer).flatten := by
  induction signers generalizing i with
  | nil => rfl
  | cons signer rest ih =>
      rw [signerSections, items_append, items_signerSection, ih, List.mapIdx_cons, List.flatten_cons]
      simp only [Nat.add_zero, Nat.add_assoc, Nat.add_comm 1]

theorem items_evidence (input : CertificateInput) :
    items (evidence input.hashLines input.sealLines input.sealKid) = evidenceLines input := by
  simp only [evidence, text, items, items_append, items_blob]
  simp only [evidenceLines, List.cons_append, List.nil_append, List.append_assoc]

theorem items_closing : items closing = blobLines explanation := rfl

theorem items_certificate (input : CertificateInput) : items (certificate input) = certificateLines input := by
  unfold certificate record documentSection
  simp only [items_append, items_evidence, items_closing, items_signerSections, Nat.zero_add]
  rfl

end Items

end ESignSoft.Sealing.Certificate
