import ESignSoft.Identity.UserSync
import ESignSoft.Lib.HttpHeaders

/-!
# The routes of the API

Every handler of the API stands under a method and a path, and declares who may reach it.  A request goes to
the first handler, in the order of the controllers, whose method and path it has.

* `viewer_reads` — a handler open to viewers answers reads only;
* `open_when_locked` — what stays open to a workspace whose access has run out.
-/

namespace ESignSoft.Perimeter

open ESignSoft.Lib.JsText ESignSoft.Lib.HttpHeaders ESignSoft.Identity

inductive PolicyName
  | publicPolicy
  | publicVerify
  | session
  | signRelay
  | viewer
  | member
  | admin
  | owner
  /-- A value the guard does not know. -/
  | other
  deriving DecidableEq, Repr

inductive Method
  | GET
  | HEAD
  | POST
  | PATCH
  | PUT
  | DELETE
  | OPTIONS
  deriving DecidableEq, Repr

inductive Handler
  | health | ready
  | me | members | adminCheck
  | createPersonal
  | upload | documents | download
  | createTemplate | templates | starters | fromStarter | template | updateTemplate
  | send | requests | detail | signed | certificate | signatureImage | voidRequest | resend | remind | move
  | remove | restore | verifyRequest
  | folders | createFolder
  | signView | signDocument | signStatus | signSigned | signCertificate | signConsent | signSubmit
  | verifyByHash
  | checkout | payments
  | paymeRpc
  | clickPrepare | clickComplete
  deriving DecidableEq, Repr

/-- One segment of a route's path: a word, or a parameter. -/
inductive Segment
  | word (s : JsString)
  | param
  deriving DecidableEq

/-- What the decorators of a handler declare. -/
structure Route where
  method : Method
  path : List Segment
  policy : Option PolicyName
  allowWhenLocked : Bool

/-- A route of the controller `base`, closed to a locked workspace. -/
def declared (base : JsString) (method : Method) (policy : PolicyName) (rest : List Segment) : Route :=
  ⟨method, .word base :: rest, some policy, false⟩

/-- `@AllowWhenLocked()`. -/
def Route.allowedWhenLocked (r : Route) : Route := { r with allowWhenLocked := true }

def word (s : String) : Segment := .word (js s)

def Handler.route : Handler → Route
  | .health => declared (js "health") .GET .publicPolicy []
  | .ready => declared (js "health") .GET .publicPolicy [word "ready"]
  | .me => (declared (js "me") .GET .viewer []).allowedWhenLocked
  | .members => declared (js "me") .GET .viewer [word "members"]
  | .adminCheck => declared (js "me") .GET .admin [word "admin-check"]
  | .createPersonal => declared (js "onboarding") .POST .session [word "personal"]
  | .upload => declared (js "documents") .POST .member []
  | .documents => declared (js "documents") .GET .viewer []
  | .download => declared (js "documents") .GET .viewer [.param, word "download"]
  | .createTemplate => declared (js "templates") .POST .member []
  | .templates => declared (js "templates") .GET .viewer []
  | .starters => declared (js "templates") .GET .viewer [word "starters"]
  | .fromStarter => declared (js "templates") .POST .member [word "from-starter"]
  | .template => declared (js "templates") .GET .viewer [.param]
  | .updateTemplate => declared (js "templates") .PATCH .member [.param]
  | .send => declared (js "signature-requests") .POST .member []
  | .requests => (declared (js "signature-requests") .GET .viewer []).allowedWhenLocked
  | .detail => declared (js "signature-requests") .GET .viewer [.param]
  | .signed => (declared (js "signature-requests") .GET .viewer [.param, word "signed"]).allowedWhenLocked
  | .certificate =>
      (declared (js "signature-requests") .GET .viewer [.param, word "certificate"]).allowedWhenLocked
  | .signatureImage =>
      declared (js "signature-requests") .GET .viewer [.param, word "recipients", .param, word "signature"]
  | .voidRequest => declared (js "signature-requests") .POST .member [.param, word "void"]
  | .resend => declared (js "signature-requests") .POST .member [.param, word "recipients", .param, word "resend"]
  | .remind => declared (js "signature-requests") .POST .member [.param, word "recipients", .param, word "remind"]
  | .move => declared (js "signature-requests") .POST .member [word "move"]
  | .remove => declared (js "signature-requests") .POST .member [word "delete"]
  | .restore => declared (js "signature-requests") .POST .member [word "restore"]
  | .verifyRequest => declared (js "signature-requests") .GET .viewer [.param, word "verify"]
  | .folders => declared (js "folders") .GET .viewer []
  | .createFolder => declared (js "folders") .POST .member []
  | .signView => declared (js "sign") .GET .signRelay [.param]
  | .signDocument => declared (js "sign") .GET .signRelay [.param, word "document"]
  | .signStatus => declared (js "sign") .GET .signRelay [.param, word "status"]
  | .signSigned => declared (js "sign") .GET .signRelay [.param, word "signed"]
  | .signCertificate => declared (js "sign") .GET .signRelay [.param, word "certificate"]
  | .signConsent => declared (js "sign") .POST .signRelay [.param, word "consent"]
  | .signSubmit => declared (js "sign") .POST .signRelay [.param, word "submit"]
  | .verifyByHash => declared (js "verify") .POST .publicVerify []
  | .checkout => (declared (js "billing") .POST .admin [word "checkout"]).allowedWhenLocked
  | .payments => (declared (js "billing") .GET .admin [word "payments"]).allowedWhenLocked
  | .paymeRpc => declared (js "payments") .POST .publicPolicy [word "payme"]
  | .clickPrepare => declared (js "payments") .POST .publicPolicy [word "click", word "prepare"]
  | .clickComplete => declared (js "payments") .POST .publicPolicy [word "click", word "complete"]

/-- The handlers in the order they are registered in. -/
def handlers : List Handler :=
  [.health, .ready, .me, .members, .adminCheck, .createPersonal, .upload, .documents, .download,
    .createTemplate, .templates, .starters, .fromStarter, .template, .updateTemplate, .send, .requests,
    .detail, .signed, .certificate, .signatureImage, .voidRequest, .resend, .remind, .move, .remove, .restore,
    .verifyRequest, .folders, .createFolder, .signView, .signDocument, .signStatus, .signSigned,
    .signCertificate, .signConsent, .signSubmit, .verifyByHash, .checkout, .payments, .paymeRpc,
    .clickPrepare, .clickComplete]

/-- Words are compared without case; a parameter stands for anything but nothing. -/
def Segment.matches : Segment → JsString → Bool
  | .word s, segment => byteLowerCase segment == s
  | .param, segment => segment != []

def matchesPath : List Segment → List JsString → Bool
  | [], [] => true
  | pattern :: patterns, segment :: segments => pattern.matches segment && matchesPath patterns segments
  | _, _ => false

/-- A handler for `GET` answers `HEAD` too. -/
def Method.answers (declared asked : Method) : Bool := asked == declared || declared == .GET && asked == .HEAD

def Route.matches (r : Route) (method : Method) (path : List JsString) : Bool :=
  r.method.answers method && matchesPath r.path path

/-- The handler a request goes to. -/
def dispatch (method : Method) (path : List JsString) : Option Handler :=
  handlers.find? fun h => h.route.matches method path

theorem mem_handlers (h : Handler) : h ∈ handlers := by
  cases h <;> decide

/-- Every handler declares a policy, and one the guard knows. -/
theorem policy_declared (h : Handler) : ∃ policy, h.route.policy = some policy ∧ policy ≠ .other := by
  cases h <;> exact ⟨_, rfl, by decide⟩

/-- A handler that asks for no more than a viewer answers reads only. -/
theorem viewer_reads (h : Handler) (hpolicy : h.route.policy = some .viewer) : h.route.method = .GET := by
  cases h <;> first | rfl | cases hpolicy

/-- Reading the workspace itself, its requests and what has been signed, and paying. -/
def keptOpen : List Handler := [.me, .requests, .signed, .certificate, .checkout, .payments]

theorem open_when_locked (h : Handler) (hopen : h.route.allowWhenLocked = true) : h ∈ keptOpen := by
  cases h <;> first | decide | cases hopen

theorem matches_of_dispatch {method : Method} {path : List JsString} {h : Handler}
    (hfound : dispatch method path = some h) : h.route.method.answers method = true := by
  have hmatches := List.find?_some hfound
  exact (Bool.and_eq_true_iff.mp hmatches).1

end ESignSoft.Perimeter
