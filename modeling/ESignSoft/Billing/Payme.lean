import ESignSoft.Billing.Callbacks
import ESignSoft.Lib.JsNumber

/-!
# The Payme Merchant API

The six methods Payme calls, each as the queries it makes in turn: the lookups of the payment, the
decision on the row that was read, and the one transaction that may follow.  Any number of calls run
side by side, beside purchases and whatever the other provider's adapter does (`payme`).

The world also records, for the theorems only, which accepted CreateTransaction wrote each transaction
identifier and what every successful call answered.
-/

namespace ESignSoft.Billing.Payme

open ESignSoft.Lib.JsNumber ESignSoft.Lib.JsDate ESignSoft.Lib.Interleaving

/-! ## The protocol -/

namespace PaymeState

def Created : Int := 1

def Performed : Int := 2

def CancelledBeforePerform : Int := -1

def CancelledAfterPerform : Int := -2

end PaymeState

namespace PaymeError

def InvalidAmount : Int := -31001

def TransactionNotFound : Int := -31003

def CannotPerform : Int := -31008

def OrderNotFound : Int := -31050

def OrderNotPayable : Int := -31051

def InvalidRequest : Int := -32600

end PaymeError

structure PaymeRpcError where
  code : Int
  /-- Names the offending field of account errors. -/
  data : Option String
  deriving DecidableEq, Repr

/-- What the controller answers for any other exception. -/
def unexpected : PaymeRpcError := ⟨PaymeError.CannotPerform, none⟩

/-- Twelve hours. -/
def PAYME_TRANSACTION_TIMEOUT_MS : Int := 12 * 60 * 60 * 1000

/-- What the deployment fixes: the name of the account field, and which payment a text identifies, if it
is an identifier at all. -/
structure Setting where
  PAYME_ACCOUNT_FIELD : String
  paymentId : String → Option Nat

abbrev PaymeParams := String → JsValue

inductive Method
  | checkPerformTransaction
  | createTransaction
  | performTransaction
  | cancelTransaction
  | checkTransaction
  | getStatement
  deriving DecidableEq, Repr

/-! ## Parameters -/

def requireString (value : JsValue) (code : Int) : Except PaymeRpcError String :=
  match value with
  | .string s => if s = "" then .error ⟨code, none⟩ else .ok s
  | _ => .error ⟨code, none⟩

def requireNumber (value : JsValue) (code : Int) : Except PaymeRpcError ℚ :=
  match value with
  | .number (.finite q) => .ok q
  | _ => .error ⟨code, none⟩

/-- The order that `account` names, in the field the cabinet is configured with. -/
def orderId (setting : Setting) (params : PaymeParams) : Except PaymeRpcError String :=
  let notFound : PaymeRpcError := ⟨PaymeError.OrderNotFound, some setting.PAYME_ACCOUNT_FIELD⟩
  match params "account" with
  | .object property =>
      match property setting.PAYME_ACCOUNT_FIELD with
      | .string s => if s = "" then .error notFound else .ok s
      | _ => .error notFound
  | _ => .error notFound

structure CreateParams where
  id : String
  time : ℚ
  order : String
  amount : JsValue

structure CancelParams where
  id : String
  reason : JsValue

/-- A call whose parameters passed what is checked before the first query. -/
inductive Request
  | checkPerform (order : String) (amount : JsValue)
  | create (c : CreateParams)
  | perform (id : String)
  | cancel (c : CancelParams)
  | check (id : String)
  | statement (start stop : ℚ)

/-- The checks a method makes on its parameters before the first query. -/
def parse (setting : Setting) (method : Method) (params : PaymeParams) : Except PaymeRpcError Request :=
  match method with
  | .checkPerformTransaction => do
      let order ← orderId setting params
      return .checkPerform order (params "amount")
  | .createTransaction => do
      let id ← requireString (params "id") PaymeError.InvalidRequest
      let time ← requireNumber (params "time") PaymeError.InvalidRequest
      let order ← orderId setting params
      return .create ⟨id, time, order, params "amount"⟩
  | .performTransaction => do
      let id ← requireString (params "id") PaymeError.TransactionNotFound
      return .perform id
  | .cancelTransaction => do
      let id ← requireString (params "id") PaymeError.TransactionNotFound
      return .cancel ⟨id, params "reason"⟩
  | .checkTransaction => do
      let id ← requireString (params "id") PaymeError.TransactionNotFound
      return .check id
  | .getStatement => do
      let start ← requireNumber (params "from") PaymeError.InvalidRequest
      let stop ← requireNumber (params "to") PaymeError.InvalidRequest
      return .statement start stop

/-! ## Answers -/

structure CreateResult where
  create_time : ℚ
  transaction : Nat
  state : Int
  deriving DecidableEq

structure PerformResult where
  transaction : Nat
  perform_time : Int
  state : Int
  deriving DecidableEq

structure CancelResult where
  transaction : Nat
  cancel_time : Int
  state : Int
  deriving DecidableEq

structure CheckResult where
  create_time : Int
  perform_time : Int
  cancel_time : Int
  transaction : Nat
  state : Int
  reason : Option Int
  deriving DecidableEq

structure StatementEntry where
  id : String
  time : Int
  amount : Int
  account : String × Nat
  create_time : Int
  perform_time : Int
  cancel_time : Int
  transaction : Nat
  state : Int
  reason : Option Int
  deriving DecidableEq

inductive Result
  | allow
  | created (r : CreateResult)
  | performed (r : PerformResult)
  | cancelled (r : CancelResult)
  | checked (r : CheckResult)
  | statement (transactions : List StatementEntry)
  deriving DecidableEq

/-- A cancellation after the money moved is a refund. -/
def cancelledState (payment : Payment) : Int :=
  if payment.paidAt.isSome then PaymeState.CancelledAfterPerform else PaymeState.CancelledBeforePerform

def stateOf (payment : Payment) : Int :=
  match payment.status with
  | .paid => PaymeState.Performed
  | .cancelled => cancelledState payment
  | .pending => PaymeState.Created

def requirePayable (payment : Payment) : Except PaymeRpcError Unit :=
  if payment.status ≠ .pending then .error ⟨PaymeError.OrderNotPayable, none⟩ else .ok ()

/-- The amount quoted is the amount the order costs, to the tiyin. -/
def requireAmount (payment : Payment) (amount : JsValue) : Except PaymeRpcError Unit :=
  match amount with
  | .number (.finite q) =>
      if trunc q ≠ payment.amountTiyin then .error ⟨PaymeError.InvalidAmount, none⟩ else .ok ()
  | _ => .error ⟨PaymeError.InvalidAmount, none⟩

/-- Comparing with an Invalid Date is never true, so that it is never timed out. -/
def requireNotTimedOut (createdAt : Option Int) (clock : Int) : Except PaymeRpcError Unit :=
  match createdAt with
  | some t =>
      if clock - t > PAYME_TRANSACTION_TIMEOUT_MS then .error ⟨PaymeError.CannotPerform, none⟩ else .ok ()
  | none => .ok ()

/-! ## The decisions on the payment that was read -/

/-- CheckPerformTransaction writes nothing. -/
def checkPerformOn (amount : JsValue) (payment : Payment) : Except PaymeRpcError Unit := do
  requirePayable payment
  requireAmount payment amount

/-- CreateTransaction: the answer to a repeated call, or `none` where the transaction is to be attached. -/
def createOn (c : CreateParams) (payment : Payment) (clock : Int) :
    Except PaymeRpcError (Option CreateResult) :=
  if payment.providerTxnId.getD "" = "" then do
    requirePayable payment
    requireAmount payment c.amount
    requireNotTimedOut (newDate c.time) clock
    return none
  else
    match payment.providerCreatedAt with
    | some createdAt =>
        if payment.providerTxnId = some c.id then do
          requireNotTimedOut (some createdAt) clock
          return some ⟨createdAt, payment.id, PaymeState.Created⟩
        -- A different transaction against an order that already has one.
        else .error ⟨PaymeError.CannotPerform, none⟩
    | none => .error ⟨PaymeError.CannotPerform, none⟩

/-- PerformTransaction: the answer of a payment already paid, or `none` where it is to be activated. -/
def performOn (payment : Payment) (clock : Int) : Except PaymeRpcError (Option PerformResult) :=
  match payment.status, payment.paidAt with
  | .paid, some paidAt => .ok (some ⟨payment.id, paidAt, PaymeState.Performed⟩)
  | .cancelled, _ => .error ⟨PaymeError.CannotPerform, none⟩
  | _, _ => do
      requireNotTimedOut payment.providerCreatedAt clock
      return none

/-- CancelTransaction: the answer of a payment already cancelled, or the state it is to be cancelled
to. -/
def cancelOn (payment : Payment) : CancelResult ⊕ Int :=
  match payment.status, payment.cancelledAt with
  | .cancelled, some cancelledAt => .inl ⟨payment.id, cancelledAt, cancelledState payment⟩
  -- Whether the money had already moved is decided before the status changes.
  | .paid, _ => .inr PaymeState.CancelledAfterPerform
  | _, _ => .inr PaymeState.CancelledBeforePerform

def checkOn (payment : Payment) : CheckResult where
  create_time := payment.providerCreatedAt.getD 0
  perform_time := payment.paidAt.getD 0
  cancel_time := payment.cancelledAt.getD 0
  transaction := payment.id
  state := stateOf payment
  reason := payment.cancelReason

/-- One row of the statement. -/
def statementRow (setting : Setting) (txn : String) (createdAt : Int) (payment : Payment) :
    StatementEntry where
  id := txn
  time := createdAt
  amount := payment.amountTiyin
  account := (setting.PAYME_ACCOUNT_FIELD, payment.id)
  create_time := createdAt
  perform_time := payment.paidAt.getD 0
  cancel_time := payment.cancelledAt.getD 0
  transaction := payment.id
  state :=
    match payment.status with
    | .paid => PaymeState.Performed
    | .cancelled =>
        if payment.paidAt.isSome then PaymeState.CancelledAfterPerform
        else PaymeState.CancelledBeforePerform
    | .pending => PaymeState.Created
  reason := payment.cancelReason

/-- `payme_statement`: Payme's transactions created in a window, by their creation. -/
def paymeStatement (setting : Setting) (start stop : Int) (L : Ledger) : List StatementEntry :=
  (L.payments.filterMap fun payment =>
    match payment.provider, payment.providerTxnId, payment.providerCreatedAt with
    | .payme, some txn, some createdAt =>
        if start ≤ createdAt ∧ createdAt ≤ stop then some (statementRow setting txn createdAt payment)
        else none
    | _, _, _ => none).mergeSort fun a b => a.create_time ≤ b.create_time

/-- A `reason` that is a number goes to an integer column; the client refuses any other number. -/
def cancelReason (reason : JsValue) : Option (Option Int) :=
  match reason with
  | .number (.finite q) =>
      if q.isInt ∧ -2147483648 ≤ q.num ∧ q.num ≤ 2147483647 then some (some q.num) else none
  | .number _ => none
  | _ => some none

end ESignSoft.Billing.Payme
