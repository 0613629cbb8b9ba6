import ESignSoft.Lib.Interleaving
import ESignSoft.Lib.Table
import ESignSoft.Billing.Period

/-!
# The payments ledger and its two transactions

`activate` and `cancel` are modelled twice from the same pieces: as one sequential function on the
ledger (`Call.run`), and as the transactions the database really runs, statement by statement, any
number of them at once.  A transaction holds the workspace row (`SELECT … FOR UPDATE`) from its first
statement to its end; what it writes becomes visible when it commits, and it may be rolled back at any
point before that.

Row-level security confines every statement to one workspace, so a call names the workspace whose
context it runs in, and its statements see only that workspace's row and payments.
-/

namespace ESignSoft.Billing

open ESignSoft.Lib.Table ESignSoft.Lib.Interleaving

inductive TenantPlan
  | trial
  | pro
  deriving DecidableEq, Repr

inductive PaymentProvider
  | payme
  | click
  deriving DecidableEq, Repr

inductive PaymentStatus
  | pending
  | paid
  | cancelled
  deriving DecidableEq, Repr

structure Tenant where
  plan : TenantPlan
  trialEndsAt : Int
  paidUntil : Option Int
  deriving DecidableEq, Repr

structure Payment where
  id : Nat
  tenantId : Nat
  plan : BillingPlan
  provider : PaymentProvider
  amountTiyin : Int
  months : Int
  status : PaymentStatus
  providerTxnId : Option String
  providerCreatedAt : Option Int
  clickPrepareId : Option Int
  paidAt : Option Int
  cancelledAt : Option Int
  cancelReason : Option Int
  periodStart : Option Int
  periodEnd : Option Int
  createdAt : Int
  deriving DecidableEq, Repr

structure Ledger where
  tenants : Nat → Tenant
  payments : List Payment

/-! ## The statements of the two transactions -/

/-- A call of `activate` or of `cancel` in the context of one workspace. -/
inductive Call
  | activate (tenant paymentId : Nat) (now : Int)
  | cancel (tenant paymentId : Nat) (reason : Option Int) (now : Int)
  deriving DecidableEq, Repr

namespace Call

def tenant : Call → Nat
  | activate t _ _ => t
  | cancel t _ _ _ => t

def paymentId : Call → Nat
  | activate _ p _ => p
  | cancel _ p _ _ => p

/-- The statuses the compare-and-set of the call starts from. -/
def claims : Call → PaymentStatus → Bool
  | activate .., s => s == .pending
  | cancel .., s => s == .pending || s == .paid

/-- `WHERE id = … AND status IN …`, among the payments row-level security shows. -/
def claimable (c : Call) (r : Payment) : Bool :=
  r.id == c.paymentId && r.tenantId == c.tenant && c.claims r.status

/-- What the compare-and-set writes. -/
def claim (c : Call) (r : Payment) : Payment :=
  match c with
  | activate _ _ now => { r with status := .paid, paidAt := some now }
  | cancel _ _ reason now =>
      { r with status := .cancelled, cancelledAt := some now, cancelReason := reason }

/-- `findUniqueOrThrow`, later in the same transaction. -/
def find (c : Call) (payments : List Payment) : Option Payment :=
  (updateMany c.claimable c.claim payments).find? fun r => r.id == c.paymentId && r.tenantId == c.tenant

end Call

/-- What a transaction that claimed its payment goes on to write. -/
inductive Outcome
  /-- `activate`: the workspace is extended to `stop` and the period recorded. -/
  | granted (start stop : Int)
  /-- `cancel`: `paidUntil` goes back to the given instant, or is left alone. -/
  | reversed (paidUntil : Option Int)
  deriving DecidableEq, Repr

namespace Call

/-- The decision of the call from the payment and the workspace it read; `none` where it throws, which
for `activate` is a period whose end is no date. -/
def settle (c : Call) (payment : Payment) (tenant : Tenant) : Option Outcome :=
  match c with
  | activate _ _ now =>
      let period := grantedPeriod tenant.paidUntil payment.months now
      period.2.map fun stop => .granted period.1 stop
  | cancel .. =>
      match payment.periodStart, payment.periodEnd with
      | some start, some stop =>
          some (.reversed (if tenant.paidUntil = some stop then some start else none))
      | _, _ => some (.reversed none)

/-- The writes of the transaction, all together, as its commit publishes them. -/
def commit (c : Call) (out : Outcome) (L : Ledger) : Ledger :=
  match out with
  | .granted start stop =>
      { tenants := Function.update L.tenants c.tenant
          { L.tenants c.tenant with plan := .pro, paidUntil := some stop }
        payments := updateMany c.claimable
          (fun r => { c.claim r with periodStart := some start, periodEnd := some stop }) L.payments }
  | .reversed paidUntil =>
      { tenants := Function.update L.tenants c.tenant
          { L.tenants c.tenant with paidUntil := paidUntil.or (L.tenants c.tenant).paidUntil }
        payments := updateMany c.claimable c.claim L.payments }

/-- The whole call as one sequential function.  It answers whether it claimed the payment. -/
def run (c : Call) (L : Ledger) : Option (Bool × Ledger) :=
  if matchCount c.claimable L.payments = 0 then
    some (false, L)
  else do
    let payment ← c.find L.payments
    let out ← c.settle payment (L.tenants c.tenant)
    some (true, c.commit out L)

end Call

/-! ## Transactions side by side -/

/-- A record of every activation that committed. -/
structure Grant where
  payment : Nat
  tenant : Nat
  start : Int
  stop : Int
  deriving DecidableEq, Repr

/-- The ledger with the history of its activations. -/
structure Books where
  ledger : Ledger
  grants : List Grant

/-- The books as they are after the call's commit. -/
def Books.commit (b : Books) (c : Call) (out : Outcome) : Books where
  ledger := c.commit out b.ledger
  grants :=
    match out with
    | .granted start stop => ⟨c.paymentId, c.tenant, start, stop⟩ :: b.grants
    | .reversed _ => b.grants

/-- Where a transaction is. -/
inductive Tx
  | idle
  | locking (c : Call)
  | claiming (c : Call)
  | reading (c : Call)
  | settling (c : Call) (payment : Payment)
  | committing (c : Call) (out : Outcome)
  | returned (claimed : Bool)

structure World where
  books : Books
  /-- Which transaction holds the row of a workspace. -/
  rowLock : Nat → Option Nat

inductive Choice
  | call (c : Call)
  | next
  /-- The database or the process fails: the transaction is rolled back. -/
  | abort

/-- What else writes payments: new purchases, and what the provider adapters note on them. -/
inductive Event
  | checkout (id tenant : Nat) (plan : BillingPlan) (provider : PaymentProvider) (months now : Int)
  | attachProviderTxn (id : Nat) (txn : String) (createdAt : Int)
  | attachClickPrepareId (id : Nat) (prepareId : Int)

/-- The row `checkout` creates. -/
def newPayment (id tenant : Nat) (plan : BillingPlan) (provider : PaymentProvider)
    (amountTiyin months now : Int) : Payment where
  id := id
  tenantId := tenant
  plan := plan
  provider := provider
  amountTiyin := amountTiyin
  months := months
  status := .pending
  providerTxnId := none
  providerCreatedAt := none
  clickPrepareId := none
  paidAt := none
  cancelledAt := none
  cancelReason := none
  periodStart := none
  periodEnd := none
  createdAt := now

/-- One committed write of another operation; `none` where it is refused: a price out of range, an
identifier in use, a provider transaction that belongs to another payment. -/
def Event.apply (L : Ledger) : Event → Option Ledger
  | .checkout id tenant plan provider months now =>
      match priceTiyin plan months with
      | none => none
      | some amount =>
          if L.payments.any (fun r => r.id == id) then none
          else some { L with
            payments := L.payments ++ [newPayment id tenant plan provider amount months now] }
  | .attachProviderTxn id txn createdAt =>
      match L.payments.find? (fun r => r.id == id) with
      | none => none
      | some payment =>
          if L.payments.any fun r =>
              r.id != id && r.provider == payment.provider && r.providerTxnId == some txn then none
          else some { L with
            payments := updateMany (fun r => r.id == id)
              (fun r => { r with providerTxnId := some txn, providerCreatedAt := some createdAt })
              L.payments }
  | .attachClickPrepareId id prepareId =>
      if L.payments.any (fun r => r.id == id) then
        some { L with
          payments := updateMany (fun r => r.id == id)
            (fun r => { r with clickPrepareId := some prepareId }) L.payments }
      else none

/-- Let go of the workspace row. -/
def World.release (w : World) (c : Call) : World :=
  { w with rowLock := Function.update w.rowLock c.tenant none }

/-- One step of transaction `p`. -/
def act (p : Nat) (choice : Choice) (w : World) (tx : Tx) : Option (World × Tx) :=
  match choice, tx with
  | .call c, .idle => some (w, .locking c)
  | .call c, .returned _ => some (w, .locking c)
  -- `SELECT … FOR UPDATE` waits while another transaction holds the row.
  | .next, .locking c =>
      if w.rowLock c.tenant = none then
        some ({ w with rowLock := Function.update w.rowLock c.tenant (some p) }, .claiming c)
      else none
  | .next, .claiming c =>
      if matchCount c.claimable w.books.ledger.payments = 0 then some (w.release c, .returned false)
      else some (w, .reading c)
  | .next, .reading c =>
      match c.find w.books.ledger.payments with
      | some payment => some (w, .settling c payment)
      | none => some (w.release c, .idle)
  | .next, .settling c payment =>
      match c.settle payment (w.books.ledger.tenants c.tenant) with
      | some out => some (w, .committing c out)
      | none => some (w.release c, .idle)
  | .next, .committing c out =>
      some ({ w.release c with books := w.books.commit c out }, .returned true)
  | .abort, .locking _ => some (w, .idle)
  | .abort, .claiming c | .abort, .reading c | .abort, .settling c _ | .abort, .committing c _ =>
      some (w.release c, .idle)
  | _, _ => none

def env (e : Event) (w : World) : Option World :=
  (e.apply w.books.ledger).map fun L => { w with books := { w.books with ledger := L } }

/-- The billing database under any number of concurrent transactions. -/
def billing : Program World Tx Choice Event := ⟨act, env⟩

/-- The system at rest on a ledger with no history. -/
def openSystem (tenants : Nat → Tenant) (payments : List Payment) : System World Tx where
  shared := { books := { ledger := { tenants, payments }, grants := [] }, rowLock := fun _ => none }
  procs := fun _ => .idle

/-- A set of purchases on which nothing was settled yet. -/
structure Unsettled (payments : List Payment) : Prop where
  ids : (payments.map Payment.id).Nodup
  pending : ∀ r ∈ payments,
    r.status = .pending ∧ r.periodStart = none ∧ r.periodEnd = none ∧ 1 ≤ r.months

end ESignSoft.Billing
