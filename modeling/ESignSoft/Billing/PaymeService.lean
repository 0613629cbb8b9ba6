import ESignSoft.Billing.Payme

/-!
# Payme calls side by side

Each call is a process that makes one database step at a time: a lookup of the payment's workspace, the
read of the payment, and the one transaction the decision on that row asks for.  Between any two of them
other calls, purchases and the other provider's adapter may run, and a call may fail or crash.

* `Knows` — what a call knows where it stands: the row it decided on is an earlier state of a payment of
  Payme's;
* `Invariant` — a transaction identifier on a payment was put there by an accepted CreateTransaction for
  that very order;
* `holds_of_reaches` — both hold in every state a run reaches.
-/

namespace ESignSoft.Billing.Payme

open ESignSoft.Lib.JsNumber ESignSoft.Lib.Table ESignSoft.Lib.Interleaving

/-! ## The program -/

/-- A CreateTransaction that passed its checks and wrote its transaction on the order. -/
structure Binding where
  create : CreateParams
  /-- The order as the call had read it. -/
  seen : Payment
  createdAt : Int

/-- What a call answered. -/
structure Answer where
  request : Request
  result : Result

structure World where
  books : Books
  bindings : List Binding
  answers : List Answer

/-- Where a call is. -/
inductive Pc
  | idle
  | resolving (request : Request)
  | finding (request : Request) (tenant paymentId : Nat)
  | attaching (c : CreateParams) (payment : Payment)
  | activating (id : String) (payment : Payment) (checkedAt now : Int)
  | cancelling (c : CancelParams) (payment : Payment) (state now : Int)
  | answered (answer : Except PaymeRpcError Result)

inductive Choice
  | call (method : Method) (params : PaymeParams)
  /-- The next step, with the readings of the clock it makes. -/
  | next (clock now : Int)
  /-- The database fails. -/
  | fail
  /-- The process ends without an answer. -/
  | crash

/-- The answer of a call whose payment does not exist. -/
def notFound (setting : Setting) : Request → PaymeRpcError
  | .checkPerform .. | .create .. => ⟨PaymeError.OrderNotFound, some setting.PAYME_ACCOUNT_FIELD⟩
  | _ => ⟨PaymeError.TransactionNotFound, none⟩

/-- The first query of a call. -/
def resolve (setting : Setting) (L : Ledger) (request : Request) : Pc :=
  let byAccount (order : String) : Pc :=
    match (setting.paymentId order).bind fun id => (L.resolve id).map fun tenant => (tenant, id) with
    | some (tenant, id) => .finding request tenant id
    | none => .answered (.error (notFound setting request))
  let byTxn (txn : String) : Pc :=
    match L.resolveByTxn .payme txn with
    | some (tenant, id) => .finding request tenant id
    | none => .answered (.error (notFound setting request))
  match request with
  | .checkPerform order _ => byAccount order
  | .create c => byAccount c.order
  | .perform id => byTxn id
  | .cancel c => byTxn c.id
  | .check id => byTxn id
  | .statement start stop =>
      -- The query refuses an Invalid Date.
      match newDate start, newDate stop with
      | some start, some stop => .answered (.ok (.statement (paymeStatement setting start stop L)))
      | _, _ => .answered (.error unexpected)

/-- What a call does next with the payment it read. -/
def decideOn (request : Request) (payment : Payment) (clock now : Int) : Pc :=
  match request with
  | .checkPerform _ amount =>
      match checkPerformOn amount payment with
      | .ok () => .answered (.ok .allow)
      | .error e => .answered (.error e)
  | .create c =>
      match createOn c payment clock with
      | .ok (some r) => .answered (.ok (.created r))
      | .ok none => .attaching c payment
      | .error e => .answered (.error e)
  | .perform id =>
      match performOn payment clock with
      | .ok (some r) => .answered (.ok (.performed r))
      | .ok none => .activating id payment clock now
      | .error e => .answered (.error e)
  | .cancel c =>
      match cancelOn payment with
      | .inl r => .answered (.ok (.cancelled r))
      | .inr state => .cancelling c payment state now
  | .check _ => .answered (.ok (.checked (checkOn payment)))
  | .statement .. => .answered (.error unexpected)

/-- A call that has its answer puts it on record. -/
def World.record (w : World) (request : Request) (pc : Pc) : World :=
  match pc with
  | .answered (.ok result) => { w with answers := ⟨request, result⟩ :: w.answers }
  | _ => w

/-- The world after CreateTransaction wrote its transaction. -/
def World.bind (w : World) (c : CreateParams) (payment : Payment) (createdAt : Int) (L : Ledger) : World :=
  { w with
    books := { w.books with ledger := L }
    bindings := ⟨c, payment, createdAt⟩ :: w.bindings }

/-- One step of call `p`. -/
def act (setting : Setting) (_p : Nat) (choice : Choice) (w : World) (pc : Pc) : Option (World × Pc) :=
  match choice, pc with
  | .call method params, .idle | .call method params, .answered _ =>
      match parse setting method params with
      | .ok request => some (w, .resolving request)
      | .error e => some (w, .answered (.error e))
  | .next _ _, .resolving request =>
      let pc' := resolve setting w.books.ledger request
      some (w.record request pc', pc')
  | .next clock now, .finding request tenant paymentId =>
      let pc' :=
        match w.books.ledger.find tenant paymentId .payme with
        | some payment => decideOn request payment clock now
        | none => .answered (.error (notFound setting request))
      some (w.record request pc', pc')
  | .next _ _, .attaching c payment =>
      match (newDate c.time).bind fun createdAt =>
          ((Event.attachProviderTxn payment.id c.id createdAt).apply w.books.ledger).map
            fun L => (createdAt, L) with
      | some (createdAt, L) =>
          let pc' := .answered (.ok (.created ⟨c.time, payment.id, PaymeState.Created⟩))
          some ((w.bind c payment createdAt L).record (.create c) pc', pc')
      | none => some (w, .answered (.error unexpected))
  | .next _ _, .activating id payment _ now =>
      match w.books.run (.activate payment.tenantId payment.id now) with
      | some (_, books) =>
          -- Whether the payment was claimed is not looked at.
          let pc' := .answered (.ok (.performed ⟨payment.id, now, PaymeState.Performed⟩))
          some (World.record { w with books } (.perform id) pc', pc')
      | none => some (w, .answered (.error unexpected))
  | .next _ _, .cancelling c payment state now =>
      match (cancelReason c.reason).bind fun reason =>
          w.books.run (.cancel payment.tenantId payment.id reason now) with
      | some (_, books) =>
          let pc' := .answered (.ok (.cancelled ⟨payment.id, now, state⟩))
          some (World.record { w with books } (.cancel c) pc', pc')
      | none => some (w, .answered (.error unexpected))
  | .fail, .resolving _ | .fail, .finding .. | .fail, .attaching .. | .fail, .activating ..
  | .fail, .cancelling .. => some (w, .answered (.error unexpected))
  | .crash, .idle => none
  | .crash, _ => some (w, .idle)
  | _, _ => none

/-- What happens beside the Payme calls. -/
def env (o : Outside) (w : World) : Option World :=
  (w.books.outside .payme o).map fun books => { w with books }

/-- Payme calls, any number at once. -/
def payme (setting : Setting) : Program World Pc Choice Outside := ⟨act setting, env⟩

/-- No call was made yet. -/
def openPayme (tenants : Nat → Tenant) (payments : List Payment) : System World Pc where
  shared := { books := { ledger := { tenants, payments }, grants := [] }, bindings := [], answers := [] }
  procs := fun _ => .idle

/-- A call by itself: its steps in turn, at most so many, and none of another call in between. -/
def finish (setting : Setting) (clock now : Int) : Nat → World → Pc → World × Pc
  | 0, w, pc => (w, pc)
  | n + 1, w, pc =>
      match act setting 0 (.next clock now) w pc with
      | some (w', pc') => finish setting clock now n w' pc'
      | none => (w, pc)

/-- The whole of a call whose parameters passed their checks: two queries and a transaction at most. -/
def serve (setting : Setting) (clock now : Int) (w : World) (request : Request) : World × Pc :=
  finish setting clock now 3 w (.resolving request)

/-! ## What a decision may be -/

/-- The outcomes of a decision, each with what it rests on. -/
inductive Decided (payment : Payment) (clock now : Int) : Request → Pc → Prop
  | refused (request : Request) (e : PaymeRpcError) : Decided payment clock now request (.answered (.error e))
  | allowed (order : String) (amount : JsValue) :
      Decided payment clock now (.checkPerform order amount) (.answered (.ok .allow))
  | createdBefore (c : CreateParams) (createdAt : Int) (htxn : payment.providerTxnId = some c.id)
      (hcreated : payment.providerCreatedAt = some createdAt)
      (hclock : clock - createdAt ≤ PAYME_TRANSACTION_TIMEOUT_MS) :
      Decided payment clock now (.create c)
        (.answered (.ok (.created ⟨createdAt, payment.id, PaymeState.Created⟩)))
  | attach (c : CreateParams) (q : ℚ) (htxn : payment.providerTxnId.getD "" = "")
      (hpending : payment.status = .pending) (hamount : c.amount = .number (.finite q))
      (htrunc : trunc q = payment.amountTiyin)
      (hclock : ∀ t, newDate c.time = some t → clock - t ≤ PAYME_TRANSACTION_TIMEOUT_MS) :
      Decided payment clock now (.create c) (.attaching c payment)
  | performedBefore (id : String) (paidAt : Int) (hpaid : payment.status = .paid)
      (hpaidAt : payment.paidAt = some paidAt) :
      Decided payment clock now (.perform id)
        (.answered (.ok (.performed ⟨payment.id, paidAt, PaymeState.Performed⟩)))
  | activate (id : String) (hopen : payment.status = .pending ∨ (payment.status = .paid ∧ payment.paidAt = none))
      (hclock : ∀ t, payment.providerCreatedAt = some t → clock - t ≤ PAYME_TRANSACTION_TIMEOUT_MS) :
      Decided payment clock now (.perform id) (.activating id payment clock now)
  | cancelledBefore (c : CancelParams) (cancelledAt : Int) (hstatus : payment.status = .cancelled)
      (hcancelledAt : payment.cancelledAt = some cancelledAt) :
      Decided payment clock now (.cancel c)
        (.answered (.ok (.cancelled ⟨payment.id, cancelledAt, cancelledState payment⟩)))
  | cancel (c : CancelParams) (hopen : payment.status = .cancelled → payment.cancelledAt = none) :
      Decided payment clock now (.cancel c) (.cancelling c payment
        (if payment.status = .paid then PaymeState.CancelledAfterPerform
          else PaymeState.CancelledBeforePerform) now)
  | checked (id : String) :
      Decided payment clock now (.check id) (.answered (.ok (.checked (checkOn payment))))

theorem requirePayable_ok {payment : Payment} (h : requirePayable payment = .ok ()) :
    payment.status = .pending := by
  unfold requirePayable at h
  split at h
  · cases h
  · rename_i hpending
    exact not_not.mp hpending

theorem requireAmount_ok {payment : Payment} {amount : JsValue} (h : requireAmount payment amount = .ok ()) :
    ∃ q, amount = .number (.finite q) ∧ trunc q = payment.amountTiyin := by
  unfold requireAmount at h
  split at h
  · rename_i q
    split at h
    · cases h
    · rename_i htrunc
      exact ⟨q, rfl, not_not.mp htrunc⟩
  · cases h

theorem requireNotTimedOut_ok {createdAt : Option Int} {clock : Int}
    (h : requireNotTimedOut createdAt clock = .ok ()) :
    ∀ t, createdAt = some t → clock - t ≤ PAYME_TRANSACTION_TIMEOUT_MS := by
  rintro t rfl
  simp only [requireNotTimedOut] at h
  split at h
  · cases h
  · omega

/-- A computation that may refuse, taken apart. -/
theorem bind_ok {ε α β : Type} {x : Except ε α} {f : α → Except ε β} {b : β}
    (h : x.bind f = .ok b) : ∃ a, x = .ok a ∧ f a = .ok b := by
  cases x with
  | error e => cases h
  | ok a => exact ⟨a, rfl, h⟩

theorem createOn_spec {c : CreateParams} {payment : Payment} {clock now : Int} {o : Option CreateResult}
    (h : createOn c payment clock = .ok o) :
    Decided payment clock now (.create c)
      (match o with
        | some r => .answered (.ok (.created r))
        | none => .attaching c payment) := by
  unfold createOn at h
  split at h
  · rename_i htxn
    obtain ⟨⟨⟩, hpayable, h⟩ := bind_ok h
    obtain ⟨⟨⟩, hamount, h⟩ := bind_ok h
    obtain ⟨⟨⟩, hclock, h⟩ := bind_ok h
    obtain ⟨q, hq, htrunc⟩ := requireAmount_ok hamount
    obtain rfl := Except.ok.inj h
    exact Decided.attach c q htxn (requirePayable_ok hpayable) hq htrunc (requireNotTimedOut_ok hclock)
  · split at h
    · rename_i createdAt hcreated
      split at h
      · rename_i htxn
        obtain ⟨⟨⟩, hclock, h⟩ := bind_ok h
        obtain rfl := Except.ok.inj h
        exact Decided.createdBefore c createdAt htxn hcreated (requireNotTimedOut_ok hclock _ rfl)
      · cases h
    · cases h

theorem performOn_spec {id : String} {payment : Payment} {clock now : Int} {o : Option PerformResult}
    (h : performOn payment clock = .ok o) :
    Decided payment clock now (.perform id)
      (match o with
        | some r => .answered (.ok (.performed r))
        | none => .activating id payment clock now) := by
  unfold performOn at h
  split at h
  · rename_i paidAt hstatus hpaidAt
    obtain rfl := Except.ok.inj h
    exact Decided.performedBefore id paidAt hstatus hpaidAt
  · cases h
  · rename_i hcancelled hpaid
    obtain ⟨⟨⟩, hclock, h⟩ := bind_ok h
    obtain rfl := Except.ok.inj h
    refine Decided.activate id ?_ (requireNotTimedOut_ok hclock)
    cases hstatus : payment.status with
    | pending => exact Or.inl rfl
    | cancelled => exact absurd hstatus hcancelled
    | paid =>
        refine Or.inr ⟨rfl, ?_⟩
        cases hpaidAt : payment.paidAt with
        | none => rfl
        | some paidAt => exact absurd hpaidAt (hpaid paidAt hstatus)

theorem cancelOn_spec (c : CancelParams) (payment : Payment) (clock now : Int) :
    Decided payment clock now (.cancel c)
      (match cancelOn payment with
        | .inl r => .answered (.ok (.cancelled r))
        | .inr state => .cancelling c payment state now) := by
  have hopen : ∀ state, (payment.status = .cancelled → payment.cancelledAt = none) →
      state = (if payment.status = .paid then PaymeState.CancelledAfterPerform
        else PaymeState.CancelledBeforePerform) →
      Decided payment clock now (.cancel c) (.cancelling c payment state now) := by
    rintro _ h rfl
    exact Decided.cancel c h
  cases hstatus : payment.status with
  | cancelled =>
      cases hcancelledAt : payment.cancelledAt with
      | some cancelledAt =>
          simp only [cancelOn, hstatus, hcancelledAt]
          exact Decided.cancelledBefore c cancelledAt hstatus hcancelledAt
      | none =>
          simp only [cancelOn, hstatus, hcancelledAt]
          exact hopen _ (fun _ => hcancelledAt) (by simp [hstatus])
  | paid =>
      simp only [cancelOn, hstatus]
      exact hopen _ (fun h => by simp [hstatus] at h) (by simp [hstatus])
  | pending =>
      simp only [cancelOn, hstatus]
      exact hopen _ (fun h => by simp [hstatus] at h) (by simp [hstatus])

/-- Every decision is one of the outcomes. -/
theorem decideOn_spec (request : Request) (payment : Payment) (clock now : Int) :
    Decided payment clock now request (decideOn request payment clock now) := by
  cases request with
  | checkPerform order amount =>
      unfold decideOn
      simp only
      split
      · exact Decided.allowed order amount
      · exact Decided.refused _ _
  | create c =>
      unfold decideOn
      simp only
      split
      · rename_i r h
        exact createOn_spec h
      · rename_i h
        exact createOn_spec h
      · exact Decided.refused _ _
  | perform id =>
      unfold decideOn
      simp only
      split
      · rename_i r h
        exact performOn_spec h
      · rename_i h
        exact performOn_spec h
      · exact Decided.refused _ _
  | cancel c => exact cancelOn_spec c payment clock now
  | check id => exact Decided.checked id
  | statement start stop => exact Decided.refused _ _

/-! ## What a step may be -/

/-- What the checks before the first query promise. -/
def Parsed : Request → Prop
  | .create c => c.id ≠ ""
  | _ => True

/-- The payment a call is about, by the order or the transaction it names. -/
def Names (setting : Setting) (r : Payment) : Request → Prop
  | .checkPerform order _ => setting.paymentId order = some r.id
  | .create c => setting.paymentId c.order = some r.id
  | .perform id => r.provider = .payme ∧ r.providerTxnId = some id
  | .cancel c => r.provider = .payme ∧ r.providerTxnId = some c.id
  | .check id => r.provider = .payme ∧ r.providerTxnId = some id
  | .statement .. => False

/-- The steps of a call. -/
inductive Moved (setting : Setting) (w : World) : Pc → World → Pc → Prop
  | ended (pc pc' : Pc) (h : pc' = .idle ∨ ∃ e, pc' = .answered (.error e)) : Moved setting w pc w pc'
  | started (pc : Pc) (request : Request) (h : Parsed request) : Moved setting w pc w (.resolving request)
  | resolved (request : Request) (r : Payment) (hr : r ∈ w.books.ledger.payments)
      (hnames : Names setting r request) :
      Moved setting w (.resolving request) w (.finding request r.tenantId r.id)
  | reported (start stop : ℚ) (start' stop' : Int) :
      Moved setting w (.resolving (.statement start stop))
        (w.record (.statement start stop)
          (.answered (.ok (.statement (paymeStatement setting start' stop' w.books.ledger)))))
        (.answered (.ok (.statement (paymeStatement setting start' stop' w.books.ledger))))
  | found (request : Request) (tenant id : Nat) (payment : Payment) (clock now : Int) (pc' : Pc)
      (hfind : w.books.ledger.find tenant id .payme = some payment)
      (h : Decided payment clock now request pc') :
      Moved setting w (.finding request tenant id) (w.record request pc') pc'
  | attached (c : CreateParams) (payment : Payment) (createdAt : Int) (L : Ledger)
      (hdate : newDate c.time = some createdAt)
      (hL : (Event.attachProviderTxn payment.id c.id createdAt).apply w.books.ledger = some L) :
      Moved setting w (.attaching c payment)
        ((w.bind c payment createdAt L).record (.create c)
          (.answered (.ok (.created ⟨c.time, payment.id, PaymeState.Created⟩))))
        (.answered (.ok (.created ⟨c.time, payment.id, PaymeState.Created⟩)))
  | activated (id : String) (payment : Payment) (checkedAt now : Int) (claimed : Bool) (books : Books)
      (hrun : w.books.run (.activate payment.tenantId payment.id now) = some (claimed, books)) :
      Moved setting w (.activating id payment checkedAt now)
        (World.record { w with books } (.perform id)
          (.answered (.ok (.performed ⟨payment.id, now, PaymeState.Performed⟩))))
        (.answered (.ok (.performed ⟨payment.id, now, PaymeState.Performed⟩)))
  | cancelled (c : CancelParams) (payment : Payment) (state now : Int) (reason : Option Int)
      (claimed : Bool) (books : Books) (hreason : cancelReason c.reason = some reason)
      (hrun : w.books.run (.cancel payment.tenantId payment.id reason now) = some (claimed, books)) :
      Moved setting w (.cancelling c payment state now)
        (World.record { w with books } (.cancel c)
          (.answered (.ok (.cancelled ⟨payment.id, now, state⟩))))
        (.answered (.ok (.cancelled ⟨payment.id, now, state⟩)))

theorem requireString_ok {value : JsValue} {code : Int} {s : String}
    (h : requireString value code = .ok s) : s ≠ "" := by
  unfold requireString at h
  split at h
  · split at h
    · cases h
    · rename_i hne
      obtain rfl := Except.ok.inj h
      exact hne
  · cases h

theorem parse_ok {setting : Setting} {method : Method} {params : PaymeParams} {request : Request}
    (h : parse setting method params = .ok request) : Parsed request := by
  cases method with
  | checkPerformTransaction =>
      obtain ⟨order, -, h⟩ := bind_ok h
      obtain rfl := Except.ok.inj h
      trivial
  | createTransaction =>
      obtain ⟨id, hid, h⟩ := bind_ok h
      obtain ⟨time, -, h⟩ := bind_ok h
      obtain ⟨order, -, h⟩ := bind_ok h
      obtain rfl := Except.ok.inj h
      exact requireString_ok hid
  | performTransaction =>
      obtain ⟨id, -, h⟩ := bind_ok h
      obtain rfl := Except.ok.inj h
      trivial
  | cancelTransaction =>
      obtain ⟨id, -, h⟩ := bind_ok h
      obtain rfl := Except.ok.inj h
      trivial
  | checkTransaction =>
      obtain ⟨id, -, h⟩ := bind_ok h
      obtain rfl := Except.ok.inj h
      trivial
  | getStatement =>
      obtain ⟨start, -, h⟩ := bind_ok h
      obtain ⟨stop, -, h⟩ := bind_ok h
      obtain rfl := Except.ok.inj h
      trivial

/-- The first query finds the payment the call names, answers at once, or refuses. -/
theorem resolve_moved (setting : Setting) (w : World) (request : Request) :
    Moved setting w (.resolving request)
      (w.record request (resolve setting w.books.ledger request))
      (resolve setting w.books.ledger request) := by
  have hrefused : ∀ e, Moved setting w (.resolving request)
      (w.record request (.answered (.error e))) (.answered (.error e)) :=
    fun e => Moved.ended _ _ (Or.inr ⟨e, rfl⟩)
  have haccount : ∀ order, (∀ r : Payment, setting.paymentId order = some r.id → Names setting r request) →
      ∀ pc, pc = (match (setting.paymentId order).bind fun id =>
          (w.books.ledger.resolve id).map fun tenant => (tenant, id) with
        | some (tenant, id) => Pc.finding request tenant id
        | none => .answered (.error (notFound setting request))) →
      Moved setting w (.resolving request) (w.record request pc) pc := by
    rintro order hnames pc rfl
    cases hid : setting.paymentId order with
    | none => exact hrefused _
    | some id =>
        cases htenant : w.books.ledger.resolve id with
        | none =>
            simp only [Option.bind_some, htenant, Option.map_none]
            exact hrefused _
        | some tenant =>
            obtain ⟨r, hr, rfl, rfl⟩ := resolve_eq_some htenant
            simp only [Option.bind_some, htenant, Option.map_some]
            exact Moved.resolved request r hr (hnames r hid)
  have htxn : ∀ txn, (∀ r : Payment, r.provider = .payme → r.providerTxnId = some txn →
        Names setting r request) →
      ∀ pc, pc = (match w.books.ledger.resolveByTxn .payme txn with
        | some (tenant, id) => Pc.finding request tenant id
        | none => .answered (.error (notFound setting request))) →
      Moved setting w (.resolving request) (w.record request pc) pc := by
    rintro txn hnames pc rfl
    cases hfind : w.books.ledger.resolveByTxn .payme txn with
    | none => exact hrefused _
    | some found =>
        obtain ⟨tenant, id⟩ := found
        obtain ⟨r, hr, hprov, hrtxn, rfl, rfl⟩ := resolveByTxn_eq_some hfind
        exact Moved.resolved request r hr (hnames r hprov hrtxn)
  cases request with
  | checkPerform order amount => exact haccount order (fun r h => h) _ rfl
  | create c => exact haccount c.order (fun r h => h) _ rfl
  | perform id => exact htxn id (fun r hprov h => ⟨hprov, h⟩) _ rfl
  | cancel c => exact htxn c.id (fun r hprov h => ⟨hprov, h⟩) _ rfl
  | check id => exact htxn id (fun r hprov h => ⟨hprov, h⟩) _ rfl
  | statement start stop =>
      cases hstart : newDate start with
      | none =>
          simp only [resolve, hstart]
          exact hrefused _
      | some start' =>
          cases hstop : newDate stop with
          | none =>
              simp only [resolve, hstart, hstop]
              exact hrefused _
          | some stop' =>
              simp only [resolve, hstart, hstop]
              exact Moved.reported start stop start' stop'

/-- Every step of a call is one of them. -/
theorem act_moved {setting : Setting} {p : Nat} {choice : Choice} {w w' : World} {pc pc' : Pc}
    (h : act setting p choice w pc = some (w', pc')) : Moved setting w pc w' pc' := by
  have hended : ∀ pc₁, (pc₁ = .idle ∨ ∃ e, pc₁ = .answered (.error e)) → some (w, pc₁) = some (w', pc') →
      Moved setting w pc w' pc' := by
    rintro pc₁ hpc h
    obtain ⟨rfl, rfl⟩ := Prod.mk.inj (Option.some.inj h)
    exact Moved.ended _ _ hpc
  cases choice with
  | call method params =>
      have hcall : (match parse setting method params with
          | .ok request => some (w, Pc.resolving request)
          | .error e => some (w, .answered (.error e))) = some (w', pc') →
          Moved setting w pc w' pc' := by
        intro h
        cases hparse : parse setting method params with
        | error e =>
            rw [hparse] at h
            exact hended _ (Or.inr ⟨e, rfl⟩) h
        | ok request =>
            rw [hparse] at h
            obtain ⟨rfl, rfl⟩ := Prod.mk.inj (Option.some.inj h)
            exact Moved.started _ request (parse_ok hparse)
      cases pc with
      | idle => exact hcall h
      | answered answer => exact hcall h
      | _ => cases h
  | crash =>
      cases pc with
      | idle => cases h
      | _ => exact hended _ (Or.inl rfl) h
  | fail =>
      cases pc with
      | idle => cases h
      | answered answer => cases h
      | _ => exact hended _ (Or.inr ⟨unexpected, rfl⟩) h
  | next clock now =>
      cases pc with
      | idle => cases h
      | answered answer => cases h
      | resolving request =>
          obtain ⟨rfl, rfl⟩ := Prod.mk.inj (Option.some.inj h)
          exact resolve_moved setting w request
      | finding request tenant id =>
          simp only [act] at h
          cases hfind : w.books.ledger.find tenant id .payme with
          | none =>
              rw [hfind] at h
              exact hended _ (Or.inr ⟨_, rfl⟩) h
          | some payment =>
              rw [hfind] at h
              obtain ⟨rfl, rfl⟩ := Prod.mk.inj (Option.some.inj h)
              exact Moved.found request tenant id payment clock now _ hfind
                (decideOn_spec request payment clock now)
      | attaching c payment =>
          simp only [act] at h
          cases hdate : newDate c.time with
          | none =>
              rw [hdate] at h
              exact hended _ (Or.inr ⟨_, rfl⟩) h
          | some createdAt =>
              cases hL : (Event.attachProviderTxn payment.id c.id createdAt).apply w.books.ledger with
              | none =>
                  simp only [hdate, Option.bind_some, hL, Option.map_none] at h
                  exact hended _ (Or.inr ⟨_, rfl⟩) h
              | some L =>
                  simp only [hdate, Option.bind_some, hL, Option.map_some] at h
                  obtain ⟨rfl, rfl⟩ := Prod.mk.inj (Option.some.inj h)
                  exact Moved.attached c payment createdAt L hdate hL
      | activating id payment checkedAt now' =>
          simp only [act] at h
          cases hrun : w.books.run (.activate payment.tenantId payment.id now') with
          | none =>
              rw [hrun] at h
              exact hended _ (Or.inr ⟨_, rfl⟩) h
          | some result =>
              obtain ⟨claimed, books⟩ := result
              rw [hrun] at h
              obtain ⟨rfl, rfl⟩ := Prod.mk.inj (Option.some.inj h)
              exact Moved.activated id payment checkedAt now' claimed books hrun
      | cancelling c payment state now' =>
          simp only [act] at h
          cases hreason : cancelReason c.reason with
          | none =>
              rw [hreason] at h
              exact hended _ (Or.inr ⟨_, rfl⟩) h
          | some reason =>
              cases hrun : w.books.run (.cancel payment.tenantId payment.id reason now') with
              | none =>
                  simp only [hreason, Option.bind_some, hrun] at h
                  exact hended _ (Or.inr ⟨_, rfl⟩) h
              | some result =>
                  obtain ⟨claimed, books⟩ := result
                  simp only [hreason, Option.bind_some, hrun] at h
                  obtain ⟨rfl, rfl⟩ := Prod.mk.inj (Option.some.inj h)
                  exact Moved.cancelled c payment state now' reason claimed books hreason hrun

/-- Only the steps of `next` touch what the calls share. -/
theorem act_world_eq {setting : Setting} {p : Nat} {choice : Choice} {w w' : World} {pc pc' : Pc}
    (h : act setting p choice w pc = some (w', pc')) (hchoice : ∀ clock now, choice ≠ .next clock now) :
    w' = w := by
  cases choice with
  | next clock now => exact absurd rfl (hchoice clock now)
  | call method params =>
      cases hparse : parse setting method params with
      | error e =>
          cases pc with
          | idle | answered =>
              simp only [act, hparse] at h
              obtain ⟨rfl, -⟩ := Prod.mk.inj (Option.some.inj h)
              rfl
          | _ => cases h
      | ok request =>
          cases pc with
          | idle | answered =>
              simp only [act, hparse] at h
              obtain ⟨rfl, -⟩ := Prod.mk.inj (Option.some.inj h)
              rfl
          | _ => cases h
  | fail =>
      cases pc with
      | idle | answered => cases h
      | _ =>
          obtain ⟨rfl, -⟩ := Prod.mk.inj (Option.some.inj h)
          rfl
  | crash =>
      cases pc with
      | idle => cases h
      | _ =>
          obtain ⟨rfl, -⟩ := Prod.mk.inj (Option.some.inj h)
          rfl

/-! ## What holds throughout -/

@[simp] theorem record_books (w : World) (request : Request) (pc : Pc) :
    (w.record request pc).books = w.books := by
  unfold World.record
  split <;> rfl

@[simp] theorem record_bindings (w : World) (request : Request) (pc : Pc) :
    (w.record request pc).bindings = w.bindings := by
  unfold World.record
  split <;> rfl

/-- An accepted CreateTransaction: it named this order, quoted its price and found it pending, and the
order has had a transaction since. -/
structure Accepted (setting : Setting) (w : World) (b : Binding) : Prop where
  payment : b.seen.provider = .payme
  row : ∃ r ∈ w.books.ledger.payments, Later b.seen r ∧ r.providerTxnId ≠ none
  order : setting.paymentId b.create.order = some b.seen.id
  pending : b.seen.status = .pending
  amount : ∃ q, b.create.amount = .number (.finite q) ∧ trunc q = b.seen.amountTiyin
  id : b.create.id ≠ ""
  createdAt : newDate b.create.time = some b.createdAt
  answer : ⟨.create b.create, .created ⟨b.create.time, b.seen.id, PaymeState.Created⟩⟩ ∈ w.answers

/-- The shared assertion: every transaction on a payment of Payme's was put there by an accepted call. -/
structure Invariant (setting : Setting) (w : World) : Prop where
  sound : Sound w.books
  accepted : ∀ b ∈ w.bindings, Accepted setting w b
  bound : ∀ r ∈ w.books.ledger.payments, r.provider = .payme → ∀ txn, r.providerTxnId = some txn →
    ∃ b ∈ w.bindings, b.seen.id = r.id ∧ b.create.id = txn ∧ r.providerCreatedAt = some b.createdAt

/-- What brought a call to a payment. -/
def Traced (setting : Setting) (w : World) (id : Nat) : Request → Prop
  | .create c => setting.paymentId c.order = some id
  | .perform txn => ∃ b ∈ w.bindings, b.seen.id = id ∧ b.create.id = txn
  | _ => True

/-- The assertion of one call about where it is. -/
def Knows (setting : Setting) (w : World) : Pc → Prop
  | .resolving request => Parsed request
  | .finding request _ id => Parsed request ∧ Traced setting w id request
  | .attaching c payment => c.id ≠ "" ∧ Seen .payme w.books.ledger payment ∧
      setting.paymentId c.order = some payment.id ∧ payment.status = .pending ∧
      ∃ q, c.amount = .number (.finite q) ∧ trunc q = payment.amountTiyin
  | .activating id payment checkedAt _ => Seen .payme w.books.ledger payment ∧ payment.status = .pending ∧
      (∃ b ∈ w.bindings, b.seen.id = payment.id ∧ b.create.id = id) ∧
      ∃ b ∈ w.bindings, b.seen.id = payment.id ∧ payment.providerCreatedAt = some b.createdAt ∧
        checkedAt - b.createdAt ≤ PAYME_TRANSACTION_TIMEOUT_MS
  | .cancelling _ payment state _ => Seen .payme w.books.ledger payment ∧ payment.status ≠ .cancelled ∧
      state = (if payment.status = .paid then PaymeState.CancelledAfterPerform
        else PaymeState.CancelledBeforePerform)
  | _ => True

/-- A later world: payments in later states, and no accepted call or answer forgotten. -/
structure Grows (w w' : World) : Prop where
  rows : ∀ r ∈ w.books.ledger.payments, ∃ r' ∈ w'.books.ledger.payments, Later r r'
  bindings : ∀ b ∈ w.bindings, b ∈ w'.bindings
  answers : ∀ a ∈ w.answers, a ∈ w'.answers

theorem Grows.seen {w w' : World} (hw : Grows w w') {payment : Payment}
    (h : Seen .payme w.books.ledger payment) : Seen .payme w'.books.ledger payment := by
  obtain ⟨hprov, r, hr, hlater⟩ := h
  obtain ⟨r', hr', hlater'⟩ := hw.rows r hr
  exact ⟨hprov, r', hr', hlater.trans hlater'⟩

theorem Accepted.grows {setting : Setting} {w w' : World} (hw : Grows w w') {b : Binding}
    (h : Accepted setting w b) : Accepted setting w' b := by
  obtain ⟨r, hr, hlater, hbound⟩ := h.row
  obtain ⟨r', hr', hlater'⟩ := hw.rows r hr
  exact { h with
    row := ⟨r', hr', hlater.trans hlater', hlater'.bound hbound⟩
    answer := hw.answers _ h.answer }

theorem Traced.grows {setting : Setting} {w w' : World} (hw : Grows w w') {id : Nat} {request : Request}
    (h : Traced setting w id request) : Traced setting w' id request := by
  cases request with
  | perform txn =>
      obtain ⟨b, hb, hrest⟩ := h
      exact ⟨b, hw.bindings b hb, hrest⟩
  | _ => exact h

theorem Knows.grows {setting : Setting} {w w' : World} (hw : Grows w w') {pc : Pc}
    (h : Knows setting w pc) : Knows setting w' pc := by
  cases pc with
  | finding request tenant id => exact ⟨h.1, h.2.grows hw⟩
  | attaching c payment =>
      obtain ⟨hid, hseen, hrest⟩ := h
      exact ⟨hid, hw.seen hseen, hrest⟩
  | activating id payment checkedAt now =>
      obtain ⟨hseen, hpending, ⟨b, hb, hrest⟩, b', hb', hrest'⟩ := h
      exact ⟨hw.seen hseen, hpending, ⟨b, hw.bindings b hb, hrest⟩, b', hw.bindings b' hb', hrest'⟩
  | cancelling c payment state now => exact ⟨hw.seen h.1, h.2⟩
  | _ => exact h

theorem Moved.books_step {setting : Setting} {w w' : World} {pc pc' : Pc} (hw : Sound w.books)
    (h : Moved setting w pc w' pc') : Books.Step w.books w'.books := by
  cases h with
  | ended | started | resolved => exact Books.Step.stay _
  | reported | found =>
      rw [record_books]
      exact Books.Step.stay _
  | attached c payment createdAt L hdate hL =>
      rw [record_books]
      exact Books.Step.event _ _ L hL
  | activated id payment checkedAt now claimed books hrun =>
      rw [record_books]
      exact (Books.run_spec hw.ids hrun).step
  | cancelled c payment state now reason claimed books hreason hrun =>
      rw [record_books]
      exact (Books.run_spec hw.ids hrun).step

theorem mem_answers_record {w : World} {request : Request} {pc : Pc} {a : Answer} (h : a ∈ w.answers) :
    a ∈ (w.record request pc).answers := by
  unfold World.record
  split
  · exact List.mem_cons_of_mem _ h
  · exact h

theorem Moved.grows {setting : Setting} {w w' : World} {pc pc' : Pc} (hw : Sound w.books)
    (h : Moved setting w pc w' pc') : Grows w w' := by
  refine ⟨later_step hw (h.books_step hw), fun b hb => ?_, fun a ha => ?_⟩
  · cases h with
    | ended | started | resolved => exact hb
    | reported | found | activated | cancelled =>
        rw [record_bindings]
        exact hb
    | attached c payment createdAt L hdate hL =>
        rw [record_bindings]
        exact List.mem_cons_of_mem _ hb
  · cases h with
    | ended | started | resolved => exact ha
    | reported | found | attached | activated | cancelled => exact mem_answers_record ha

/-- A call that read a payment knows what its decision rested on. -/
private theorem knows_decided {setting : Setting} {w : World} {request : Request} {tenant id : Nat}
    {payment : Payment} {clock now : Int} {pc : Pc} (hw : Invariant setting w)
    (hparsed : Parsed request) (htraced : Traced setting w id request)
    (hfind : w.books.ledger.find tenant id .payme = some payment)
    (h : Decided payment clock now request pc) : Knows setting w pc := by
  obtain ⟨hmem, rfl, -, hprov⟩ := find_eq_some hfind
  have hseen : Seen .payme w.books.ledger payment := ⟨hprov, payment, hmem, Later.refl payment⟩
  cases h with
  | attach c q htxn hpending hamount htrunc hclock =>
      exact ⟨hparsed, hseen, htraced, hpending, q, hamount, htrunc⟩
  | activate txn hopen hclock =>
      have hpending : payment.status = .pending := by
        rcases hopen with hpending | ⟨hpaid, hnone⟩
        · exact hpending
        · exact absurd hnone ((hw.sound.stamps payment hmem).paid hpaid).1
      obtain ⟨b, hb, hid, htxn⟩ := htraced
      -- The order named by the transaction has one, so an accepted call wrote the one it has now.
      obtain ⟨r, hr, hlater, hbound⟩ := (hw.accepted b hb).row
      obtain rfl := eq_of_key_eq hw.sound.ids hr hmem (hlater.id.trans hid)
      obtain ⟨txn', htxn'⟩ := Option.ne_none_iff_exists'.mp hbound
      obtain ⟨b', hb', hid', -, hcreated⟩ := hw.bound r hmem hprov txn' htxn'
      exact ⟨hseen, hpending, ⟨b, hb, hid, htxn⟩, b', hb', hid', hcreated, hclock _ hcreated⟩
  | cancel c hopen =>
      refine ⟨hseen, fun hcancelled => ?_, rfl⟩
      exact (hw.sound.stamps payment hmem).cancelled hcancelled (hopen hcancelled)
  | _ => trivial

theorem Moved.knows {setting : Setting} {w w' : World} {pc pc' : Pc} (hw : Invariant setting w)
    (hpc : Knows setting w pc) (h : Moved setting w pc w' pc') : Knows setting w' pc' := by
  refine Knows.grows (h.grows hw.sound) ?_
  cases h with
  | ended _ _ hend =>
      rcases hend with rfl | ⟨e, rfl⟩
      · trivial
      · trivial
  | started _ request hparsed => exact hparsed
  | resolved request r hr hnames =>
      refine ⟨hpc, ?_⟩
      cases request with
      | create c => exact hnames
      | perform txn =>
          obtain ⟨b, hb, hid, htxn, -⟩ := hw.bound r hr hnames.1 txn hnames.2
          exact ⟨b, hb, hid, htxn⟩
      | _ => trivial
  | found request tenant id payment clock now _ hfind hdecided =>
      exact knows_decided hw hpc.1 hpc.2 hfind hdecided
  | reported | attached | activated | cancelled => trivial

/-- A transaction that was just written, on record as accepted. -/
private theorem accepted_attached {setting : Setting} {w : World} {c : CreateParams} {payment : Payment}
    {createdAt : Int} {L : Ledger} (hpc : Knows setting w (.attaching c payment))
    (hdate : newDate c.time = some createdAt)
    (hL : (Event.attachProviderTxn payment.id c.id createdAt).apply w.books.ledger = some L) :
    Accepted setting ((w.bind c payment createdAt L).record (.create c)
        (.answered (.ok (.created ⟨c.time, payment.id, PaymeState.Created⟩)))) ⟨c, payment, createdAt⟩ := by
  obtain ⟨hid, ⟨hprov, r, hr, hlater⟩, horder, hpending, hamount⟩ := hpc
  refine ⟨hprov, ⟨{ r with providerTxnId := some c.id, providerCreatedAt := some createdAt },
    (mem_attachProviderTxn hL).mpr (Or.inl ⟨r, hr, hlater.id, rfl⟩), ?_, by simp⟩, horder, hpending,
    hamount, hid, hdate, List.mem_cons_self⟩
  exact hlater.trans ⟨rfl, rfl, rfl, rfl, fun _ h => h, fun _ h => (by cases h), fun h => h,
    fun h => ⟨h, rfl, rfl, rfl⟩⟩

theorem Moved.invariant {setting : Setting} {w w' : World} {pc pc' : Pc} (hw : Invariant setting w)
    (hpc : Knows setting w pc) (h : Moved setting w pc w' pc') : Invariant setting w' := by
  have hgrows := h.grows hw.sound
  have hsound := sound_step hw.sound (h.books_step hw.sound)
  have hold : ∀ b ∈ w.bindings, Accepted setting w' b :=
    fun b hb => (hw.accepted b hb).grows hgrows
  -- Where only notes on the payments are at stake, a row has the notes of the row it was.
  have hnotes : w'.bindings = w.bindings → (∀ r' ∈ w'.books.ledger.payments,
      ∃ r ∈ w.books.ledger.payments, r'.id = r.id ∧ r'.provider = r.provider ∧ SameNotes r r') →
      Invariant setting w' := by
    intro hbindings hback
    refine ⟨hsound, by rw [hbindings]; exact hold, fun r' hr' hprov txn htxn => ?_⟩
    obtain ⟨r, hr, hid, hprov', htxn', hcreated, -⟩ := hback r' hr'
    obtain ⟨b, hb, hbid, hbtxn, hbcreated⟩ :=
      hw.bound r hr (hprov'.symm.trans hprov) txn (htxn'.symm.trans htxn)
    exact ⟨b, hbindings ▸ hb, hbid.trans hid.symm, hbtxn, hcreated.trans hbcreated⟩
  have hsame : ∀ r' ∈ w.books.ledger.payments, ∃ r ∈ w.books.ledger.payments,
      r'.id = r.id ∧ r'.provider = r.provider ∧ SameNotes r r' :=
    fun r hr => ⟨r, hr, rfl, rfl, rfl, rfl, rfl⟩
  cases h with
  | ended | started | resolved => exact hw
  | reported | found => exact hnotes (record_bindings _ _ _) (by rw [record_books]; exact hsame)
  | activated id payment checkedAt now claimed books hrun =>
      refine hnotes (record_bindings _ _ _) ?_
      rw [record_books]
      exact (Books.run_spec hw.sound.ids hrun).notes hw.sound.toGranted
  | cancelled c payment state now reason claimed books hreason hrun =>
      refine hnotes (record_bindings _ _ _) ?_
      rw [record_books]
      exact (Books.run_spec hw.sound.ids hrun).notes hw.sound.toGranted
  | attached c payment createdAt L hdate hL =>
      refine ⟨hsound, fun b hb => ?_, fun r' hr' hprov txn htxn => ?_⟩
      · rw [record_bindings] at hb
        rcases List.mem_cons.mp hb with rfl | hb
        · exact accepted_attached hpc hdate hL
        · exact hold b hb
      · rw [record_books] at hr'
        rw [record_bindings]
        rcases (mem_attachProviderTxn hL).mp hr' with ⟨r, -, hrid, rfl⟩ | ⟨hr, -⟩
        · exact ⟨_, List.mem_cons_self, hrid.symm, Option.some.inj htxn, rfl⟩
        · obtain ⟨b, hb, hrest⟩ := hw.bound r' hr hprov txn htxn
          exact ⟨b, List.mem_cons_of_mem _ hb, hrest⟩

/-- What happens beside the calls leaves Payme's payments as they are. -/
theorem env_spec {setting : Setting} {o : Outside} {w w' : World} (hw : Invariant setting w)
    (h : env o w = some w') : Invariant setting w' ∧ Grows w w' := by
  obtain ⟨books, hbooks, rfl⟩ := Option.map_eq_some_iff.mp h
  have hstep := Books.outside_step hw.sound hbooks
  have hgrows : Grows w { w with books } := ⟨later_step hw.sound hstep, fun b hb => hb, fun a ha => ha⟩
  refine ⟨⟨sound_step hw.sound hstep, fun b hb => (hw.accepted b hb).grows hgrows,
    fun r hr hprov txn htxn => ?_⟩, hgrows⟩
  rcases (mem_outside hw.sound hbooks hprov).2 hr with hold | ⟨hnew, -⟩
  · exact hw.bound r hold hprov txn htxn
  · rw [hnew] at htxn
    cases htxn

/-- Payme calls side by side, as a proof outline. -/
theorem outline (setting : Setting) : ProofOutline (payme setting) (fun _ _ => True)
    (Invariant setting) (fun w _ pc => Knows setting w pc) (fun _ _ => True) where
  act s p choice w' pc' hs _ hact := by
    have hmoved : Moved setting s.shared (s.procs p) w' pc' := act_moved (p := p) hact
    exact ⟨hmoved.invariant hs.shared (hs.proc p), hmoved.knows hs.shared (hs.proc p),
      fun q _ => (hs.proc q).grows (hmoved.grows hs.shared.sound), fun _ _ => ⟨trivial, trivial⟩⟩
  env s o w' hs _ henv := by
    obtain ⟨hinv, hgrows⟩ := env_spec hs.shared henv
    exact ⟨hinv, fun q => (hs.proc q).grows hgrows⟩

theorem holds_open {setting : Setting} {payments : List Payment} (h : Fresh payments)
    (tenants : Nat → Tenant) :
    Holds (Invariant setting) (fun w _ pc => Knows setting w pc) (fun _ _ => True)
      (openPayme tenants payments) where
  shared := by
    refine ⟨h.sound tenants, fun b hb => (List.not_mem_nil hb).elim, fun r hr _ txn htxn => ?_⟩
    rw [h.rows r hr] at htxn
    cases htxn
  proc _ := trivial
  pair _ _ _ := trivial

/-- The assertions hold in every state a run reaches. -/
theorem holds_of_reaches {setting : Setting} {ok : System World Pc → Label Choice Outside → Prop}
    {tenants : Nat → Tenant} {payments : List Payment} {s : System World Pc} (h₀ : Fresh payments)
    (h : Reaches (payme setting) ok (openPayme tenants payments) s) :
    Holds (Invariant setting) (fun w _ pc => Knows setting w pc) (fun _ _ => True) s :=
  (outline setting).holds_of_reaches (h.mono fun _ _ _ => trivial) (holds_open h₀ tenants)

/-- CheckTransaction finds the payment that carries the transaction, and reports it as it is. -/
theorem serve_check {setting : Setting} {w : World} (hw : Sound w.books) {r : Payment} {txn : String}
    (hr : r ∈ w.books.ledger.payments) (hprov : r.provider = .payme) (htxn : r.providerTxnId = some txn)
    (clock now : Int) :
    (serve setting clock now w (.check txn)).2 = .answered (.ok (.checked (checkOn r))) := by
  have hresolve : w.books.ledger.resolveByTxn .payme txn = some (r.tenantId, r.id) := by
    rw [← hprov]
    exact hw.resolveByTxn hr htxn
  have hfind : w.books.ledger.find r.tenantId r.id .payme = some r := by
    rw [← hprov]
    exact find_of_mem hw.ids hr
  simp [serve, finish, act, resolve, hresolve, World.record, hfind, decideOn]

/-! ## One order to run calls on -/

def exampleSetting : Setting where
  PAYME_ACCOUNT_FIELD := "order_id"
  paymentId order := if order = "order-1" then some 1 else none

def exampleTenants : Nat → Tenant := fun _ => ⟨.trial, 50, none⟩

def exampleOrder : Payment := newPayment 1 7 .personal .payme 9900000 1 0

theorem fresh_exampleOrder : Fresh [exampleOrder] := ⟨by decide, by decide, by decide⟩

/-- The parameters of CreateTransaction for the order, at its price. -/
def exampleParams (id : String) (time : ℚ) : PaymeParams := fun name =>
  if name = "id" then .string id
  else if name = "time" then .number (.finite time)
  else if name = "account" then
    .object fun field => if field = "order_id" then .string "order-1" else .undefined
  else if name = "amount" then .number (.finite 9900000)
  else .undefined

def exampleCall (p : Nat) (id : String) (time : ℚ) : Label Choice Outside :=
  .proc p (.call .createTransaction (exampleParams id time))

/-- The whole of it, by itself. -/
def exampleCreate (p : Nat) (id : String) (time : Int) : List (Label Choice Outside) :=
  exampleCall p id time :: List.replicate 3 (.proc p (.next time time))

/-- The parameters of the methods that name a transaction only. -/
def exampleTxn (id : String) : PaymeParams := fun name => if name = "id" then .string id else .undefined

def examplePerform (p : Nat) (id : String) : Label Choice Outside :=
  .proc p (.call .performTransaction (exampleTxn id))

def exampleCancel (p : Nat) (id : String) : Label Choice Outside :=
  .proc p (.call .cancelTransaction (exampleTxn id))

end ESignSoft.Billing.Payme
