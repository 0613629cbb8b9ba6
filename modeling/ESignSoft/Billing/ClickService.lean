import ESignSoft.Billing.Click

/-!
# Click callbacks side by side

Each callback is a process that makes one database step at a time: the lookup of the payment's workspace,
the read of the payment, and the transactions the decision on that row asks for.  Prepare may write twice,
its identifier and then the transaction of the other side.  Any number of callbacks run at once, beside
purchases and the other provider's adapter, and any of them may fail or crash.

The world records, for the theorems only, which Prepare stored each identifier and what every callback
that had found its payment answered, with the books right before and right after.
-/

namespace ESignSoft.Billing.Click

open ESignSoft.Lib.JsNumber ESignSoft.Lib.JsText ESignSoft.Lib.Table ESignSoft.Lib.Interleaving

/-! ## The program -/

/-- A Prepare that passed its checks and stored its identifier on the payment. -/
structure Prepared where
  body : ClickCallback
  /-- The payment as the callback had read it. -/
  seen : Payment
  prepareId : Int

/-- What a callback answered that had found its payment. -/
structure Answer where
  method : Method
  body : ClickCallback
  /-- The payment as the callback had read it. -/
  seen : Payment
  before : Books
  after : Books
  result : ClickResult

structure World where
  books : Books
  prepared : List Prepared
  answers : List Answer

/-- Where a callback is. -/
inductive Pc
  | idle
  | resolving (method : Method) (body : ClickCallback)
  | finding (method : Method) (body : ClickCallback) (tenant paymentId : Nat)
  | issuing (body : ClickCallback) (payment : Payment) (prepareId : Int)
  | attaching (body : ClickCallback) (payment : Payment) (prepareId now : Int)
  | activating (body : ClickCallback) (payment : Payment) (now : Int)
  | cancelling (body : ClickCallback) (payment : Payment) (now : Int)
  | answered (result : ClickResult)

inductive Choice
  | call (method : Method) (body : ClickCallback)
  /-- The next step, with the reading of the clock and the random number it may need. -/
  | next (now : Int) (draw : Fin 1000000000)
  /-- The database fails. -/
  | fail
  /-- The process ends without an answer. -/
  | crash

/-- An integer column takes 32 bits; the client refuses any other number. -/
def int4 (n : Int) : Option Int := if -2147483648 ≤ n ∧ n ≤ 2147483647 then some n else none

/-- What a callback does next with the payment it read. -/
def decideOn (method : Method) (body : ClickCallback) (payment : Payment) (now : Int)
    (draw : Fin 1000000000) : Pc :=
  match verifiedAmount body payment with
  | .error e => .answered e
  | .ok () =>
      match method with
      | .prepare =>
          match prepareOn body payment draw with
          | .error e => .answered e
          | .ok (.issue prepareId) => .issuing body payment prepareId
          | .ok (.reuse prepareId) => .attaching body payment prepareId now
      | .complete =>
          match completeOn body payment with
          | .error e => .answered e
          | .ok .cancel => .cancelling body payment now
          | .ok .activate => .activating body payment now

/-- A callback that has its answer puts it on record. -/
def World.record (w : World) (method : Method) (body : ClickCallback) (seen : Payment) (before : Books)
    (pc : Pc) : World :=
  match pc with
  | .answered result => { w with answers := ⟨method, body, seen, before, w.books, result⟩ :: w.answers }
  | _ => w

/-- One step of callback `p`. -/
def act (setting : Setting) (_p : Nat) (choice : Choice) (w : World) (pc : Pc) : Option (World × Pc) :=
  match choice, pc with
  | .call method body, .idle | .call method body, .answered _ =>
      match verifiedBody setting method body with
      | .ok () => some (w, .resolving method body)
      | .error e => some (w, .answered e)
  | .next _ _, .resolving method body =>
      match (setting.paymentId body.merchant_trans_id).bind fun id =>
          (w.books.ledger.resolve id).map fun tenant => (tenant, id) with
      | some (tenant, id) => some (w, .finding method body tenant id)
      | none => some (w, .answered (fail ClickError.TransactionNotFound))
  | .next now draw, .finding method body tenant paymentId =>
      match w.books.ledger.find tenant paymentId .click with
      | some payment =>
          let pc' := decideOn method body payment now draw
          some (w.record method body payment w.books pc', pc')
      | none => some (w, .answered (fail ClickError.TransactionNotFound))
  | .next now _, .issuing body payment prepareId =>
      match (Event.attachClickPrepareId payment.id prepareId).apply w.books.ledger with
      | some L =>
          some ({ w with
            books := { w.books with ledger := L }
            prepared := ⟨body, payment, prepareId⟩ :: w.prepared }, .attaching body payment prepareId now)
      | none => some (w.record .prepare body payment w.books (.answered failedToUpdate),
          .answered failedToUpdate)
  | .next _ _, .attaching body payment prepareId now =>
      match (Event.attachProviderTxn payment.id body.click_trans_id now).apply w.books.ledger with
      | some L =>
          let pc' := .answered (ok (some prepareId) none)
          some (World.record { w with books := { w.books with ledger := L } } .prepare body payment w.books
            pc', pc')
      | none => some (w.record .prepare body payment w.books (.answered failedToUpdate),
          .answered failedToUpdate)
  | .next _ _, .activating body payment now =>
      match w.books.run (.activate payment.tenantId payment.id now) with
      | some (_, books) =>
          -- Whether the payment was claimed is not looked at.
          let pc' := .answered (ok payment.clickPrepareId payment.clickPrepareId)
          some (World.record { w with books } .complete body payment w.books pc', pc')
      | none => some (w.record .complete body payment w.books (.answered failedToUpdate),
          .answered failedToUpdate)
  | .next _ _, .cancelling body payment now =>
      match (int4 body.error).bind fun reason =>
          w.books.run (.cancel payment.tenantId payment.id (some reason) now) with
      | some (_, books) =>
          let pc' := .answered (fail ClickError.TransactionCancelled)
          some (World.record { w with books } .complete body payment w.books pc', pc')
      | none => some (w.record .complete body payment w.books (.answered failedToUpdate),
          .answered failedToUpdate)
  | .fail, .resolving .. | .fail, .finding .. | .fail, .issuing .. | .fail, .attaching ..
  | .fail, .activating .. | .fail, .cancelling .. => some (w, .answered failedToUpdate)
  | .crash, .idle => none
  | .crash, _ => some (w, .idle)
  | _, _ => none

/-- What happens beside the Click callbacks. -/
def env (o : Outside) (w : World) : Option World :=
  (w.books.outside .click o).map fun books => { w with books }

/-- Click callbacks, any number at once. -/
def click (setting : Setting) : Program World Pc Choice Outside := ⟨act setting, env⟩

/-- No callback arrived yet. -/
def openClick (tenants : Nat → Tenant) (payments : List Payment) : System World Pc where
  shared := { books := { ledger := { tenants, payments }, grants := [] }, prepared := [], answers := [] }
  procs := fun _ => .idle

/-! ## What a decision may be -/

/-- A body that is ours to act on: signed, for our service, and the callback's own action. -/
structure Verified (setting : Setting) (method : Method) (body : ClickCallback) : Prop where
  secret : setting.CLICK_SECRET_KEY ≠ ""
  service : setting.CLICK_SERVICE_ID ≠ "" ∧ body.service_id = setting.CLICK_SERVICE_ID
  action : body.action = method.action
  signed : setting.toLowerCase body.sign_string = setting.toLowerCase (clickSignature setting body)

/-- The outcomes of a decision, each with what it rests on. -/
inductive Decided (method : Method) (body : ClickCallback) (payment : Payment) : Pc → Prop
  | refused (result : ClickResult) (herror : result.error ≠ ClickError.Success)
      (hnone : result.merchant_prepare_id = none) : Decided method body payment (.answered result)
  | issue (prepareId : Int) (hmethod : method = .prepare) (hamount : verifiedAmount body payment = .ok ())
      (hpending : payment.status = .pending) (hid : payment.clickPrepareId = none)
      (hbounds : 0 ≤ prepareId ∧ prepareId < 2 ^ 53) :
      Decided method body payment (.issuing body payment prepareId)
  | reuse (prepareId now : Int) (hmethod : method = .prepare)
      (hamount : verifiedAmount body payment = .ok ()) (hpending : payment.status = .pending)
      (hid : payment.clickPrepareId = some prepareId) :
      Decided method body payment (.attaching body payment prepareId now)
  | activate (now : Int) (hmethod : method = .complete) (hamount : verifiedAmount body payment = .ok ())
      (hquoted : prepareIdMatches body payment = true) (hpending : payment.status = .pending) :
      Decided method body payment (.activating body payment now)
  | cancel (now : Int) (hmethod : method = .complete) (hamount : verifiedAmount body payment = .ok ())
      (hquoted : prepareIdMatches body payment = true) (herror : body.error < 0) :
      Decided method body payment (.cancelling body payment now)

theorem verifiedAmount_error {body : ClickCallback} {payment : Payment} {e : ClickResult}
    (h : verifiedAmount body payment = .error e) :
    e.error ≠ ClickError.Success ∧ e.merchant_prepare_id = none := by
  unfold verifiedAmount at h
  split at h
  · obtain rfl := Except.error.inj h
    exact ⟨by decide, rfl⟩
  · split at h
    · obtain rfl := Except.error.inj h
      exact ⟨by decide, rfl⟩
    · cases h

theorem prepareOn_spec {body : ClickCallback} {payment : Payment} {draw : Fin 1000000000} {now : Int}
    (hamount : verifiedAmount body payment = .ok ()) :
    Decided .prepare body payment
      (match prepareOn body payment draw with
        | .error e => .answered e
        | .ok (.issue prepareId) => .issuing body payment prepareId
        | .ok (.reuse prepareId) => .attaching body payment prepareId now) := by
  unfold prepareOn
  by_cases herror : body.error < 0
  · rw [if_pos herror]
    exact Decided.refused _ (by decide) rfl
  · rw [if_neg herror]
    cases hstatus : payment.status with
    | paid => exact Decided.refused _ (by decide) rfl
    | cancelled => exact Decided.refused _ (by decide) rfl
    | pending =>
        cases hid : payment.clickPrepareId with
        | none => exact Decided.issue _ rfl hamount hstatus hid (newPrepareId_bounds draw)
        | some prepareId => exact Decided.reuse prepareId now rfl hamount hstatus hid

theorem completeOn_spec {body : ClickCallback} {payment : Payment} {now : Int}
    (hamount : verifiedAmount body payment = .ok ()) :
    Decided .complete body payment
      (match completeOn body payment with
        | .error e => .answered e
        | .ok .cancel => .cancelling body payment now
        | .ok .activate => .activating body payment now) := by
  unfold completeOn
  cases hquoted : prepareIdMatches body payment with
  | false => exact Decided.refused _ (by decide) rfl
  | true =>
      rw [if_neg (by decide)]
      by_cases herror : body.error < 0
      · rw [if_pos herror]
        exact Decided.cancel now rfl hamount hquoted herror
      · rw [if_neg herror]
        cases hstatus : payment.status with
        | cancelled => exact Decided.refused _ (by decide) rfl
        | paid => exact Decided.refused _ (by decide) rfl
        | pending => exact Decided.activate now rfl hamount hquoted hstatus

/-- Every decision is one of the outcomes. -/
theorem decideOn_spec (method : Method) (body : ClickCallback) (payment : Payment) (now : Int)
    (draw : Fin 1000000000) :
    Decided method body payment (decideOn method body payment now draw) := by
  unfold decideOn
  cases hamount : verifiedAmount body payment with
  | error e => exact Decided.refused e (verifiedAmount_error hamount).1 (verifiedAmount_error hamount).2
  | ok u =>
      cases method with
      | prepare => exact prepareOn_spec hamount
      | complete => exact completeOn_spec hamount

/-! ## What a step may be -/

/-- The steps of a callback. -/
inductive Moved (setting : Setting) (w : World) : Pc → World → Pc → Prop
  | ended (pc pc' : Pc) (h : pc' = .idle ∨ ∃ e, pc' = .answered e) : Moved setting w pc w pc'
  | started (pc : Pc) (method : Method) (body : ClickCallback) (h : Verified setting method body) :
      Moved setting w pc w (.resolving method body)
  | resolved (method : Method) (body : ClickCallback) (r : Payment) (hr : r ∈ w.books.ledger.payments)
      (hnames : setting.paymentId body.merchant_trans_id = some r.id) :
      Moved setting w (.resolving method body) w (.finding method body r.tenantId r.id)
  | found (method : Method) (body : ClickCallback) (tenant id : Nat) (payment : Payment) (pc' : Pc)
      (hfind : w.books.ledger.find tenant id .click = some payment)
      (h : Decided method body payment pc')
      (hpaid : method = .complete → verifiedAmount body payment = .ok () →
        prepareIdMatches body payment = true → payment.status = .paid → ¬ body.error < 0 →
        pc' = .answered (fail ClickError.AlreadyPaid)) :
      Moved setting w (.finding method body tenant id) (w.record method body payment w.books pc') pc'
  | failed (pc : Pc) (method : Method) (body : ClickCallback) (payment : Payment)
      (hpc : (method = .prepare ∧ ∃ prepareId, pc = .issuing body payment prepareId) ∨
        (method = .prepare ∧ ∃ prepareId now, pc = .attaching body payment prepareId now) ∨
        (method = .complete ∧ ∃ now, pc = .activating body payment now) ∨
        (method = .complete ∧ ∃ now, pc = .cancelling body payment now)) :
      Moved setting w pc (w.record method body payment w.books (.answered failedToUpdate))
        (.answered failedToUpdate)
  | issued (body : ClickCallback) (payment : Payment) (prepareId now : Int) (L : Ledger)
      (hL : (Event.attachClickPrepareId payment.id prepareId).apply w.books.ledger = some L) :
      Moved setting w (.issuing body payment prepareId)
        { w with
          books := { w.books with ledger := L }
          prepared := ⟨body, payment, prepareId⟩ :: w.prepared }
        (.attaching body payment prepareId now)
  | attached (body : ClickCallback) (payment : Payment) (prepareId now : Int) (L : Ledger)
      (hL : (Event.attachProviderTxn payment.id body.click_trans_id now).apply w.books.ledger = some L) :
      Moved setting w (.attaching body payment prepareId now)
        (World.record { w with books := { w.books with ledger := L } } .prepare body payment w.books
          (.answered (ok (some prepareId) none)))
        (.answered (ok (some prepareId) none))
  | activated (body : ClickCallback) (payment : Payment) (now : Int) (claimed : Bool) (books : Books)
      (hrun : w.books.run (.activate payment.tenantId payment.id now) = some (claimed, books)) :
      Moved setting w (.activating body payment now)
        (World.record { w with books } .complete body payment w.books
          (.answered (ok payment.clickPrepareId payment.clickPrepareId)))
        (.answered (ok payment.clickPrepareId payment.clickPrepareId))
  | cancelled (body : ClickCallback) (payment : Payment) (now reason : Int) (claimed : Bool) (books : Books)
      (hrun : w.books.run (.cancel payment.tenantId payment.id (some reason) now) = some (claimed, books)) :
      Moved setting w (.cancelling body payment now)
        (World.record { w with books } .complete body payment w.books
          (.answered (fail ClickError.TransactionCancelled)))
        (.answered (fail ClickError.TransactionCancelled))

/-- A Complete for a payment that is paid is answered AlreadyPaid, where Click reports no failure. -/
theorem decideOn_paid {body : ClickCallback} {payment : Payment} {now : Int} {draw : Fin 1000000000}
    (hamount : verifiedAmount body payment = .ok ()) (hquoted : prepareIdMatches body payment = true)
    (hpaid : payment.status = .paid) (herror : ¬ body.error < 0) :
    decideOn .complete body payment now draw = .answered (fail ClickError.AlreadyPaid) := by
  simp [decideOn, hamount, completeOn, hquoted, herror, hpaid]

private theorem Moved.of_ended {setting : Setting} {w w' : World} {pc pc' pc₁ : Pc}
    (hpc : pc₁ = .idle ∨ ∃ e, pc₁ = .answered e) (h : some (w, pc₁) = some (w', pc')) :
    Moved setting w pc w' pc' := by
  obtain ⟨rfl, rfl⟩ := Prod.mk.inj (Option.some.inj h)
  exact Moved.ended _ _ hpc

/-- The next step of a callback, by where it stands. -/
private theorem next_moved {setting : Setting} {p : Nat} {now : Int} {draw : Fin 1000000000} {w w' : World}
    {pc pc' : Pc} (h : act setting p (.next now draw) w pc = some (w', pc')) :
    Moved setting w pc w' pc' := by
  cases pc with
  | idle | answered => cases h
  | resolving method body =>
      simp only [act] at h
      cases hid : setting.paymentId body.merchant_trans_id with
      | none =>
          rw [hid] at h
          exact Moved.of_ended (Or.inr ⟨_, rfl⟩) h
      | some id =>
          cases htenant : w.books.ledger.resolve id with
          | none =>
              simp only [hid, Option.bind_some, htenant, Option.map_none] at h
              exact Moved.of_ended (Or.inr ⟨_, rfl⟩) h
          | some tenant =>
              simp only [hid, Option.bind_some, htenant, Option.map_some] at h
              obtain ⟨rfl, rfl⟩ := Prod.mk.inj (Option.some.inj h)
              obtain ⟨r, hr, rfl, rfl⟩ := resolve_eq_some htenant
              exact Moved.resolved method body r hr hid
  | finding method body tenant id =>
      simp only [act] at h
      cases hfind : w.books.ledger.find tenant id .click with
      | none =>
          rw [hfind] at h
          exact Moved.of_ended (Or.inr ⟨_, rfl⟩) h
      | some payment =>
          rw [hfind] at h
          obtain ⟨rfl, rfl⟩ := Prod.mk.inj (Option.some.inj h)
          refine Moved.found method body tenant id payment _ hfind
            (decideOn_spec method body payment now draw) ?_
          rintro rfl hamount hquoted hpaid herror
          exact decideOn_paid hamount hquoted hpaid herror
  | issuing body payment prepareId =>
      simp only [act] at h
      cases hL : (Event.attachClickPrepareId payment.id prepareId).apply w.books.ledger with
      | none =>
          rw [hL] at h
          obtain ⟨rfl, rfl⟩ := Prod.mk.inj (Option.some.inj h)
          exact Moved.failed _ _ _ _ (Or.inl ⟨rfl, _, rfl⟩)
      | some L =>
          rw [hL] at h
          obtain ⟨rfl, rfl⟩ := Prod.mk.inj (Option.some.inj h)
          exact Moved.issued body payment prepareId now L hL
  | attaching body payment prepareId now' =>
      simp only [act] at h
      cases hL : (Event.attachProviderTxn payment.id body.click_trans_id now').apply w.books.ledger with
      | none =>
          rw [hL] at h
          obtain ⟨rfl, rfl⟩ := Prod.mk.inj (Option.some.inj h)
          exact Moved.failed _ _ _ _ (Or.inr (Or.inl ⟨rfl, _, _, rfl⟩))
      | some L =>
          rw [hL] at h
          obtain ⟨rfl, rfl⟩ := Prod.mk.inj (Option.some.inj h)
          exact Moved.attached body payment prepareId now' L hL
  | activating body payment now' =>
      simp only [act] at h
      cases hrun : w.books.run (.activate payment.tenantId payment.id now') with
      | none =>
          rw [hrun] at h
          obtain ⟨rfl, rfl⟩ := Prod.mk.inj (Option.some.inj h)
          exact Moved.failed _ _ _ _ (Or.inr (Or.inr (Or.inl ⟨rfl, _, rfl⟩)))
      | some result =>
          obtain ⟨claimed, books⟩ := result
          rw [hrun] at h
          obtain ⟨rfl, rfl⟩ := Prod.mk.inj (Option.some.inj h)
          exact Moved.activated body payment now' claimed books hrun
  | cancelling body payment now' =>
      simp only [act] at h
      cases hreason : int4 body.error with
      | none =>
          rw [hreason] at h
          obtain ⟨rfl, rfl⟩ := Prod.mk.inj (Option.some.inj h)
          exact Moved.failed _ _ _ _ (Or.inr (Or.inr (Or.inr ⟨rfl, _, rfl⟩)))
      | some reason =>
          cases hrun : w.books.run (.cancel payment.tenantId payment.id (some reason) now') with
          | none =>
              simp only [hreason, Option.bind_some, hrun] at h
              obtain ⟨rfl, rfl⟩ := Prod.mk.inj (Option.some.inj h)
              exact Moved.failed _ _ _ _ (Or.inr (Or.inr (Or.inr ⟨rfl, _, rfl⟩)))
          | some result =>
              obtain ⟨claimed, books⟩ := result
              simp only [hreason, Option.bind_some, hrun] at h
              obtain ⟨rfl, rfl⟩ := Prod.mk.inj (Option.some.inj h)
              exact Moved.cancelled body payment now' reason claimed books hrun

/-- Every step of a callback is one of them. -/
theorem act_moved {setting : Setting} {p : Nat} {choice : Choice} {w w' : World} {pc pc' : Pc}
    (h : act setting p choice w pc = some (w', pc')) : Moved setting w pc w' pc' := by
  cases choice with
  | call method body =>
      have hcall : (match verifiedBody setting method body with
          | .ok () => some (w, Pc.resolving method body)
          | .error e => some (w, .answered e)) = some (w', pc') → Moved setting w pc w' pc' := by
        intro h
        cases hverified : verifiedBody setting method body with
        | error e =>
            rw [hverified] at h
            exact Moved.of_ended (Or.inr ⟨e, rfl⟩) h
        | ok u =>
            rw [hverified] at h
            obtain ⟨rfl, rfl⟩ := Prod.mk.inj (Option.some.inj h)
            obtain ⟨hsecret, hservice, haction, hid, hsigned⟩ := verifiedBody_ok hverified
            exact Moved.started _ method body ⟨hsecret, ⟨hservice, hid⟩, haction, hsigned⟩
      cases pc with
      | idle => exact hcall h
      | answered result => exact hcall h
      | _ => cases h
  | crash =>
      cases pc with
      | idle => cases h
      | _ => exact Moved.of_ended (Or.inl rfl) h
  | fail =>
      cases pc with
      | idle | answered => cases h
      | _ => exact Moved.of_ended (Or.inr ⟨failedToUpdate, rfl⟩) h
  | next now draw => exact next_moved (p := p) h

/-- Where no database step of a callback stands before its answer. -/
def Early : Pc → Prop
  | .idle | .resolving .. | .answered _ => True
  | _ => False

/-- Only the steps of `next` touch what the callbacks share, or go on to a database step of the payment. -/
theorem act_rests {setting : Setting} {p : Nat} {choice : Choice} {w w' : World} {pc pc' : Pc}
    (h : act setting p choice w pc = some (w', pc')) (hchoice : ∀ now draw, choice ≠ .next now draw) :
    w' = w ∧ Early pc' := by
  have hsame : ∀ pc₁, Early pc₁ → some (w, pc₁) = some (w', pc') → w' = w ∧ Early pc' := by
    rintro pc₁ hpc h
    obtain ⟨rfl, rfl⟩ := Prod.mk.inj (Option.some.inj h)
    exact ⟨rfl, hpc⟩
  cases choice with
  | next now draw => exact absurd rfl (hchoice now draw)
  | call method body =>
      cases hverified : verifiedBody setting method body with
      | error e =>
          cases pc with
          | idle | answered =>
              simp only [act, hverified] at h
              exact hsame (.answered e) trivial h
          | _ => cases h
      | ok u =>
          cases pc with
          | idle | answered =>
              simp only [act, hverified] at h
              exact hsame (.resolving method body) trivial h
          | _ => cases h
  | fail =>
      cases pc with
      | idle | answered => cases h
      | _ => exact hsame (.answered failedToUpdate) trivial h
  | crash =>
      cases pc with
      | idle => cases h
      | _ => exact hsame .idle trivial h

/-! ## What holds throughout -/

@[simp] theorem record_books (w : World) (method : Method) (body : ClickCallback) (seen : Payment)
    (before : Books) (pc : Pc) : (w.record method body seen before pc).books = w.books := by
  unfold World.record
  split <;> rfl

@[simp] theorem record_prepared (w : World) (method : Method) (body : ClickCallback) (seen : Payment)
    (before : Books) (pc : Pc) : (w.record method body seen before pc).prepared = w.prepared := by
  unfold World.record
  split <;> rfl

/-- The answers a step adds. -/
theorem mem_record {w : World} {method : Method} {body : ClickCallback} {seen : Payment} {before : Books}
    {pc : Pc} {a : Answer} (h : a ∈ (w.record method body seen before pc).answers) :
    a ∈ w.answers ∨ ∃ result, pc = .answered result ∧ a = ⟨method, body, seen, before, w.books, result⟩ := by
  unfold World.record at h
  split at h
  · rename_i result
    rcases List.mem_cons.mp h with rfl | hold
    · exact Or.inr ⟨result, rfl, rfl⟩
    · exact Or.inl hold
  · exact Or.inl h

/-- An accepted Prepare: signed, for a payment of Click's that it named while it was pending, at its
price. -/
structure Accepted (setting : Setting) (w : World) (pr : Prepared) : Prop where
  seen : Seen .click w.books.ledger pr.seen
  names : setting.paymentId pr.body.merchant_trans_id = some pr.seen.id
  verified : Verified setting .prepare pr.body
  amount : verifiedAmount pr.body pr.seen = .ok ()
  pending : pr.seen.status = .pending
  bounds : 0 ≤ pr.prepareId ∧ pr.prepareId < 2 ^ 53

/-- An accepted Prepare stored this identifier on the payment. -/
def Issued (w : World) (id : Nat) (prepareId : Int) : Prop :=
  ∃ pr ∈ w.prepared, pr.seen.id = id ∧ pr.prepareId = prepareId

/-- The shared assertion: every identifier on a payment of Click's was stored by an accepted Prepare. -/
structure Invariant (setting : Setting) (w : World) : Prop where
  sound : Sound w.books
  accepted : ∀ pr ∈ w.prepared, Accepted setting w pr
  issued : ∀ r ∈ w.books.ledger.payments, r.provider = .click → ∀ prepareId,
    r.clickPrepareId = some prepareId → Issued w r.id prepareId

/-- A callback that is verified and read the payment it names, at the price it quotes. -/
structure Ours (setting : Setting) (L : Ledger) (method : Method) (body : ClickCallback)
    (payment : Payment) : Prop where
  verified : Verified setting method body
  names : setting.paymentId body.merchant_trans_id = some payment.id
  seen : Seen .click L payment
  amount : verifiedAmount body payment = .ok ()

/-- The assertion of one callback about where it is. -/
def Knows (setting : Setting) (w : World) : Pc → Prop
  | .resolving method body => Verified setting method body
  | .finding method body _ id => Verified setting method body ∧
      setting.paymentId body.merchant_trans_id = some id
  | .issuing body payment prepareId => Ours setting w.books.ledger .prepare body payment ∧
      payment.status = .pending ∧ 0 ≤ prepareId ∧ prepareId < 2 ^ 53
  | .attaching body payment prepareId _ => Ours setting w.books.ledger .prepare body payment ∧
      Issued w payment.id prepareId
  | .activating body payment _ => Ours setting w.books.ledger .complete body payment ∧
      payment.status = .pending ∧ prepareIdMatches body payment = true ∧
      ∀ prepareId, payment.clickPrepareId = some prepareId → Issued w payment.id prepareId
  | .cancelling body payment _ => Ours setting w.books.ledger .complete body payment
  | _ => True

/-- A later world: payments in later states, and no accepted Prepare forgotten. -/
structure Grows (w w' : World) : Prop where
  rows : ∀ r ∈ w.books.ledger.payments, ∃ r' ∈ w'.books.ledger.payments, Later r r'
  prepared : ∀ pr ∈ w.prepared, pr ∈ w'.prepared

theorem Grows.seen {w w' : World} (hw : Grows w w') {payment : Payment}
    (h : Seen .click w.books.ledger payment) : Seen .click w'.books.ledger payment := by
  obtain ⟨hprov, r, hr, hlater⟩ := h
  obtain ⟨r', hr', hlater'⟩ := hw.rows r hr
  exact ⟨hprov, r', hr', hlater.trans hlater'⟩

theorem Grows.issued {w w' : World} (hw : Grows w w') {id : Nat} {prepareId : Int}
    (h : Issued w id prepareId) : Issued w' id prepareId := by
  obtain ⟨pr, hpr, hrest⟩ := h
  exact ⟨pr, hw.prepared pr hpr, hrest⟩

theorem Accepted.grows {setting : Setting} {w w' : World} (hw : Grows w w') {pr : Prepared}
    (h : Accepted setting w pr) : Accepted setting w' pr :=
  { h with seen := hw.seen h.seen }

theorem Ours.grows {setting : Setting} {w w' : World} (hw : Grows w w') {method : Method}
    {body : ClickCallback} {payment : Payment} (h : Ours setting w.books.ledger method body payment) :
    Ours setting w'.books.ledger method body payment :=
  { h with seen := hw.seen h.seen }

theorem Knows.grows {setting : Setting} {w w' : World} (hw : Grows w w') {pc : Pc}
    (h : Knows setting w pc) : Knows setting w' pc := by
  cases pc with
  | issuing body payment prepareId => exact ⟨h.1.grows hw, h.2⟩
  | attaching body payment prepareId now => exact ⟨h.1.grows hw, hw.issued h.2⟩
  | activating body payment now =>
      obtain ⟨hours, hpending, hquoted, hissued⟩ := h
      exact ⟨hours.grows hw, hpending, hquoted, fun id hid => hw.issued (hissued id hid)⟩
  | cancelling body payment now => exact Ours.grows hw h
  | _ => exact h

theorem Moved.writes {setting : Setting} {w w' : World} {pc pc' : Pc} (hpc : Knows setting w pc)
    (h : Moved setting w pc w' pc') : Books.Writes .click w.books w'.books := by
  cases h with
  | ended | started | resolved => exact Books.Writes.nothing rfl
  | found | failed => exact Books.Writes.nothing (record_books _ _ _ _ _ _)
  | issued body payment prepareId now L hL => exact Books.Writes.event _ L payment rfl hpc.1.seen hL rfl
  | attached body payment prepareId now L hL =>
      exact Books.Writes.event _ L payment rfl hpc.1.seen hL (record_books _ _ _ _ _ _)
  | activated body payment now claimed books hrun =>
      rw [record_books]
      exact Books.Writes.call _ claimed payment rfl hpc.1.seen hrun
  | cancelled body payment now reason claimed books hrun =>
      rw [record_books]
      exact Books.Writes.call _ claimed payment rfl hpc.seen hrun

/-- To the other provider's adapter a step of a callback is one of its surroundings' steps. -/
theorem Moved.outside {setting : Setting} {w w' : World} {pc pc' : Pc} (hw : Sound w.books)
    (hpc : Knows setting w pc) (h : Moved setting w pc w' pc') :
    w'.books = w.books ∨ ∃ o, w.books.outside .payme o = some w'.books :=
  (h.writes hpc).outside hw (by decide)

theorem Moved.grows {setting : Setting} {w w' : World} {pc pc' : Pc} (hw : Sound w.books)
    (hpc : Knows setting w pc) (h : Moved setting w pc w' pc') : Grows w w' := by
  refine ⟨later_step hw ((h.writes hpc).step hw), fun pr hpr => ?_⟩
  cases h with
  | ended | started | resolved => exact hpr
  | found | failed | attached | activated | cancelled =>
      rw [record_prepared]
      exact hpr
  | issued body payment prepareId now L hL => exact List.mem_cons_of_mem _ hpr

/-- Only Prepare's first transaction changes an identifier: afterwards a payment has the one it had, or
the one that was stored. -/
theorem Moved.prepareId {setting : Setting} {w w' : World} {pc pc' : Pc} (hw : Sound w.books)
    (h : Moved setting w pc w' pc') : ∀ r' ∈ w'.books.ledger.payments,
      (∃ r ∈ w.books.ledger.payments, r'.id = r.id ∧ r'.provider = r.provider ∧
        r'.clickPrepareId = r.clickPrepareId) ∨
      ∃ body payment prepareId, pc = .issuing body payment prepareId ∧
        ⟨body, payment, prepareId⟩ ∈ w'.prepared ∧ r'.id = payment.id ∧
        r'.clickPrepareId = some prepareId := by
  intro r' hr'
  have hsame : r' ∈ w.books.ledger.payments → ∃ r ∈ w.books.ledger.payments, r'.id = r.id ∧
      r'.provider = r.provider ∧ r'.clickPrepareId = r.clickPrepareId := fun h => ⟨r', h, rfl, rfl, rfl⟩
  have hran : ∀ c claimed books, w.books.run c = some (claimed, books) → r' ∈ books.ledger.payments →
      ∃ r ∈ w.books.ledger.payments, r'.id = r.id ∧ r'.provider = r.provider ∧
        r'.clickPrepareId = r.clickPrepareId := by
    intro c claimed books hrun hmem
    obtain ⟨r, hr, hid, hprov, hnotes⟩ := (Books.run_spec hw.ids hrun).notes hw.toGranted r' hmem
    exact ⟨r, hr, hid, hprov, hnotes.2.2⟩
  cases h with
  | ended | started | resolved => exact Or.inl (hsame hr')
  | found | failed =>
      rw [record_books] at hr'
      exact Or.inl (hsame hr')
  | activated body payment now claimed books hrun =>
      rw [record_books] at hr'
      exact Or.inl (hran _ _ _ hrun hr')
  | cancelled body payment now reason claimed books hrun =>
      rw [record_books] at hr'
      exact Or.inl (hran _ _ _ hrun hr')
  | attached body payment prepareId now L hL =>
      rw [record_books] at hr'
      rcases (mem_attachProviderTxn hL).mp hr' with ⟨r, hr, -, rfl⟩ | ⟨hr, -⟩
      · exact Or.inl ⟨r, hr, rfl, rfl, rfl⟩
      · exact Or.inl (hsame hr)
  | issued body payment prepareId now L hL =>
      rcases (mem_attachClickPrepareId hL).mp hr' with ⟨r, -, hid, rfl⟩ | ⟨hr, -⟩
      · exact Or.inr ⟨body, payment, prepareId, rfl, List.mem_cons_self, hid, rfl⟩
      · exact Or.inl (hsame hr)

/-- A callback that read a payment knows what its decision rested on. -/
private theorem knows_decided {setting : Setting} {w : World} {method : Method} {body : ClickCallback}
    {tenant id : Nat} {payment : Payment} {pc : Pc} (hw : Invariant setting w)
    (hverified : Verified setting method body)
    (hnames : setting.paymentId body.merchant_trans_id = some id)
    (hfind : w.books.ledger.find tenant id .click = some payment)
    (h : Decided method body payment pc) : Knows setting w pc := by
  obtain ⟨hmem, rfl, -, hprov⟩ := find_eq_some hfind
  have hours : verifiedAmount body payment = .ok () → Ours setting w.books.ledger method body payment :=
    fun hamount => ⟨hverified, hnames, ⟨hprov, payment, hmem, Later.refl payment⟩, hamount⟩
  cases h with
  | refused => trivial
  | issue prepareId hmethod hamount hpending hid hbounds =>
      subst hmethod
      exact ⟨hours hamount, hpending, hbounds⟩
  | reuse prepareId now hmethod hamount hpending hid =>
      subst hmethod
      exact ⟨hours hamount, hw.issued payment hmem hprov prepareId hid⟩
  | activate now hmethod hamount hquoted hpending =>
      subst hmethod
      exact ⟨hours hamount, hpending, hquoted, hw.issued payment hmem hprov⟩
  | cancel now hmethod hamount hquoted herror =>
      subst hmethod
      exact hours hamount

theorem Moved.knows {setting : Setting} {w w' : World} {pc pc' : Pc} (hw : Invariant setting w)
    (hpc : Knows setting w pc) (h : Moved setting w pc w' pc') : Knows setting w' pc' := by
  have hgrows := h.grows hw.sound hpc
  cases h with
  | ended _ _ hend =>
      rcases hend with rfl | ⟨e, rfl⟩
      · trivial
      · trivial
  | started _ method body hverified => exact hverified
  | resolved method body r hr hnames => exact ⟨hpc, hnames⟩
  | found method body tenant id payment _ hfind hdecided _ =>
      exact (knows_decided hw hpc.1 hpc.2 hfind hdecided).grows hgrows
  | failed | attached | activated | cancelled => trivial
  | issued body payment prepareId now L hL =>
      exact ⟨hpc.1.grows hgrows, _, List.mem_cons_self, rfl, rfl⟩

theorem Moved.invariant {setting : Setting} {w w' : World} {pc pc' : Pc} (hw : Invariant setting w)
    (hpc : Knows setting w pc) (h : Moved setting w pc w' pc') : Invariant setting w' := by
  have hgrows := h.grows hw.sound hpc
  refine ⟨sound_step hw.sound ((h.writes hpc).step hw.sound), fun pr hpr => ?_,
    fun r' hr' hprov prepareId hid => ?_⟩
  · have hold : pr ∈ w.prepared → Accepted setting w' pr := fun hpr => (hw.accepted pr hpr).grows hgrows
    cases h with
    | ended | started | resolved => exact hold hpr
    | found | failed | attached | activated | cancelled =>
        rw [record_prepared] at hpr
        exact hold hpr
    | issued body payment prepareId now L hL =>
        rcases List.mem_cons.mp hpr with rfl | hpr
        · obtain ⟨hours, hpending, hbounds⟩ := hpc
          exact Accepted.grows hgrows
            ⟨hours.seen, hours.names, hours.verified, hours.amount, hpending, hbounds⟩
        · exact hold hpr
  · rcases h.prepareId hw.sound r' hr' with ⟨r, hr, hrid, hrprov, hrprepare⟩ | ⟨body, payment, stored, -, hmem,
      hrid, hstored⟩
    · rw [hrid]
      exact hgrows.issued (hw.issued r hr (hrprov.symm.trans hprov) prepareId (hrprepare.symm.trans hid))
    · exact ⟨_, hmem, hrid.symm, Option.some.inj (hstored.symm.trans hid)⟩

/-- What happens beside the callbacks leaves Click's payments as they are. -/
theorem env_spec {setting : Setting} {o : Outside} {w w' : World} (hw : Invariant setting w)
    (h : env o w = some w') : Invariant setting w' ∧ Grows w w' := by
  obtain ⟨books, hbooks, rfl⟩ := Option.map_eq_some_iff.mp h
  have hstep := Books.outside_step hw.sound hbooks
  have hgrows : Grows w { w with books } := ⟨later_step hw.sound hstep, fun pr hpr => hpr⟩
  refine ⟨⟨sound_step hw.sound hstep, fun pr hpr => (hw.accepted pr hpr).grows hgrows,
    fun r hr hprov prepareId hid => ?_⟩, hgrows⟩
  rcases (mem_outside hw.sound hbooks hprov).2 hr with hold | ⟨hnew, -⟩
  · exact hw.issued r hold hprov prepareId hid
  · rw [hnew] at hid
    cases hid

/-- Click callbacks side by side, as a proof outline. -/
theorem outline (setting : Setting) : ProofOutline (click setting) (fun _ _ => True)
    (Invariant setting) (fun w _ pc => Knows setting w pc) (fun _ _ => True) where
  act s p choice w' pc' hs _ hact := by
    have hmoved : Moved setting s.shared (s.procs p) w' pc' := act_moved (p := p) hact
    exact ⟨hmoved.invariant hs.shared (hs.proc p), hmoved.knows hs.shared (hs.proc p),
      fun q _ => (hs.proc q).grows (hmoved.grows hs.shared.sound (hs.proc p)),
      fun _ _ => ⟨trivial, trivial⟩⟩
  env s o w' hs _ henv := by
    obtain ⟨hinv, hgrows⟩ := env_spec hs.shared henv
    exact ⟨hinv, fun q => (hs.proc q).grows hgrows⟩

theorem holds_open {setting : Setting} {payments : List Payment} (h : Fresh payments)
    (tenants : Nat → Tenant) :
    Holds (Invariant setting) (fun w _ pc => Knows setting w pc) (fun _ _ => True)
      (openClick tenants payments) where
  shared := by
    refine ⟨h.sound tenants, fun pr hpr => (List.not_mem_nil hpr).elim, fun r hr _ prepareId hid => ?_⟩
    rw [h.rows r hr] at hid
    cases hid
  proc _ := trivial
  pair _ _ _ := trivial

/-- The assertions hold in every state a run reaches. -/
theorem holds_of_reaches {setting : Setting} {ok : System World Pc → Label Choice Outside → Prop}
    {tenants : Nat → Tenant} {payments : List Payment} {s : System World Pc} (h₀ : Fresh payments)
    (h : Reaches (click setting) ok (openClick tenants payments) s) :
    Holds (Invariant setting) (fun w _ pc => Knows setting w pc) (fun _ _ => True) s :=
  (outline setting).holds_of_reaches (h.mono fun _ _ _ => trivial) (holds_open h₀ tenants)

end ESignSoft.Billing.Click
