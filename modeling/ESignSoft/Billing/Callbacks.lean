import ESignSoft.Billing.Grants

/-!
# The ledger under the provider callbacks

What the adapters of both providers do to the ledger, one database transaction at a time: the lookups
before a payment is touched, the transactions of `activate` and `cancel` on the books, and what the
other adapter and the checkout do meanwhile (`Books.outside`).

* `sound_step` — the stamps of every payment explain its status, and a provider's transaction belongs to
  one payment;
* `later_step` — what a payment has once recorded stays;
* `mem_outside` — the other adapter leaves this one's payments alone.
-/

namespace ESignSoft.Billing

open ESignSoft.Lib.Table ESignSoft.Lib.Interleaving

/-! ## Lookups -/

/-- `resolve_payment`: the workspace a payment belongs to. -/
def Ledger.resolve (L : Ledger) (id : Nat) : Option Nat :=
  (L.payments.find? fun r => r.id == id).map Payment.tenantId

/-- `resolve_payment_by_txn`: the workspace and the payment of a provider's transaction. -/
def Ledger.resolveByTxn (L : Ledger) (provider : PaymentProvider) (txn : String) : Option (Nat × Nat) :=
  (L.payments.find? fun r => r.provider == provider && r.providerTxnId == some txn).map
    fun r => (r.tenantId, r.id)

/-- `find`, in the context of a workspace: the payment, if it is one of this provider's. -/
def Ledger.find (L : Ledger) (tenant id : Nat) (provider : PaymentProvider) : Option Payment :=
  match L.payments.find? fun r => r.id == id && r.tenantId == tenant with
  | none => none
  | some payment => if payment.provider = provider then some payment else none

/-! ## Transactions on the books -/

/-- The books after the transaction of a call, and whether it claimed its payment; `none` where it
throws and is rolled back. -/
def Books.run (b : Books) (c : Call) : Option (Bool × Books) :=
  if matchCount c.claimable b.ledger.payments = 0 then some (false, b)
  else do
    let payment ← c.find b.ledger.payments
    let out ← c.settle payment (b.ledger.tenants c.tenant)
    some (true, b.commit c out)

/-- On the ledger it is the sequential call. -/
theorem Books.run_ledger (b : Books) (c : Call) :
    (b.run c).map (fun x => (x.1, x.2.ledger)) = c.run b.ledger := by
  unfold Books.run Call.run
  split
  · rfl
  · cases hfind : c.find b.ledger.payments with
    | none => rfl
    | some payment =>
        cases hsettle : c.settle payment (b.ledger.tenants c.tenant) with
        | none => simp [hsettle]
        | some out => simp [hsettle, Books.commit]

/-- A transaction that finds nothing to claim changes nothing; one that claims its payment commits. -/
inductive Books.Ran (b : Books) (c : Call) : Bool → Books → Prop
  | missed (h : ∀ r ∈ b.ledger.payments, c.claimable r = false) : Books.Ran b c false b
  | claimed (r : Payment) (out : Outcome) (hr : r ∈ b.ledger.payments) (hclaim : c.claimable r = true)
      (hout : c.settle r (b.ledger.tenants c.tenant) = some out) : Books.Ran b c true (b.commit c out)

theorem Books.run_spec {b b' : Books} {c : Call} {claimed : Bool}
    (hids : (b.ledger.payments.map Payment.id).Nodup) (h : b.run c = some (claimed, b')) :
    Books.Ran b c claimed b' := by
  unfold Books.run at h
  split at h
  · rename_i hcount
    obtain ⟨rfl, rfl⟩ := Prod.mk.inj (Option.some.inj h)
    refine Books.Ran.missed fun r hr => ?_
    by_contra hclaim
    exact absurd (matchCount_pos_of_mem hr (by simpa using hclaim)) (by omega)
  · rename_i hcount
    obtain ⟨r, hr, hclaim⟩ := exists_of_matchCount_pos (Nat.pos_of_ne_zero hcount)
    simp only [Call.find_eq hids hr hclaim, Option.bind_eq_bind, Option.bind_some, c.settle_claim,
      Option.bind_eq_some_iff] at h
    obtain ⟨out, hout, h⟩ := h
    obtain ⟨rfl, rfl⟩ := Prod.mk.inj (Option.some.inj h)
    exact Books.Ran.claimed r out hr hclaim hout

theorem Books.Ran.step {b b' : Books} {c : Call} {claimed : Bool} (h : Books.Ran b c claimed b') :
    Books.Step b b' := by
  cases h with
  | missed h => exact Books.Step.stay b
  | claimed r out hr hclaim hout => exact Books.Step.call b c out r hr hclaim hout

/-! ## What a payment's stamps say -/

/-- The stamps of a payment and its status explain each other, and it is stamped paid exactly when it
was activated. -/
structure Stamps (grants : List Grant) (r : Payment) : Prop where
  pending : r.status = .pending → r.paidAt = none ∧ r.cancelledAt = none
  paid : r.status = .paid → r.paidAt ≠ none ∧ r.cancelledAt = none
  cancelled : r.status = .cancelled → r.cancelledAt ≠ none
  activated : r.paidAt ≠ none ↔ ∃ g ∈ grants, g.payment = r.id

/-- Ledger and history agree, stamps and status too, and no provider transaction belongs to two
payments. -/
structure Sound (b : Books) : Prop extends Granted b where
  stamps : ∀ r ∈ b.ledger.payments, Stamps b.grants r
  txns : ∀ r ∈ b.ledger.payments, ∀ r' ∈ b.ledger.payments, r.provider = r'.provider →
    r.providerTxnId ≠ none → r.providerTxnId = r'.providerTxnId → r.id = r'.id

/-- A set of purchases as `checkout` leaves them. -/
structure Fresh (payments : List Payment) : Prop where
  ids : (payments.map Payment.id).Nodup
  months : ∀ r ∈ payments, 1 ≤ r.months
  rows : ∀ r ∈ payments,
    r = newPayment r.id r.tenantId r.plan r.provider r.amountTiyin r.months r.createdAt

/-- The later state of a payment: who it is for and what it costs stay, and so does what was once
recorded. -/
structure Later (r r' : Payment) : Prop where
  id : r'.id = r.id
  tenantId : r'.tenantId = r.tenantId
  provider : r'.provider = r.provider
  amountTiyin : r'.amountTiyin = r.amountTiyin
  paidAt : ∀ t, r.paidAt = some t → r'.paidAt = some t
  bound : r.providerTxnId ≠ none → r'.providerTxnId ≠ none
  started : r.status ≠ .pending → r'.status ≠ .pending
  cancelled : r.status = .cancelled → r'.status = .cancelled ∧ r'.paidAt = r.paidAt ∧
    r'.cancelledAt = r.cancelledAt ∧ r'.cancelReason = r.cancelReason

theorem Later.refl (r : Payment) : Later r r :=
  ⟨rfl, rfl, rfl, rfl, fun _ h => h, fun h => h, fun h => h, fun h => ⟨h, rfl, rfl, rfl⟩⟩

theorem Later.trans {r r' r'' : Payment} (h : Later r r') (h' : Later r' r'') : Later r r'' where
  id := h'.id.trans h.id
  tenantId := h'.tenantId.trans h.tenantId
  provider := h'.provider.trans h.provider
  amountTiyin := h'.amountTiyin.trans h.amountTiyin
  paidAt t ht := h'.paidAt t (h.paidAt t ht)
  bound hb := h'.bound (h.bound hb)
  started hs := h'.started (h.started hs)
  cancelled hc := by
    obtain ⟨h1, h2, h3, h4⟩ := h.cancelled hc
    obtain ⟨h1', h2', h3', h4'⟩ := h'.cancelled h1
    exact ⟨h1', h2'.trans h2, h3'.trans h3, h4'.trans h4⟩

/-- The notes the adapters keep on a payment. -/
def SameNotes (r r' : Payment) : Prop :=
  r'.providerTxnId = r.providerTxnId ∧ r'.providerCreatedAt = r.providerCreatedAt ∧
    r'.clickPrepareId = r.clickPrepareId

theorem Call.written_notes (c : Call) (out : Outcome) (r : Payment) : SameNotes r (c.written out r) := by
  cases c <;> cases out <;> exact ⟨rfl, rfl, rfl⟩

@[simp] theorem Call.written_provider (c : Call) (out : Outcome) (r : Payment) :
    (c.written out r).provider = r.provider := by
  cases c <;> cases out <;> rfl

/-! ## One step -/

/-- What an event writes, and what it found. -/
inductive Event.Wrote (L : Ledger) : Event → Ledger → Prop
  | checkout (id tenant : Nat) (plan : BillingPlan) (provider : PaymentProvider) (amount months now : Int)
      (hfresh : ∀ r ∈ L.payments, r.id ≠ id) (hmonths : 1 ≤ months) :
      Event.Wrote L (.checkout id tenant plan provider months now)
        { L with payments := L.payments ++ [newPayment id tenant plan provider amount months now] }
  | providerTxn (id : Nat) (txn : String) (createdAt : Int) (payment : Payment)
      (hmem : payment ∈ L.payments) (hid : payment.id = id)
      (hfree : ∀ r ∈ L.payments, r.id ≠ id → r.provider = payment.provider →
        r.providerTxnId ≠ some txn) :
      Event.Wrote L (.attachProviderTxn id txn createdAt)
        { L with
          payments := updateMany (fun r => r.id == id)
            (fun r => { r with providerTxnId := some txn, providerCreatedAt := some createdAt })
            L.payments }
  | clickPrepareId (id : Nat) (prepareId : Int) (payment : Payment) (hmem : payment ∈ L.payments)
      (hid : payment.id = id) :
      Event.Wrote L (.attachClickPrepareId id prepareId)
        { L with
          payments := updateMany (fun r => r.id == id)
            (fun r => { r with clickPrepareId := some prepareId }) L.payments }

theorem Event.apply_wrote {L L' : Ledger} {e : Event} (h : e.apply L = some L') : Event.Wrote L e L' := by
  cases e with
  | checkout id tenant plan provider months now =>
      simp only [Event.apply] at h
      split at h
      · cases h
      · rename_i amount hprice
        split at h
        · cases h
        · rename_i hfresh
          obtain rfl := Option.some.inj h
          have hmonths : 1 ≤ months := by
            unfold priceTiyin at hprice
            split at hprice
            · cases hprice
            · omega
          refine Event.Wrote.checkout id tenant plan provider amount months now (fun r hr hid => ?_) hmonths
          exact hfresh (List.any_eq_true.mpr ⟨r, hr, by simpa using hid⟩)
  | attachProviderTxn id txn createdAt =>
      simp only [Event.apply] at h
      split at h
      · cases h
      · rename_i payment hfind
        split at h
        · cases h
        · rename_i hfree
          obtain rfl := Option.some.inj h
          refine Event.Wrote.providerTxn id txn createdAt payment (List.mem_of_find?_eq_some hfind)
            (by simpa using List.find?_some hfind) (fun r hr hne hprov htxn => hfree ?_)
          exact List.any_eq_true.mpr ⟨r, hr, by simp [hne, hprov, htxn]⟩
  | attachClickPrepareId id prepareId =>
      simp only [Event.apply] at h
      split at h
      · rename_i hany
        obtain rfl := Option.some.inj h
        obtain ⟨payment, hmem, hid⟩ := List.any_eq_true.mp hany
        exact Event.Wrote.clickPrepareId id prepareId payment hmem (by simpa using hid)
      · cases h

/-- A payment claimed by a call keeps what it had recorded. -/
theorem Later.written {grants : List Grant} {c : Call} {r : Payment} {tenant : Tenant} {out : Outcome}
    (hs : Stamps grants r) (hclaim : c.claimable r = true) (hout : c.settle r tenant = some out) :
    Later r (c.written out r) := by
  obtain ⟨-, -, hstatus⟩ := Call.claimable_iff.mp hclaim
  cases c with
  | activate t p now =>
      obtain ⟨start, stop, -, rfl⟩ := Call.settle_activate hout
      have hpending : r.status = .pending := by simpa [Call.claims] using hstatus
      refine ⟨rfl, rfl, rfl, rfl, fun u hu => ?_, fun h => h, fun h => absurd hpending h, fun h => ?_⟩
      · rw [(hs.pending hpending).1] at hu
        cases hu
      · rw [hpending] at h
        cases h
  | cancel t p reason now =>
      have hopen : r.status ≠ .cancelled := by
        intro h
        simp [Call.claims, h] at hstatus
      rcases Call.settle_cancel hout with rfl | ⟨_, _, -, -, -, rfl⟩
      · exact ⟨rfl, rfl, rfl, rfl, fun _ h => h, fun h => h, fun _ h => (by cases h),
          fun h => absurd h hopen⟩
      · exact ⟨rfl, rfl, rfl, rfl, fun _ h => h, fun h => h, fun _ h => (by cases h),
          fun h => absurd h hopen⟩

/-- **What a payment has once recorded stays**, through every call and every event. -/
theorem later_step {b b' : Books} (hb : Sound b) (h : Books.Step b b') :
    ∀ r ∈ b.ledger.payments, ∃ r' ∈ b'.ledger.payments, Later r r' := by
  intro r hr
  cases h with
  | stay => exact ⟨r, hr, Later.refl r⟩
  | call c out q hq hclaim hout =>
      by_cases hrq : r.id = q.id
      · obtain rfl := eq_of_key_eq hb.ids hr hq hrq
        exact ⟨c.written out r, (Call.mem_commit hb.ids hr hclaim).mpr (Or.inl rfl),
          Later.written (hb.stamps r hr) hclaim hout⟩
      · exact ⟨r, (Call.mem_commit hb.ids hq hclaim).mpr (Or.inr ⟨hr, hrq⟩), Later.refl r⟩
  | event e L h =>
      cases Event.apply_wrote h with
      | checkout id tenant plan provider amount months now hfresh hmonths =>
          exact ⟨r, List.mem_append_left _ hr, Later.refl r⟩
      | providerTxn id txn createdAt payment hmem hid hfree =>
          refine ⟨_, mem_updateMany.mpr ⟨r, hr, rfl⟩, ?_⟩
          split
          · exact ⟨rfl, rfl, rfl, rfl, fun _ h => h, fun _ h => (by cases h), fun h => h,
              fun h => ⟨h, rfl, rfl, rfl⟩⟩
          · exact Later.refl r
      | clickPrepareId id prepareId payment hmem hid =>
          refine ⟨_, mem_updateMany.mpr ⟨r, hr, rfl⟩, ?_⟩
          split
          · exact ⟨rfl, rfl, rfl, rfl, fun _ h => h, fun h => h, fun h => h, fun h => ⟨h, rfl, rfl, rfl⟩⟩
          · exact Later.refl r

private theorem stamps_written {b : Books} {c : Call} {r : Payment} {out : Outcome}
    (hs : Stamps b.grants r) (hclaim : c.claimable r = true)
    (hout : c.settle r (b.ledger.tenants c.tenant) = some out) :
    Stamps (b.commit c out).grants (c.written out r) := by
  obtain ⟨hid, -, hstatus⟩ := Call.claimable_iff.mp hclaim
  cases c with
  | activate t p now =>
      obtain ⟨start, stop, -, rfl⟩ := Call.settle_activate hout
      have hpending : r.status = .pending := by simpa [Call.claims] using hstatus
      refine ⟨fun h => (by cases h), fun _ => ⟨by simp [Call.written, Call.claim], ?_⟩,
        fun h => (by cases h), fun _ => ⟨_, List.mem_cons_self, ?_⟩, fun _ => ?_⟩
      · exact (hs.pending hpending).2
      · exact hid.symm
      · simp [Call.written, Call.claim]
  | cancel t p reason now =>
      have hsame : ∀ u, Stamps (b.commit (.cancel t p reason now) (.reversed u)).grants
          ((Call.cancel t p reason now).written (.reversed u) r) := fun u =>
        ⟨fun h => (by cases h), fun h => (by cases h), fun _ => by simp [Call.written, Call.claim],
          hs.activated⟩
      rcases Call.settle_cancel hout with rfl | ⟨start, stop, -, -, -, rfl⟩
      · exact hsame none
      · exact hsame (some start)

/-- Another payment's call leaves the stamps of a payment explained. -/
private theorem stamps_other {b : Books} {c : Call} {r : Payment} {out : Outcome}
    (hs : Stamps b.grants r) (hne : r.id ≠ c.paymentId) : Stamps (b.commit c out).grants r := by
  refine ⟨hs.pending, hs.paid, hs.cancelled, hs.activated.trans ?_⟩
  cases out with
  | granted start stop =>
      constructor
      · rintro ⟨g, hg, hgr⟩
        exact ⟨g, List.mem_cons_of_mem _ hg, hgr⟩
      · rintro ⟨g, hg, hgr⟩
        rcases List.mem_cons.mp hg with rfl | hg
        · exact absurd hgr.symm hne
        · exact ⟨g, hg, hgr⟩
  | reversed u => exact Iff.rfl

/-- Stamps that are the same explain the same status. -/
private theorem Stamps.same {grants : List Grant} {r r' : Payment} (h : Stamps grants r)
    (hid : r'.id = r.id) (hstatus : r'.status = r.status) (hpaid : r'.paidAt = r.paidAt)
    (hcancel : r'.cancelledAt = r.cancelledAt) : Stamps grants r' where
  pending := by
    rw [hstatus, hpaid, hcancel]
    exact h.pending
  paid := by
    rw [hstatus, hpaid, hcancel]
    exact h.paid
  cancelled := by
    rw [hstatus, hcancel]
    exact h.cancelled
  activated := by
    rw [hpaid, hid]
    exact h.activated

/-- No provider's transaction is noted for two payments. -/
private def OneNote (payments : List Payment) : Prop :=
  ∀ r ∈ payments, ∀ r' ∈ payments, r.provider = r'.provider → r.providerTxnId ≠ none →
    r.providerTxnId = r'.providerTxnId → r.id = r'.id

/-- A table whose rows have the transactions they had before notes none twice. -/
private theorem OneNote.same {payments payments' : List Payment} (h : OneNote payments)
    (hback : ∀ q ∈ payments', ∃ q₀ ∈ payments,
      q.id = q₀.id ∧ q.provider = q₀.provider ∧ q.providerTxnId = q₀.providerTxnId) :
    OneNote payments' := by
  intro q hq q' hq' hprov hnone htxn
  obtain ⟨q₀, hq₀, hid, hprov₀, htxn₀⟩ := hback q hq
  obtain ⟨q₁, hq₁, hid', hprov₁, htxn₁⟩ := hback q' hq'
  rw [hid, hid']
  rw [hprov₀, hprov₁] at hprov
  rw [htxn₀] at hnone htxn
  rw [htxn₁] at htxn
  exact h q₀ hq₀ q₁ hq₁ hprov hnone htxn

private theorem sound_call {b : Books} {c : Call} {out : Outcome} {r : Payment} (hb : Sound b)
    (hr : r ∈ b.ledger.payments) (hclaim : c.claimable r = true)
    (hout : c.settle r (b.ledger.tenants c.tenant) = some out) : Sound (b.commit c out) := by
  have hmem : ∀ q, q ∈ (b.commit c out).ledger.payments ↔
      q = c.written out r ∨ (q ∈ b.ledger.payments ∧ q.id ≠ r.id) :=
    fun q => Call.mem_commit hb.ids hr hclaim
  have hnotes : OneNote (b.commit c out).ledger.payments := by
    refine OneNote.same hb.txns fun q hq => ?_
    rcases (hmem q).mp hq with rfl | ⟨hold, -⟩
    · exact ⟨r, hr, by simp, by simp, (Call.written_notes c out r).1⟩
    · exact ⟨q, hold, rfl, rfl, rfl⟩
  refine { granted_step hb.toGranted (Books.Step.call b c out r hr hclaim hout) with
    stamps := fun q hq => ?_, txns := hnotes }
  rcases (hmem q).mp hq with rfl | ⟨hold, hne⟩
  · exact stamps_written (hb.stamps r hr) hclaim hout
  · rw [(Call.claimable_iff.mp hclaim).1] at hne
    exact stamps_other (hb.stamps q hold) hne

/-- A new order has no transaction, and nobody was granted anything for it. -/
private theorem sound_checkout {b : Books} (payment : Payment) (hb : Sound b)
    (hfresh : ∀ r ∈ b.ledger.payments, r.id ≠ payment.id) (hpending : payment.status = .pending)
    (hpaid : payment.paidAt = none) (hcancel : payment.cancelledAt = none)
    (hnote : payment.providerTxnId = none) :
    (∀ q ∈ b.ledger.payments ++ [payment], Stamps b.grants q) ∧
      OneNote (b.ledger.payments ++ [payment]) := by
  constructor
  · intro q hq
    rcases List.mem_append.mp hq with hold | hnew
    · exact hb.stamps q hold
    · obtain rfl := List.mem_singleton.mp hnew
      refine ⟨fun _ => ⟨hpaid, hcancel⟩, fun h => ?_, fun h => ?_, fun h => absurd hpaid h, ?_⟩
      · rw [hpending] at h
        cases h
      · rw [hpending] at h
        cases h
      · rintro ⟨g, hg, hgid⟩
        obtain ⟨-, r, hr, hrid, -⟩ := hb.known g hg
        exact absurd (hrid.trans hgid) (hfresh r hr)
  · intro q hq q' hq' hprov hnone htxn
    rcases List.mem_append.mp hq with hold | hnew
    · rcases List.mem_append.mp hq' with hold' | hnew'
      · exact hb.txns q hold q' hold' hprov hnone htxn
      · obtain rfl := List.mem_singleton.mp hnew'
        exact absurd (htxn.trans hnote) hnone
    · obtain rfl := List.mem_singleton.mp hnew
      exact absurd hnote hnone

/-- A transaction is noted only where no other payment of the provider has it. -/
private theorem oneNote_providerTxn {payments : List Payment} {payment : Payment} {txn : String}
    {createdAt : Int} (h : OneNote payments) (hids : (payments.map Payment.id).Nodup)
    (hmem : payment ∈ payments)
    (hfree : ∀ r ∈ payments, r.id ≠ payment.id → r.provider = payment.provider →
      r.providerTxnId ≠ some txn) :
    OneNote (updateMany (fun r => r.id == payment.id)
      (fun r => { r with providerTxnId := some txn, providerCreatedAt := some createdAt }) payments) := by
  intro q hq q' hq' hprov hnone htxn
  obtain ⟨q₀, hq₀, rfl⟩ := mem_updateMany.mp hq
  obtain ⟨q₁, hq₁, rfl⟩ := mem_updateMany.mp hq'
  have hclash : ∀ r r' : Payment, r ∈ payments → r' ∈ payments → r.id = payment.id →
      r'.id ≠ payment.id → r.provider = r'.provider → r'.providerTxnId ≠ some txn := by
    intro r r' hr hr' hrid hne hp
    obtain rfl : r = payment := eq_of_key_eq hids hr hmem hrid
    exact hfree r' hr' hne hp.symm
  by_cases h₀ : q₀.id = payment.id <;> by_cases h₁ : q₁.id = payment.id
  · simp [h₀, h₁]
  · simp only [h₀, beq_self_eq_true, if_true, beq_eq_false_iff_ne.mpr h₁, Bool.false_eq_true,
      if_false] at hprov htxn
    exact absurd htxn.symm (hclash q₀ q₁ hq₀ hq₁ h₀ h₁ hprov)
  · simp only [h₁, beq_self_eq_true, if_true, beq_eq_false_iff_ne.mpr h₀, Bool.false_eq_true,
      if_false] at hprov htxn
    exact absurd htxn (hclash q₁ q₀ hq₁ hq₀ h₁ h₀ hprov.symm)
  · simp only [beq_eq_false_iff_ne.mpr h₀, beq_eq_false_iff_ne.mpr h₁, Bool.false_eq_true,
      if_false] at hprov hnone htxn ⊢
    exact h q₀ hq₀ q₁ hq₁ hprov hnone htxn

private theorem sound_event {b : Books} {e : Event} {L : Ledger} (hb : Sound b)
    (h : e.apply b.ledger = some L) : Sound { b with ledger := L } := by
  have hgranted := granted_step hb.toGranted (Books.Step.event b e L h)
  cases Event.apply_wrote h with
  | checkout id tenant plan provider amount months now hfresh hmonths =>
      obtain ⟨hstamps, hnotes⟩ := sound_checkout
        (newPayment id tenant plan provider amount months now) hb hfresh rfl rfl rfl rfl
      exact { hgranted with stamps := hstamps, txns := hnotes }
  | providerTxn id txn createdAt payment hmem hid hfree =>
      subst hid
      refine { hgranted with
        stamps := fun q hq => ?_, txns := oneNote_providerTxn hb.txns hb.ids hmem hfree }
      obtain ⟨q₀, hq₀, rfl⟩ := mem_updateMany.mp hq
      split
      · exact (hb.stamps q₀ hq₀).same rfl rfl rfl rfl
      · exact hb.stamps q₀ hq₀
  | clickPrepareId id prepareId payment hmem hid =>
      refine { hgranted with
        stamps := fun q hq => ?_, txns := OneNote.same hb.txns fun q hq => ?_ }
      · obtain ⟨q₀, hq₀, rfl⟩ := mem_updateMany.mp hq
        split
        · exact (hb.stamps q₀ hq₀).same rfl rfl rfl rfl
        · exact hb.stamps q₀ hq₀
      · obtain ⟨q₀, hq₀, rfl⟩ := mem_updateMany.mp hq
        refine ⟨q₀, hq₀, ?_⟩
        split <;> exact ⟨rfl, rfl, rfl⟩

/-- **The stamps of every payment go on explaining its status.** -/
theorem sound_step {b b' : Books} (hb : Sound b) (h : Books.Step b b') : Sound b' := by
  cases h with
  | stay => exact hb
  | call c out r hr hclaim hout => exact sound_call hb hr hclaim hout
  | event e L h => exact sound_event hb h

theorem Fresh.unsettled {payments : List Payment} (h : Fresh payments) : Unsettled payments where
  ids := h.ids
  pending r hr := by
    have hnew := h.rows r hr
    refine ⟨?_, ?_, ?_, h.months r hr⟩ <;> (rw [hnew]; rfl)

theorem Fresh.sound {payments : List Payment} (h : Fresh payments) (tenants : Nat → Tenant) :
    Sound (openSystem tenants payments).shared.books where
  toGranted := h.unsettled.granted tenants
  stamps r hr := by
    rw [h.rows r hr]
    exact ⟨fun _ => ⟨rfl, rfl⟩, fun h => (by cases h), fun h => (by cases h),
      ⟨fun h => absurd rfl h, fun ⟨_, hg, _⟩ => (List.not_mem_nil hg).elim⟩⟩
  txns r hr r' hr' _ hnone _ := by
    rw [h.rows r hr] at hnone
    exact absurd rfl hnone

/-- The transaction of a call keeps the notes of every payment. -/
theorem Books.Ran.notes {b b' : Books} {c : Call} {claimed : Bool} (hb : Granted b)
    (h : Books.Ran b c claimed b') : ∀ r' ∈ b'.ledger.payments, ∃ r ∈ b.ledger.payments,
      r'.id = r.id ∧ r'.provider = r.provider ∧ SameNotes r r' := by
  intro r' hr'
  cases h with
  | missed h => exact ⟨r', hr', rfl, rfl, rfl, rfl, rfl⟩
  | claimed r out hr hclaim hout =>
      rcases (Call.mem_commit hb.ids hr hclaim).mp hr' with rfl | ⟨hold, -⟩
      · exact ⟨r, hr, by simp, by simp, Call.written_notes c out r⟩
      · exact ⟨r', hold, rfl, rfl, rfl, rfl, rfl⟩

/-- The transaction of a call leaves every payment in a later state with the same notes. -/
theorem Books.Ran.later {b b' : Books} {c : Call} {claimed : Bool} (hb : Sound b)
    (h : Books.Ran b c claimed b') : ∀ r ∈ b.ledger.payments, ∃ r' ∈ b'.ledger.payments,
      Later r r' ∧ SameNotes r r' := by
  intro r hr
  cases h with
  | missed h => exact ⟨r, hr, Later.refl r, rfl, rfl, rfl⟩
  | claimed q out hq hclaim hout =>
      by_cases hrq : r.id = q.id
      · obtain rfl := eq_of_key_eq hb.ids hr hq hrq
        exact ⟨c.written out r, (Call.mem_commit hb.ids hr hclaim).mpr (Or.inl rfl),
          Later.written (hb.stamps r hr) hclaim hout, Call.written_notes c out r⟩
      · exact ⟨r, (Call.mem_commit hb.ids hq hclaim).mpr (Or.inr ⟨hr, hrq⟩), Later.refl r, rfl, rfl, rfl⟩

/-- What `activate` leaves of a payment of the workspace: the instant it is stamped with is this call's
exactly where it was pending. -/
theorem Books.Ran.activate_row {b b' : Books} {t p : Nat} {now : Int} {claimed : Bool} (hb : Sound b)
    (h : Books.Ran b (.activate t p now) claimed b') {r : Payment} (hr : r ∈ b.ledger.payments)
    (hid : r.id = p) (htenant : r.tenantId = t) :
    ∃ r' ∈ b'.ledger.payments, r'.id = p ∧
      r'.paidAt = (if r.status = .pending then some now else r.paidAt) ∧
      r'.status = (if r.status = .pending then .paid else r.status) ∧
      r'.provider = r.provider ∧ r'.providerTxnId = r.providerTxnId := by
  cases h with
  | missed hmiss =>
      have hopen : r.status ≠ .pending := by
        intro hpending
        have := hmiss r hr
        simp [Call.claimable, Call.paymentId, Call.tenant, Call.claims, hid, htenant, hpending] at this
      exact ⟨r, hr, hid, by rw [if_neg hopen], by rw [if_neg hopen], rfl, rfl⟩
  | claimed q out hq hclaim hout =>
      obtain ⟨hqid, -, hstatus⟩ := Call.claimable_iff.mp hclaim
      obtain rfl := eq_of_key_eq hb.ids hq hr (hqid.trans hid.symm)
      have hpending : q.status = .pending := by simpa [Call.claims] using hstatus
      obtain ⟨start, stop, -, rfl⟩ := Call.settle_activate hout
      refine ⟨_, (Call.mem_commit hb.ids hq hclaim).mpr (Or.inl rfl), hid, ?_, ?_, rfl, rfl⟩
      · rw [if_pos hpending]
        rfl
      · rw [if_pos hpending]
        rfl

/-- What `cancel` leaves of a payment of the workspace: cancelled, at this call's instant unless it was
cancelled before, and stamped paid as it was. -/
theorem Books.Ran.cancel_row {b b' : Books} {t p : Nat} {reason : Option Int} {now : Int} {claimed : Bool}
    (hb : Sound b) (h : Books.Ran b (.cancel t p reason now) claimed b') {r : Payment}
    (hr : r ∈ b.ledger.payments) (hid : r.id = p) (htenant : r.tenantId = t) :
    ∃ r' ∈ b'.ledger.payments, r'.id = p ∧ r'.status = .cancelled ∧ r'.paidAt = r.paidAt ∧
      r'.cancelledAt = (if r.status = .cancelled then r.cancelledAt else some now) ∧
      r'.provider = r.provider ∧ r'.providerTxnId = r.providerTxnId := by
  cases h with
  | missed hmiss =>
      have hcancelled : r.status = .cancelled := by
        have := hmiss r hr
        cases hstatus : r.status with
        | cancelled => rfl
        | _ =>
            simp [Call.claimable, Call.paymentId, Call.tenant, Call.claims, hid, htenant, hstatus] at this
      exact ⟨r, hr, hid, hcancelled, rfl, by rw [if_pos hcancelled], rfl, rfl⟩
  | claimed q out hq hclaim hout =>
      obtain ⟨hqid, -, hstatus⟩ := Call.claimable_iff.mp hclaim
      obtain rfl := eq_of_key_eq hb.ids hq hr (hqid.trans hid.symm)
      have hopen : q.status ≠ .cancelled := by
        intro h
        simp [Call.claims, h] at hstatus
      refine ⟨_, (Call.mem_commit hb.ids hq hclaim).mpr (Or.inl rfl), ?_⟩
      rw [if_neg hopen]
      rcases Call.settle_cancel hout with rfl | ⟨_, _, -, -, -, rfl⟩
      · exact ⟨hid, rfl, rfl, rfl, rfl, rfl⟩
      · exact ⟨hid, rfl, rfl, rfl, rfl, rfl⟩

/-- Where an update by identifier writes: on the one payment named, and nowhere else. -/
private theorem mem_update_id {rows : List Payment} {id : Nat} {set : Payment → Payment} {r' : Payment} :
    r' ∈ updateMany (fun r => r.id == id) set rows ↔
      (∃ r ∈ rows, r.id = id ∧ r' = set r) ∨ (r' ∈ rows ∧ r'.id ≠ id) := by
  rw [mem_updateMany]
  constructor
  · rintro ⟨r, hr, rfl⟩
    by_cases hrid : r.id = id
    · exact Or.inl ⟨r, hr, hrid, by simp [hrid]⟩
    · rw [if_neg (by simpa using hrid)]
      exact Or.inr ⟨hr, hrid⟩
  · rintro (⟨r, hr, hrid, rfl⟩ | ⟨hr, hrid⟩)
    · exact ⟨r, hr, by simp [hrid]⟩
    · exact ⟨r', hr, by rw [if_neg (by simpa using hrid)]⟩

theorem mem_attachProviderTxn {L L' : Ledger} {id : Nat} {txn : String} {createdAt : Int}
    (h : (Event.attachProviderTxn id txn createdAt).apply L = some L') {r' : Payment} :
    r' ∈ L'.payments ↔
      (∃ r ∈ L.payments, r.id = id ∧
        r' = { r with providerTxnId := some txn, providerCreatedAt := some createdAt }) ∨
      (r' ∈ L.payments ∧ r'.id ≠ id) := by
  cases Event.apply_wrote h with
  | providerTxn id txn createdAt payment hmem hid hfree => exact mem_update_id

theorem mem_attachClickPrepareId {L L' : Ledger} {id : Nat} {prepareId : Int}
    (h : (Event.attachClickPrepareId id prepareId).apply L = some L') {r' : Payment} :
    r' ∈ L'.payments ↔
      (∃ r ∈ L.payments, r.id = id ∧ r' = { r with clickPrepareId := some prepareId }) ∨
      (r' ∈ L.payments ∧ r'.id ≠ id) := by
  cases Event.apply_wrote h with
  | clickPrepareId id prepareId payment hmem hid => exact mem_update_id

/-! ## The surroundings of one adapter -/

/-- Whether a payment is one of this provider's. -/
def Ledger.owns (L : Ledger) (provider : PaymentProvider) (id : Nat) : Bool :=
  L.payments.any fun r => r.id == id && r.provider == provider

/-- The payment an event writes. -/
def Event.paymentId : Event → Nat
  | .checkout id .. => id
  | .attachProviderTxn id .. => id
  | .attachClickPrepareId id .. => id

/-- What happens to the ledger beside the adapter of one provider: purchases, and whatever the other
provider's adapter does to its own payments. -/
inductive Outside
  | call (c : Call)
  | event (e : Event)

def Books.outside (provider : PaymentProvider) (o : Outside) (b : Books) : Option Books :=
  match o with
  | .call c => if b.ledger.owns provider c.paymentId then none else (b.run c).map Prod.snd
  | .event e =>
      if b.ledger.owns provider e.paymentId then none
      else (e.apply b.ledger).map fun L => { b with ledger := L }

theorem owns_eq_false_iff {L : Ledger} {provider : PaymentProvider} {id : Nat} :
    L.owns provider id = false ↔ ∀ r ∈ L.payments, r.provider = provider → r.id ≠ id := by
  simp only [Ledger.owns, List.any_eq_false, Bool.and_eq_true, beq_iff_eq, not_and]
  exact ⟨fun h r hr hp hid => h r hr hid hp, fun h r hr hid hp => h r hr hp hid⟩

theorem Books.outside_step {b b' : Books} {provider : PaymentProvider} {o : Outside} (hb : Sound b)
    (h : b.outside provider o = some b') : Books.Step b b' := by
  cases o with
  | call c =>
      simp only [Books.outside] at h
      split at h
      · cases h
      · obtain ⟨⟨claimed, b₁⟩, hrun, rfl⟩ := Option.map_eq_some_iff.mp h
        exact (Books.run_spec hb.ids hrun).step
  | event e =>
      simp only [Books.outside] at h
      split at h
      · cases h
      · obtain ⟨L, hL, rfl⟩ := Option.map_eq_some_iff.mp h
        exact Books.Step.event b e L hL

/-- A payment that was just opened. -/
def Opened (L : Ledger) (r : Payment) : Prop :=
  r = newPayment r.id r.tenantId r.plan r.provider r.amountTiyin r.months r.createdAt ∧
    ∀ q ∈ L.payments, q.id ≠ r.id

/-- Where a call claims none of the payments of a provider, it leaves them as they are. -/
theorem mem_commit_iff_of_ne {b : Books} {c : Call} {out : Outcome} {r q : Payment} (hb : Granted b)
    (hr : r ∈ b.ledger.payments) (hclaim : c.claimable r = true) (hne : q.id ≠ c.paymentId) :
    q ∈ (b.commit c out).ledger.payments ↔ q ∈ b.ledger.payments := by
  have hid := (Call.claimable_iff.mp hclaim).1
  have hmem : q ∈ (b.commit c out).ledger.payments ↔
      q = c.written out r ∨ (q ∈ b.ledger.payments ∧ q.id ≠ r.id) := Call.mem_commit hb.ids hr hclaim
  rw [hmem]
  constructor
  · rintro (rfl | ⟨hq, -⟩)
    · exact absurd ((Call.written_id c out r).trans hid) hne
    · exact hq
  · intro hq
    exact Or.inr ⟨hq, by rw [hid]; exact hne⟩

/-- An event leaves the payments it does not name as they are. -/
theorem mem_event_iff_of_ne {L L' : Ledger} {e : Event} {q : Payment} (h : e.apply L = some L')
    (hne : q.id ≠ e.paymentId) : q ∈ L'.payments ↔ q ∈ L.payments := by
  have hupdate : ∀ (id : Nat) (set : Payment → Payment), (∀ r, (set r).id = r.id) → q.id ≠ id →
      (q ∈ updateMany (fun r => r.id == id) set L.payments ↔ q ∈ L.payments) := by
    intro id set hset hid
    rw [mem_updateMany]
    constructor
    · rintro ⟨r, hr, rfl⟩
      by_cases hrid : r.id = id
      · simp only [hrid, beq_self_eq_true, if_true] at hid
        exact absurd ((hset r).trans hrid) hid
      · rw [if_neg (by simpa using hrid)]
        exact hr
    · intro hq
      exact ⟨q, hq, by rw [if_neg (by simpa using hid)]⟩
  cases Event.apply_wrote h with
  | checkout id tenant plan provider amount months now hfresh hmonths =>
      simp only [List.mem_append, List.mem_singleton, or_iff_left_iff_imp]
      rintro rfl
      exact absurd rfl hne
  | providerTxn id txn createdAt payment hmem hid hfree => exact hupdate id _ (fun _ => rfl) hne
  | clickPrepareId id prepareId payment hmem hid => exact hupdate id _ (fun _ => rfl) hne

/-- An event on a payment of another provider, seen from the payments it may have written. -/
private theorem opened_of_event {L L' : Ledger} {e : Event} {r : Payment} (h : e.apply L = some L')
    (howns : L.owns r.provider e.paymentId = false) (hr : r ∈ L'.payments) (hid : r.id = e.paymentId) :
    Opened L r := by
  have howns' := owns_eq_false_iff.mp howns
  have hupdate : ∀ (id : Nat) (set : Payment → Payment),
      (∀ q, (set q).provider = q.provider ∧ (set q).id = q.id) → e.paymentId = id →
      r ∉ updateMany (fun q => q.id == id) set L.payments := by
    intro id set hset he hmem
    obtain ⟨q, hq, hqr⟩ := mem_updateMany.mp hmem
    have hsame : r.provider = q.provider ∧ r.id = q.id := by
      rw [← hqr]
      split
      · exact hset q
      · exact ⟨rfl, rfl⟩
    exact howns' q hq hsame.1.symm (hsame.2.symm.trans hid)
  cases Event.apply_wrote h with
  | checkout id tenant plan provider amount months now hfresh hmonths =>
      rcases List.mem_append.mp hr with hold | hnew
      · exact absurd hid (hfresh r hold)
      · obtain rfl := List.mem_singleton.mp hnew
        exact ⟨rfl, hfresh⟩
  | providerTxn id txn createdAt payment hmem _ hfree =>
      exact absurd hr (hupdate id _ (fun _ => ⟨rfl, rfl⟩) rfl)
  | clickPrepareId id prepareId payment hmem _ =>
      exact absurd hr (hupdate id _ (fun _ => ⟨rfl, rfl⟩) rfl)

/-- **The other adapter leaves this provider's payments alone**; only a purchase adds one. -/
theorem mem_outside {b b' : Books} {provider : PaymentProvider} {o : Outside} {r : Payment}
    (hb : Sound b) (h : b.outside provider o = some b') (hprov : r.provider = provider) :
    (r ∈ b.ledger.payments → r ∈ b'.ledger.payments) ∧
      (r ∈ b'.ledger.payments → r ∈ b.ledger.payments ∨ Opened b.ledger r) := by
  subst hprov
  cases o with
  | call c =>
      simp only [Books.outside] at h
      split at h
      · cases h
      · rename_i howns
        have howns' := owns_eq_false_iff.mp (by simpa using howns)
        obtain ⟨⟨claimed, b₁⟩, hrun, rfl⟩ := Option.map_eq_some_iff.mp h
        cases Books.run_spec hb.ids hrun with
        | missed hmiss => exact ⟨id, Or.inl⟩
        | claimed q out hq hclaim hout =>
            refine ⟨fun hr => ?_, fun hr => Or.inl ?_⟩
            · exact (mem_commit_iff_of_ne hb.toGranted hq hclaim (howns' r hr rfl)).mpr hr
            · -- The payment that was claimed is none of this provider's.
              rcases (Call.mem_commit hb.ids hq hclaim).mp hr with hrq | ⟨hold, -⟩
              · have hprov : q.provider = r.provider := by rw [hrq, Call.written_provider]
                exact absurd (Call.claimable_iff.mp hclaim).1 (howns' q hq hprov)
              · exact hold
  | event e =>
      simp only [Books.outside] at h
      split at h
      · cases h
      · rename_i howns
        have howns' := owns_eq_false_iff.mp (by simpa using howns)
        obtain ⟨L, hL, rfl⟩ := Option.map_eq_some_iff.mp h
        refine ⟨fun hr => (mem_event_iff_of_ne hL (howns' r hr rfl)).mpr hr, fun hr => ?_⟩
        by_cases hid : r.id = e.paymentId
        · exact Or.inr (opened_of_event hL (by simpa using howns) hr hid)
        · exact Or.inl ((mem_event_iff_of_ne hL hid).mp hr)

/-! ## Whose payments a call writes -/

/-- The row a call of a provider decided on: an earlier state of one of the provider's payments. -/
def Seen (provider : PaymentProvider) (L : Ledger) (payment : Payment) : Prop :=
  payment.provider = provider ∧ ∃ r ∈ L.payments, Later payment r

theorem Seen.step {b b' : Books} {provider : PaymentProvider} {payment : Payment} (hb : Sound b)
    (hstep : Books.Step b b') (h : Seen provider b.ledger payment) : Seen provider b'.ledger payment := by
  obtain ⟨hprov, r, hr, hlater⟩ := h
  obtain ⟨r', hr', hlater'⟩ := later_step hb hstep r hr
  exact ⟨hprov, r', hr', hlater.trans hlater'⟩

/-- The payment a call is about is the provider's, whatever became of it. -/
theorem Seen.provider_eq {b : Books} {provider : PaymentProvider} (hb : Sound b) {payment q : Payment}
    (h : Seen provider b.ledger payment) (hq : q ∈ b.ledger.payments) (hid : q.id = payment.id) :
    q.provider = provider := by
  obtain ⟨hprov, r, hr, hlater⟩ := h
  obtain rfl := eq_of_key_eq hb.ids hr hq (hlater.id.trans hid.symm)
  exact hlater.provider.trans hprov

/-- What one step of a provider's call writes: nothing, or one payment of the provider's. -/
inductive Books.Writes (provider : PaymentProvider) (b b' : Books) : Prop
  | nothing (h : b' = b)
  | event (e : Event) (L : Ledger) (payment : Payment) (hid : e.paymentId = payment.id)
      (hseen : Seen provider b.ledger payment) (hL : e.apply b.ledger = some L)
      (h : b' = { b with ledger := L })
  | call (c : Call) (claimed : Bool) (payment : Payment) (hid : c.paymentId = payment.id)
      (hseen : Seen provider b.ledger payment) (hran : b.run c = some (claimed, b'))

theorem Books.Writes.step {provider : PaymentProvider} {b b' : Books} (hb : Sound b)
    (h : Books.Writes provider b b') : Books.Step b b' := by
  cases h with
  | nothing h =>
      rw [h]
      exact Books.Step.stay _
  | event e L payment hid hseen hL h =>
      rw [h]
      exact Books.Step.event _ e L hL
  | call c claimed payment hid hseen hran => exact (Books.run_spec hb.ids hran).step

/-- To another provider's adapter a step of a call is one of its surroundings' steps. -/
theorem Books.Writes.outside {provider other : PaymentProvider} {b b' : Books} (hb : Sound b)
    (hne : other ≠ provider) (h : Books.Writes provider b b') :
    b' = b ∨ ∃ o, b.outside other o = some b' := by
  have howns : ∀ payment, Seen provider b.ledger payment → b.ledger.owns other payment.id = false := by
    intro payment hseen
    refine owns_eq_false_iff.mpr fun r hr hprov hid => hne ?_
    exact hprov.symm.trans (hseen.provider_eq hb hr hid)
  cases h with
  | nothing h => exact Or.inl h
  | event e L payment hid hseen hL h =>
      refine Or.inr ⟨.event e, ?_⟩
      simp [Books.outside, hid, howns payment hseen, hL, h]
  | call c claimed payment hid hseen hran =>
      refine Or.inr ⟨.call c, ?_⟩
      simp [Books.outside, hid, howns payment hseen, hran]

/-- **A payment of another provider is neither changed nor added.** -/
theorem Books.Writes.keeps {provider : PaymentProvider} {b b' : Books} (hb : Sound b)
    (h : Books.Writes provider b b') {q : Payment} (hprov : q.provider ≠ provider) :
    q ∈ b'.ledger.payments ↔ q ∈ b.ledger.payments := by
  have hstep := h.step hb
  -- The payment that is written is the provider's before and after.
  have hother : ∀ payment, Seen provider b.ledger payment → q.id = payment.id →
      (q ∈ b'.ledger.payments ↔ q ∈ b.ledger.payments) := fun payment hseen hid =>
    iff_of_false (fun hq => hprov ((hseen.step hb hstep).provider_eq (sound_step hb hstep) hq hid))
      (fun hq => hprov (hseen.provider_eq hb hq hid))
  cases h with
  | nothing h => rw [h]
  | event e L payment hid hseen hL h =>
      by_cases hq : q.id = payment.id
      · exact hother payment hseen hq
      · rw [h]
        exact mem_event_iff_of_ne hL (by rw [hid]; exact hq)
  | call c claimed payment hid hseen hran =>
      by_cases hq : q.id = payment.id
      · exact hother payment hseen hq
      · cases Books.run_spec hb.ids hran with
        | missed hmiss => rfl
        | claimed r out hr hclaim hout =>
            exact mem_commit_iff_of_ne hb.toGranted hr hclaim (by rw [hid]; exact hq)

/-- Only `activate` marks a payment as paid, and it is the payment it names. -/
theorem Books.run_paid {b b' : Books} {c : Call} {claimed : Bool} (hb : Sound b)
    (hrun : b.run c = some (claimed, b')) {r r' : Payment} (hr : r ∈ b.ledger.payments)
    (hr' : r' ∈ b'.ledger.payments) (hid : r'.id = r.id) (hunpaid : r.status ≠ .paid)
    (hpaid : r'.status = .paid) : c.paymentId = r.id ∧ ∃ t p now, c = .activate t p now := by
  cases Books.run_spec hb.ids hrun with
  | missed hmiss =>
      obtain rfl := eq_of_key_eq hb.ids hr' hr hid
      exact absurd hpaid hunpaid
  | claimed q out hq hclaim hout =>
      rcases (Call.mem_commit hb.ids hq hclaim).mp hr' with rfl | ⟨hold, -⟩
      · have hrid : r.id = q.id := hid.symm.trans (Call.written_id c out q)
        refine ⟨(Call.claimable_iff.mp hclaim).1.symm.trans hrid.symm, ?_⟩
        cases c with
        | activate t p now => exact ⟨t, p, now, rfl⟩
        | cancel t p reason now =>
            have hcancelled : ((Call.cancel t p reason now).written out q).status = .cancelled := by
              cases out <;> rfl
            rw [hcancelled] at hpaid
            cases hpaid
      · obtain rfl := eq_of_key_eq hb.ids hold hr hid
        exact absurd hpaid hunpaid

/-- An event leaves the status of every payment. -/
theorem Event.apply_status {L L' : Ledger} {e : Event} (hids : (L.payments.map Payment.id).Nodup)
    (h : e.apply L = some L') {r r' : Payment} (hr : r ∈ L.payments) (hr' : r' ∈ L'.payments)
    (hid : r'.id = r.id) : r'.status = r.status := by
  cases Event.apply_wrote h with
  | checkout id tenant plan provider amount months now hfresh hmonths =>
      rcases List.mem_append.mp hr' with hold | hnew
      · rw [eq_of_key_eq hids hold hr hid]
      · obtain rfl := List.mem_singleton.mp hnew
        exact absurd hid.symm (hfresh r hr)
  | providerTxn id txn createdAt payment hmem hpid hfree =>
      rcases mem_update_id.mp hr' with ⟨q, hq, -, rfl⟩ | ⟨hq, -⟩
      · rw [eq_of_key_eq hids hq hr hid]
      · rw [eq_of_key_eq hids hq hr hid]
  | clickPrepareId id prepareId payment hmem hpid =>
      rcases mem_update_id.mp hr' with ⟨q, hq, -, rfl⟩ | ⟨hq, -⟩
      · rw [eq_of_key_eq hids hq hr hid]
      · rw [eq_of_key_eq hids hq hr hid]

/-! ## What the lookups find -/

theorem resolve_eq_some {L : Ledger} {id tenant : Nat} (h : L.resolve id = some tenant) :
    ∃ r ∈ L.payments, r.id = id ∧ r.tenantId = tenant := by
  obtain ⟨r, hfind, rfl⟩ := Option.map_eq_some_iff.mp h
  exact ⟨r, List.mem_of_find?_eq_some hfind, by simpa using List.find?_some hfind, rfl⟩

theorem find_eq_some {L : Ledger} {tenant id : Nat} {provider : PaymentProvider} {r : Payment}
    (h : L.find tenant id provider = some r) :
    r ∈ L.payments ∧ r.id = id ∧ r.tenantId = tenant ∧ r.provider = provider := by
  unfold Ledger.find at h
  split at h
  · cases h
  · rename_i payment hfind
    split at h
    · rename_i hprov
      obtain rfl := Option.some.inj h
      have hmatch := List.find?_some hfind
      simp only [Bool.and_eq_true, beq_iff_eq] at hmatch
      exact ⟨List.mem_of_find?_eq_some hfind, hmatch.1, hmatch.2, hprov⟩
    · cases h

/-- A payment is found in the context of its own workspace. -/
theorem find_of_mem {L : Ledger} (hids : (L.payments.map Payment.id).Nodup) {r : Payment}
    (hr : r ∈ L.payments) : L.find r.tenantId r.id r.provider = some r := by
  have hfind : (L.payments.find? fun q => q.id == r.id && q.tenantId == r.tenantId) = some r :=
    find?_eq_some_of_mem hids hr (by simp) fun q _ hq => by
      simp only [Bool.and_eq_true, beq_iff_eq] at hq
      exact hq.1
  simp [Ledger.find, hfind]

theorem resolveByTxn_eq_some {L : Ledger} {provider : PaymentProvider} {txn : String} {tenant id : Nat}
    (h : L.resolveByTxn provider txn = some (tenant, id)) :
    ∃ r ∈ L.payments, r.provider = provider ∧ r.providerTxnId = some txn ∧ r.tenantId = tenant ∧
      r.id = id := by
  obtain ⟨r, hfind, hr⟩ := Option.map_eq_some_iff.mp h
  obtain ⟨rfl, rfl⟩ := Prod.mk.inj hr
  have hmatch := List.find?_some hfind
  simp only [Bool.and_eq_true, beq_iff_eq] at hmatch
  exact ⟨r, List.mem_of_find?_eq_some hfind, hmatch.1, hmatch.2, rfl, rfl⟩

/-- A provider's transaction leads to the one payment it belongs to. -/
theorem Sound.resolveByTxn {b : Books} (hb : Sound b) {r : Payment} {txn : String}
    (hr : r ∈ b.ledger.payments) (htxn : r.providerTxnId = some txn) :
    b.ledger.resolveByTxn r.provider txn = some (r.tenantId, r.id) := by
  have hfind : (b.ledger.payments.find? fun q => q.provider == r.provider && q.providerTxnId == some txn)
      = some r :=
    find?_eq_some_of_mem hb.ids hr (by simp [htxn]) fun q hq hmatch => by
      simp only [Bool.and_eq_true, beq_iff_eq] at hmatch
      exact hb.txns q hq r hr hmatch.1 (by simp [hmatch.2]) (hmatch.2.trans htxn.symm)
  simp [Ledger.resolveByTxn, hfind]

end ESignSoft.Billing
