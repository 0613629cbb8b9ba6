import ESignSoft.Billing.Serial

/-!
# Every payment is granted at most once

* `payment_granted_once` — over every interleaving of activations and cancellations, with purchases and
  provider notes in between, each payment extends its workspace at most once, its status only moves
  forward, and it carries a period exactly when it was activated;
* `granted_step` — the agreement of ledger and history behind it, for one call or event.
-/

namespace ESignSoft.Billing

open ESignSoft.Lib.Table ESignSoft.Lib.Interleaving

/-- The moves a payment's status may make. -/
inductive StatusMove : PaymentStatus → PaymentStatus → Prop
  | pay : StatusMove .pending .paid
  | refund : StatusMove .paid .cancelled
  | drop : StatusMove .pending .cancelled

/-- The period of the payment, and the history that explains it. -/
def Explained (grants : List Grant) (r : Payment) : Prop :=
  (∃ g ∈ grants, g.payment = r.id ∧ r.periodStart = some g.start ∧ r.periodEnd = some g.stop ∧
      r.status ≠ .pending) ∨
    ((∀ g ∈ grants, g.payment ≠ r.id) ∧ r.periodStart = none ∧ r.periodEnd = none)

/-- The ledger agrees with the history of its activations. -/
structure Granted (b : Books) : Prop where
  ids : (b.ledger.payments.map Payment.id).Nodup
  months : ∀ r ∈ b.ledger.payments, 1 ≤ r.months
  once : (b.grants.map Grant.payment).Nodup
  explained : ∀ r ∈ b.ledger.payments, Explained b.grants r
  known : ∀ g ∈ b.grants, g.start < g.stop ∧
    ∃ r ∈ b.ledger.payments, r.id = g.payment ∧ r.tenantId = g.tenant

/-! ## What a settled call writes -/

theorem Call.settle_activate {t p : Nat} {now : Int} {r : Payment} {tenant : Tenant} {out : Outcome}
    (h : (Call.activate t p now).settle r tenant = some out) :
    ∃ start stop, grantedPeriod tenant.paidUntil r.months now = (start, some stop) ∧
      out = .granted start stop := by
  obtain ⟨stop, hstop, rfl⟩ := Option.map_eq_some_iff.mp h
  exact ⟨_, stop, Prod.ext rfl hstop, rfl⟩

theorem Call.settle_cancel {t p : Nat} {reason : Option Int} {now : Int} {r : Payment}
    {tenant : Tenant} {out : Outcome} (h : (Call.cancel t p reason now).settle r tenant = some out) :
    out = .reversed none ∨
      ∃ start stop, r.periodStart = some start ∧ r.periodEnd = some stop ∧
        tenant.paidUntil = some stop ∧ out = .reversed (some start) := by
  simp only [Call.settle] at h
  cases hstart : r.periodStart with
  | none =>
      simp only [hstart, Option.some.injEq] at h
      exact Or.inl h.symm
  | some start =>
      cases hend : r.periodEnd with
      | none =>
          simp only [hstart, hend, Option.some.injEq] at h
          exact Or.inl h.symm
      | some stop =>
          simp only [hstart, hend, Option.some.injEq] at h
          by_cases hlast : tenant.paidUntil = some stop
          · rw [if_pos hlast] at h
            exact Or.inr ⟨start, stop, rfl, rfl, hlast, h.symm⟩
          · rw [if_neg hlast] at h
            exact Or.inl h.symm

/-- The row a commit leaves at the place of `q`, when `r` is the row it claimed. -/
def Call.written (c : Call) (out : Outcome) (r : Payment) : Payment :=
  match out with
  | .granted start stop => { c.claim r with periodStart := some start, periodEnd := some stop }
  | .reversed _ => c.claim r

theorem Call.mem_commit {c : Call} {out : Outcome} {L : Ledger} {r r' : Payment}
    (hids : (L.payments.map Payment.id).Nodup) (hr : r ∈ L.payments) (hclaim : c.claimable r = true) :
    r' ∈ (c.commit out L).payments ↔
      r' = c.written out r ∨ (r' ∈ L.payments ∧ r'.id ≠ r.id) := by
  have hkey : ∀ q, c.claimable q = true → q.id = r.id := by
    intro q hq
    rw [(Call.claimable_iff.mp hq).1, (Call.claimable_iff.mp hclaim).1]
  have hrows : (c.commit out L).payments = updateMany c.claimable (c.written out) L.payments := by
    rw [Call.commit_payments]
    rfl
  rw [hrows, mem_updateMany]
  constructor
  · rintro ⟨q, hq, rfl⟩
    by_cases hqc : c.claimable q = true
    · rw [if_pos hqc, eq_of_key_eq hids hq hr (hkey q hqc)]
      exact Or.inl rfl
    · rw [if_neg hqc]
      refine Or.inr ⟨hq, fun hid => hqc ?_⟩
      rw [eq_of_key_eq hids hq hr hid]
      exact hclaim
  · rintro (rfl | ⟨hmem, hne⟩)
    · exact ⟨r, hr, if_pos hclaim⟩
    · exact ⟨r', hmem, if_neg fun hc => hne (hkey r' hc)⟩

@[simp] theorem Call.written_id (c : Call) (out : Outcome) (r : Payment) :
    (c.written out r).id = r.id := by
  cases out <;> exact c.claim_id r

@[simp] theorem Call.written_tenantId (c : Call) (out : Outcome) (r : Payment) :
    (c.written out r).tenantId = r.tenantId := by
  cases out <;> exact c.claim_tenantId r

@[simp] theorem Call.written_months (c : Call) (out : Outcome) (r : Payment) :
    (c.written out r).months = r.months := by
  cases out <;> exact c.claim_months r

/-- A call moves the status of the payment it claims one step forward. -/
theorem Call.written_status {c : Call} {r : Payment} {tenant : Tenant} {out : Outcome}
    (hclaim : c.claimable r = true) (hout : c.settle r tenant = some out) :
    StatusMove r.status (c.written out r).status := by
  obtain ⟨-, -, hstatus⟩ := Call.claimable_iff.mp hclaim
  cases c with
  | activate t p now =>
      obtain ⟨start, stop, -, rfl⟩ := Call.settle_activate hout
      have hpending : r.status = .pending := by simpa [Call.claims] using hstatus
      rw [hpending]
      exact StatusMove.pay
  | cancel t p reason now =>
      have hcancelled : ((Call.cancel t p reason now).written out r).status = .cancelled := by
        rcases Call.settle_cancel hout with rfl | ⟨_, _, -, -, -, rfl⟩ <;> rfl
      rw [hcancelled]
      simp only [Call.claims, Bool.or_eq_true, beq_iff_eq] at hstatus
      rcases hstatus with hpending | hpaid
      · rw [hpending]
        exact StatusMove.drop
      · rw [hpaid]
        exact StatusMove.refund

/-! ## The step lemma -/

/-- What a commit leaves of the agreement whichever call it was: identifiers, months, and a payment of
its workspace for every grant so far. -/
private theorem granted_rows {b : Books} {c : Call} {out : Outcome} {r : Payment} (hb : Granted b)
    (hr : r ∈ b.ledger.payments) (hclaim : c.claimable r = true) :
    ((b.commit c out).ledger.payments.map Payment.id).Nodup ∧
    (∀ r' ∈ (b.commit c out).ledger.payments, 1 ≤ r'.months) ∧
    ∀ g ∈ b.grants, g.start < g.stop ∧
      ∃ r' ∈ (b.commit c out).ledger.payments, r'.id = g.payment ∧ r'.tenantId = g.tenant := by
  have hmem : ∀ r', r' ∈ (b.commit c out).ledger.payments ↔
      r' = c.written out r ∨ (r' ∈ b.ledger.payments ∧ r'.id ≠ r.id) :=
    fun r' => Call.mem_commit hb.ids hr hclaim
  refine ⟨?_, fun r' hr' => ?_, fun g hg => ?_⟩
  · show ((c.commit out b.ledger).payments.map Payment.id).Nodup
    rw [Call.commit_ids]
    exact hb.ids
  · rcases (hmem r').mp hr' with rfl | ⟨hold, -⟩
    · rw [Call.written_months]
      exact hb.months r hr
    · exact hb.months r' hold
  · obtain ⟨hlt, q, hq, hqid, hqt⟩ := hb.known g hg
    by_cases hqr : q.id = r.id
    · -- The grant names the very payment that is written now.
      refine ⟨hlt, c.written out r, (hmem _).mpr (Or.inl rfl), ?_, ?_⟩
      · rw [Call.written_id, ← hqr, hqid]
      · rw [Call.written_tenantId, ← eq_of_key_eq hb.ids hq hr hqr, hqt]
    · exact ⟨hlt, q, (hmem q).mpr (Or.inr ⟨hq, hqr⟩), hqid, hqt⟩

private theorem granted_activate {b : Books} {t p : Nat} {now start stop : Int} {r : Payment}
    (hb : Granted b) (hr : r ∈ b.ledger.payments) (hclaim : (Call.activate t p now).claimable r = true)
    (hperiod : grantedPeriod (b.ledger.tenants t).paidUntil r.months now = (start, some stop)) :
    Granted (b.commit (.activate t p now) (.granted start stop)) := by
  obtain ⟨hid, htenant, hstatus⟩ := Call.claimable_iff.mp hclaim
  obtain ⟨hids, hmonths, hknown⟩ := @granted_rows b _ (.granted start stop) r hb hr hclaim
  have hmem : ∀ r', r' ∈ (b.commit (.activate t p now) (.granted start stop)).ledger.payments ↔
      r' = (Call.activate t p now).written (.granted start stop) r ∨
        (r' ∈ b.ledger.payments ∧ r'.id ≠ r.id) :=
    fun r' => Call.mem_commit hb.ids hr hclaim
  -- A payment that is still pending has no grant yet: this is its first.
  have hpending : r.status = .pending := by simpa [Call.claims] using hstatus
  have hfresh : ∀ g ∈ b.grants, g.payment ≠ r.id := by
    rcases hb.explained r hr with ⟨_, _, _, _, _, hnot⟩ | ⟨hnone, -⟩
    · exact absurd hpending hnot
    · exact hnone
  refine ⟨hids, hmonths, ?_, ?_, ?_⟩
  · show (p :: b.grants.map Grant.payment).Nodup
    refine List.nodup_cons.mpr ⟨fun hp => ?_, hb.once⟩
    obtain ⟨g, hg, hgp⟩ := List.mem_map.mp hp
    exact hfresh g hg (hgp.trans hid.symm)
  · intro r' hr'
    rcases (hmem r').mp hr' with rfl | ⟨hold, hne⟩
    · refine Or.inl ⟨⟨p, t, start, stop⟩, List.mem_cons_self, ?_, rfl, rfl, ?_⟩
      · rw [Call.written_id]
        exact hid.symm
      · simp [Call.written, Call.claim]
    · rcases hb.explained r' hold with ⟨g, hg, hrest⟩ | ⟨hnone, hperiods⟩
      · exact Or.inl ⟨g, List.mem_cons_of_mem _ hg, hrest⟩
      · refine Or.inr ⟨fun g hg => ?_, hperiods⟩
        rcases List.mem_cons.mp hg with rfl | hg
        · intro hp
          exact hne (hp.symm.trans hid.symm)
        · exact hnone g hg
  · intro g hg
    rcases List.mem_cons.mp hg with rfl | hg
    · refine ⟨(grantedPeriod_spec (hb.months r hr) hperiod).2.2, _, (hmem _).mpr (Or.inl rfl), ?_, ?_⟩
      · rw [Call.written_id]
        exact hid
      · rw [Call.written_tenantId]
        exact htenant
    · exact hknown g hg

/-- A reversal keeps the period of the payment on record. -/
private theorem granted_cancel {b : Books} {t p : Nat} {reason paidUntil : Option Int} {now : Int}
    {r : Payment} (hb : Granted b) (hr : r ∈ b.ledger.payments)
    (hclaim : (Call.cancel t p reason now).claimable r = true) :
    Granted (b.commit (.cancel t p reason now) (.reversed paidUntil)) := by
  obtain ⟨hids, hmonths, hknown⟩ := @granted_rows b _ (.reversed paidUntil) r hb hr hclaim
  refine ⟨hids, hmonths, hb.once, fun r' hr' => ?_, hknown⟩
  rcases (Call.mem_commit hb.ids hr hclaim).mp hr' with rfl | ⟨hold, -⟩
  · rcases hb.explained r hr with ⟨g, hg, hgid, hstart, hend, -⟩ | hnone
    · exact Or.inl ⟨g, hg, hgid, hstart, hend, by simp [Call.written, Call.claim]⟩
    · exact Or.inr hnone
  · exact hb.explained r' hold

private theorem granted_call {b : Books} {c : Call} {out : Outcome} {r : Payment} (hb : Granted b)
    (hr : r ∈ b.ledger.payments) (hclaim : c.claimable r = true)
    (hout : c.settle r (b.ledger.tenants c.tenant) = some out) : Granted (b.commit c out) := by
  cases c with
  | activate t p now =>
      obtain ⟨start, stop, hperiod, rfl⟩ := Call.settle_activate hout
      exact granted_activate hb hr hclaim hperiod
  | cancel t p reason now =>
      rcases Call.settle_cancel hout with rfl | ⟨start, _, -, -, -, rfl⟩
      · exact granted_cancel hb hr hclaim
      · exact granted_cancel hb hr hclaim

private theorem granted_event {b : Books} {e : Event} {L : Ledger} (hb : Granted b)
    (h : e.apply b.ledger = some L) : Granted { b with ledger := L } := by
  obtain ⟨-, hforward, hback, hids⟩ := Event.apply_spec h
  refine ⟨hids hb.ids, fun r' hr' => ?_, hb.once, fun r' hr' => ?_, fun g hg => ?_⟩
  · rcases hback r' hr' with ⟨r, hr, -, -, -, hmonths, -⟩ | ⟨-, -, -, -, hmonths⟩
    · rw [hmonths]
      exact hb.months r hr
    · exact hmonths
  · rcases hback r' hr' with ⟨r, hr, hid, -, hstatus, -, hstart, hend⟩ | ⟨hfresh, -, hstart, hend, -⟩
    · have hr'' := hb.explained r hr
      unfold Explained at hr'' ⊢
      rw [hid, hstatus, hstart, hend]
      exact hr''
    · refine Or.inr ⟨fun g hg hgid => hfresh ?_, hstart, hend⟩
      obtain ⟨-, r, hr, hrid, -⟩ := hb.known g hg
      exact List.mem_map.mpr ⟨r, hr, hrid.trans hgid⟩
  · obtain ⟨hlt, r, hr, hid, ht⟩ := hb.known g hg
    obtain ⟨r', hr', hid', ht', -⟩ := hforward r hr
    exact ⟨hlt, r', hr', hid'.trans hid, ht'.trans ht⟩

/-- Every call and every event keeps the ledger in agreement with its history. -/
theorem granted_step {b b' : Books} (hb : Granted b) (h : Books.Step b b') : Granted b' := by
  cases h with
  | stay => exact hb
  | call c out r hr hclaim hout => exact granted_call hb hr hclaim hout
  | event e L h => exact granted_event hb h


theorem Unsettled.granted {payments : List Payment} (h : Unsettled payments) (tenants : Nat → Tenant) :
    Granted (openSystem tenants payments).shared.books where
  ids := h.ids
  months r hr := (h.pending r hr).2.2.2
  once := List.nodup_nil
  explained r hr := Or.inr ⟨fun _ hg => (List.not_mem_nil hg).elim, (h.pending r hr).2.1,
    (h.pending r hr).2.2.1⟩
  known _ hg := (List.not_mem_nil hg).elim

/-! ## Every run -/

/-- A workspace's paid time is set for the first time, or moved later. -/
def Extends (before after : Option Int) : Prop :=
  ∃ stop, after = some stop ∧ ∀ u, before = some u → u < stop

/-- Statuses move forward in one call or event. -/
private theorem status_step {b b' : Books} (hb : Granted b) (h : Books.Step b b') :
    ∀ r ∈ b.ledger.payments, ∃ r' ∈ b'.ledger.payments,
      r'.id = r.id ∧ (r'.status = r.status ∨ StatusMove r.status r'.status) := by
  intro r hr
  cases h with
  | stay => exact ⟨r, hr, rfl, Or.inl rfl⟩
  | call c out q hq hclaim hout =>
      by_cases hrq : r.id = q.id
      · rw [eq_of_key_eq hb.ids hr hq hrq]
        exact ⟨c.written out q, (Call.mem_commit hb.ids hq hclaim).mpr (Or.inl rfl), by simp,
          Or.inr (Call.written_status hclaim hout)⟩
      · exact ⟨r, (Call.mem_commit hb.ids hq hclaim).mpr (Or.inr ⟨hr, hrq⟩), rfl, Or.inl rfl⟩
  | event e L h =>
      obtain ⟨r', hr', hid, -, hstatus, -⟩ := (Event.apply_spec h).forward r hr
      exact ⟨r', hr', hid, Or.inl hstatus⟩

/-- Paid time moves later only where an activation is recorded. -/
private theorem extends_step {b b' : Books} (hb : Granted b) (h : Books.Step b b') {t : Nat}
    (hext : Extends (b.ledger.tenants t).paidUntil (b'.ledger.tenants t).paidUntil) :
    ∃ g, b'.grants = g :: b.grants ∧ g.tenant = t ∧
      ∃ r ∈ b.ledger.payments, r.id = g.payment ∧ r.tenantId = t ∧ r.status = .pending := by
  have hsame : ∀ u : Option Int, ¬ Extends u u := by
    rintro u ⟨stop, rfl, hlt⟩
    exact lt_irrefl stop (hlt stop rfl)
  cases h with
  | stay => exact absurd hext (hsame _)
  | event e L h =>
      rw [show ({ b with ledger := L } : Books).ledger.tenants = b.ledger.tenants from
        (Event.apply_spec h).tenants] at hext
      exact absurd hext (hsame _)
  | call c out r hr hclaim hout =>
      obtain ⟨hid, htenant, hstatus⟩ := Call.claimable_iff.mp hclaim
      by_cases ht : t = c.tenant
      · subst ht
        cases c with
        | activate t p now =>
            obtain ⟨start, stop, -, rfl⟩ := Call.settle_activate hout
            exact ⟨⟨p, t, start, stop⟩, rfl, rfl, r, hr, hid, htenant,
              by simpa [Call.claims] using hstatus⟩
        | cancel t p reason now =>
            -- A reversal only ever moves the paid time back.
            rcases Call.settle_cancel hout with rfl | ⟨start, stop, hstart, hend, hlast, rfl⟩
            · simp only [Books.commit, Call.commit, Call.tenant, Function.update_self,
                Option.none_or] at hext
              exact absurd hext (hsame _)
            · obtain ⟨after, hafter, hlt⟩ := hext
              simp only [Books.commit, Call.commit, Call.tenant, Function.update_self,
                Option.some_or, Option.some.injEq] at hafter
              have hback := hlt stop hlast
              rcases hb.explained r hr with ⟨g, hg, -, hgstart, hgend, -⟩ | ⟨-, hnone, -⟩
              · have hperiod := (hb.known g hg).1
                rw [hstart] at hgstart
                rw [hend] at hgend
                have h1 : start = g.start := Option.some.inj hgstart
                have h2 : stop = g.stop := Option.some.inj hgend
                omega
              · rw [hnone] at hstart
                cases hstart
      · rw [show (b.commit c out).ledger.tenants t = b.ledger.tenants t from
          Call.commit_tenants_ne c out _ ht] at hext
        exact absurd hext (hsame _)

/-- **Exactly-once grants over every interleaving.**  No payment is activated twice, every extension of
a workspace's paid time is the activation of one of its pending payments, statuses only move forward,
and a payment carries a period exactly when it was activated. -/
theorem payment_granted_once {tenants : Nat → Tenant} {payments : List Payment} {s : System World Tx}
    (h₀ : Unsettled payments) (h : Reaches billing (fun _ _ => True) (openSystem tenants payments) s) :
    (s.shared.books.ledger.payments.map Payment.id).Nodup ∧
    (s.shared.books.grants.map Grant.payment).Nodup ∧
    (∀ r ∈ s.shared.books.ledger.payments,
      (r.periodStart.isSome ↔ ∃ g ∈ s.shared.books.grants, g.payment = r.id) ∧
        (r.periodEnd.isSome ↔ ∃ g ∈ s.shared.books.grants, g.payment = r.id)) ∧
    ∀ l s', billing.step s l = some s' →
      (∀ t, Extends (s.shared.books.ledger.tenants t).paidUntil
          (s'.shared.books.ledger.tenants t).paidUntil →
        ∃ g, s'.shared.books.grants = g :: s.shared.books.grants ∧ g.tenant = t ∧
          ∃ r ∈ s.shared.books.ledger.payments,
            r.id = g.payment ∧ r.tenantId = t ∧ r.status = .pending) ∧
      ∀ r ∈ s.shared.books.ledger.payments, ∃ r' ∈ s'.shared.books.ledger.payments,
        r'.id = r.id ∧ (r'.status = r.status ∨ StatusMove r.status r'.status) := by
  have hholds : Holds Unique Holding (fun _ _ => True) s :=
    outline.holds_of_reaches h (h₀.holds tenants)
  have hb : Granted s.shared.books :=
    books_invariant (fun _ _ hb hstep => granted_step hb hstep) h (h₀.holds tenants)
      (h₀.granted tenants)
  refine ⟨hb.ids, hb.once, fun r hr => ?_, fun l s' hl => ?_⟩
  · rcases hb.explained r hr with ⟨g, hg, hgid, hstart, hend, -⟩ | ⟨hnone, hstart, hend⟩
    · rw [hstart, hend]
      exact ⟨by simpa using ⟨g, hg, hgid⟩, by simpa using ⟨g, hg, hgid⟩⟩
    · rw [hstart, hend]
      exact ⟨by simpa using hnone, by simpa using hnone⟩
  · have hstep := books_step hholds hl
    exact ⟨fun t ht => extends_step hb hstep ht, status_step hb hstep⟩

/-- Two deliveries of one payment and a late cancellation, overlapping. -/
theorem payment_granted_once_redelivered :
    let payment := newPayment 1 7 .personal .payme 9900000 1 0
    let schedule : List (Label Choice Event) :=
      [.proc 0 (.call (.activate 7 1 100)), .proc 1 (.call (.activate 7 1 200)), .proc 0 .next,
        .proc 2 (.call (.cancel 7 1 (some 5) 300)), .proc 0 .next, .proc 0 .next, .proc 0 .next,
        .proc 0 .next, .proc 1 .next, .proc 1 .next, .proc 2 .next, .proc 2 .next]
    ∃ s, billing.run (openSystem (fun _ => ⟨.trial, 50, none⟩) [payment]) schedule = some s ∧
      s.shared.books.grants.length = 1 ∧ (s.shared.books.grants.map Grant.payment).Nodup := by
  intro payment schedule
  have hlen : (billing.run (openSystem (fun _ => ⟨.trial, 50, none⟩) [payment]) schedule).map
      (fun s => s.shared.books.grants.length) = some 1 := by
    decide +kernel
  obtain ⟨s, hs, hone⟩ := Option.map_eq_some_iff.mp hlen
  have hreaches : Reaches billing (fun _ _ => True) _ s := Reaches.of_run (fun _ _ _ => trivial) hs
  have hunsettled : Unsettled [payment] := ⟨by decide, by decide⟩
  exact ⟨s, hs, hone, (payment_granted_once hunsettled hreaches).2.1⟩

end ESignSoft.Billing
