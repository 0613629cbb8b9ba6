import ESignSoft.Billing.Grants
import Mathlib.Order.Interval.Set.Defs
import Mathlib.Data.Set.Disjoint
import Mathlib.Order.CompletePartialOrder

/-!
# A reversal never takes another payment's time

The periods of a workspace's paid payments are stacked: they do not overlap and all end by the
workspace's paid time.  A reversal therefore only ever removes the period of the payment it reverses.

* `stacked_step` — one call or event keeps the stack;
* `clawback_own_period` — over every interleaving the periods are disjoint, and paid time moves back
  only by a reversed payment's own period.
-/

namespace ESignSoft.Billing

open ESignSoft.Lib.Table ESignSoft.Lib.Interleaving

/-- A payment of the workspace that is paid and not reversed. -/
def Live (L : Ledger) (t : Nat) (r : Payment) : Prop :=
  r ∈ L.payments ∧ r.tenantId = t ∧ r.status = .paid

/-- The instants a payment has bought. -/
def Payment.period (r : Payment) : Set Int :=
  {x | ∃ start stop, r.periodStart = some start ∧ r.periodEnd = some stop ∧ start ≤ x ∧ x < stop}

/-- The period of a paid payment lies inside the workspace's paid time. -/
def Within (paidUntil : Option Int) (r : Payment) : Prop :=
  ∃ start stop u, r.periodStart = some start ∧ r.periodEnd = some stop ∧ start < stop ∧
    paidUntil = some u ∧ stop ≤ u

/-- One of two periods ends before the other starts. -/
def Apart (r r' : Payment) : Prop :=
  ∀ start stop start' stop', r.periodStart = some start → r.periodEnd = some stop →
    r'.periodStart = some start' → r'.periodEnd = some stop' → stop ≤ start' ∨ stop' ≤ start

theorem Apart.symm {r r' : Payment} (h : Apart r r') : Apart r' r := by
  intro start stop start' stop' h1 h2 h3 h4
  exact (h start' stop' start stop h3 h4 h1 h2).symm

theorem Apart.disjoint {r r' : Payment} (h : Apart r r') : Disjoint r.period r'.period := by
  rw [Set.disjoint_left]
  rintro x ⟨start, stop, hstart, hstop, hx1, hx2⟩ ⟨start', stop', hstart', hstop', hx1', hx2'⟩
  have := h start stop start' stop' hstart hstop hstart' hstop'
  omega

/-- The paid periods of workspace `t` are stacked below its paid time. -/
structure Stacked (t : Nat) (b : Books) : Prop where
  granted : Granted b
  within : ∀ r, Live b.ledger t r → Within (b.ledger.tenants t).paidUntil r
  apart : ∀ r r', Live b.ledger t r → Live b.ledger t r' → r.id ≠ r'.id → Apart r r'

/-- A payment whose period ends exactly with the paid time is the last one: everything else was paid
for before it starts. -/
private theorem Stacked.last {t : Nat} {b : Books} (hb : Stacked t b) {r q : Payment} {start stop : Int}
    (hr : Live b.ledger t r) (hq : Live b.ledger t q) (hne : q.id ≠ r.id)
    (hstart : r.periodStart = some start) (hstop : r.periodEnd = some stop)
    (hlast : (b.ledger.tenants t).paidUntil = some stop) : Within (some start) q := by
  obtain ⟨qstart, qstop, u, hqstart, hqstop, hlt, hu, hle⟩ := hb.within q hq
  have hu' : u = stop := Option.some.inj (hu.symm.trans hlast)
  refine ⟨qstart, qstop, start, hqstart, hqstop, hlt, rfl, ?_⟩
  obtain ⟨rstart, rstop, -, hrstart, hrstop, hrlt, -, -⟩ := hb.within r hr
  have h1 : start = rstart := Option.some.inj (hstart.symm.trans hrstart)
  have h2 : stop = rstop := Option.some.inj (hstop.symm.trans hrstop)
  have h3 := hb.apart q r hq hr hne qstart qstop start stop hqstart hqstop hstart hstop
  omega

/-- A payment that carries a period before it is cancelled was paid. -/
private theorem Granted.live_of_period {b : Books} (hb : Granted b) {c : Call} {r : Payment} {stop : Int}
    (hr : r ∈ b.ledger.payments) (hclaim : c.claimable r = true) (hstop : r.periodEnd = some stop) :
    Live b.ledger c.tenant r := by
  obtain ⟨-, htenant, hstatus⟩ := Call.claimable_iff.mp hclaim
  refine ⟨hr, htenant, ?_⟩
  have hnot : r.status ≠ .pending := by
    rcases hb.explained r hr with ⟨_, _, _, _, _, hnot⟩ | ⟨-, -, hnone⟩
    · exact hnot
    · rw [hstop] at hnone
      cases hnone
  cases c with
  | activate _ _ _ => simp_all [Call.claims]
  | cancel _ _ _ _ => simpa [Call.claims, hnot] using hstatus

/-- What is live after a commit was live before, or is the payment that was written. -/
private theorem live_of_commit {t : Nat} {b : Books} {c : Call} {out : Outcome} {r q : Payment}
    (hb : Granted b) (hr : r ∈ b.ledger.payments) (hclaim : c.claimable r = true)
    (hq : Live (b.commit c out).ledger t q) :
    q = c.written out r ∨ (Live b.ledger t q ∧ q.id ≠ r.id) := by
  obtain ⟨hmem, hqt, hqs⟩ := hq
  rcases (Call.mem_commit hb.ids hr hclaim).mp hmem with rfl | ⟨hold, hne⟩
  · exact Or.inl rfl
  · exact Or.inr ⟨⟨hold, hqt, hqs⟩, hne⟩

/-- A new period goes on top of the stack. -/
private theorem stacked_activate {t p : Nat} {now start stop : Int} {b : Books} {r : Payment}
    (hb : Stacked t b) (hr : r ∈ b.ledger.payments)
    (hclaim : (Call.activate t p now).claimable r = true)
    (hperiod : grantedPeriod (b.ledger.tenants t).paidUntil r.months now = (start, some stop))
    (hgranted : Granted (b.commit (.activate t p now) (.granted start stop))) :
    Stacked t (b.commit (.activate t p now) (.granted start stop)) := by
  obtain ⟨-, hafter, hlt⟩ := grantedPeriod_spec (hb.granted.months r hr) hperiod
  have hold : ∀ q, Live (b.commit (.activate t p now) (.granted start stop)).ledger t q →
      q = (Call.activate t p now).written (.granted start stop) r ∨
        (Live b.ledger t q ∧ q.id ≠ r.id) :=
    fun q hq => live_of_commit hb.granted hr hclaim hq
  -- The new period starts where the paid time ends or later, so above all of the old ones.
  have hbefore : ∀ q, Live b.ledger t q → Within (some start) q := by
    intro q hq
    obtain ⟨qstart, qstop, u, hqstart, hqstop, hqlt, hu, hle⟩ := hb.within q hq
    have hus := hafter u hu
    exact ⟨qstart, qstop, start, hqstart, hqstop, hqlt, rfl, by omega⟩
  have hnew : ∀ q, Live b.ledger t q →
      Apart q ((Call.activate t p now).written (.granted start stop) r) := by
    intro q hq qstart qstop start' stop' _ hqstop hstart' _
    obtain ⟨_, qstop', u, _, hqstop', _, hu, hle⟩ := hbefore q hq
    have h1 : qstop' = qstop := Option.some.inj (hqstop'.symm.trans hqstop)
    have h2 : start = start' := Option.some.inj hstart'
    have h3 : start = u := Option.some.inj hu
    omega
  refine ⟨hgranted, fun q hq => ?_, fun q q' hq hq' hne => ?_⟩
  · show Within (((Call.activate t p now).commit (.granted start stop) b.ledger).tenants t).paidUntil q
    simp only [Call.commit, Call.tenant, Function.update_self]
    rcases hold q hq with rfl | ⟨hq', -⟩
    · exact ⟨start, stop, stop, rfl, rfl, hlt, rfl, le_refl _⟩
    · obtain ⟨qstart, qstop, u, hqstart, hqstop, hqlt, hu, hle⟩ := hbefore q hq'
      have hus : start = u := Option.some.inj hu
      exact ⟨qstart, qstop, stop, hqstart, hqstop, hqlt, rfl, by omega⟩
  · rcases hold q hq with rfl | ⟨hlive, -⟩
    · rcases hold q' hq' with rfl | ⟨hlive', -⟩
      · exact absurd rfl hne
      · exact (hnew q' hlive').symm
    · rcases hold q' hq' with rfl | ⟨hlive', -⟩
      · exact hnew q hlive
      · exact hb.apart q q' hlive hlive' hne

/-- A reversal takes the payment off the stack, and the paid time with it when it was on top. -/
private theorem stacked_cancel {t p : Nat} {reason : Option Int} {now : Int} {b : Books}
    {out : Outcome} {r : Payment} (hb : Stacked t b) (hr : r ∈ b.ledger.payments)
    (hclaim : (Call.cancel t p reason now).claimable r = true)
    (hout : (Call.cancel t p reason now).settle r (b.ledger.tenants t) = some out)
    (hgranted : Granted (b.commit (.cancel t p reason now) out)) :
    Stacked t (b.commit (.cancel t p reason now) out) := by
  have hcancelled : ((Call.cancel t p reason now).written out r).status = .cancelled := by
    rcases Call.settle_cancel hout with rfl | ⟨_, _, -, -, -, rfl⟩ <;> rfl
  have hold : ∀ q, Live (b.commit (.cancel t p reason now) out).ledger t q →
      Live b.ledger t q ∧ q.id ≠ r.id := by
    intro q hq
    rcases live_of_commit hb.granted hr hclaim hq with rfl | hlive
    · have hpaid := hq.2.2
      rw [hcancelled] at hpaid
      cases hpaid
    · exact hlive
  refine ⟨hgranted, fun q hq => ?_, fun q q' hq hq' hne =>
    hb.apart q q' (hold q hq).1 (hold q' hq').1 hne⟩
  obtain ⟨hlive, hne⟩ := hold q hq
  rcases Call.settle_cancel hout with rfl | ⟨start, stop, hstart, hstop, hlast, rfl⟩
  · have hwithin := hb.within q hlive
    simpa [Books.commit, Call.commit, Call.tenant] using hwithin
  · have hwithin := hb.last (hb.granted.live_of_period hr hclaim hstop) hlive hne hstart hstop hlast
    simpa [Books.commit, Call.commit, Call.tenant] using hwithin

/-- Another workspace's call leaves the stack alone. -/
private theorem stacked_elsewhere {t : Nat} {b : Books} {c : Call} {out : Outcome} {r : Payment}
    (hb : Stacked t b) (hr : r ∈ b.ledger.payments) (hclaim : c.claimable r = true) (ht : t ≠ c.tenant)
    (hgranted : Granted (b.commit c out)) : Stacked t (b.commit c out) := by
  have hold : ∀ q, Live (b.commit c out).ledger t q → Live b.ledger t q := by
    intro q hq
    rcases live_of_commit hb.granted hr hclaim hq with rfl | ⟨hlive, -⟩
    · have hqt := hq.2.1
      rw [Call.written_tenantId, (Call.claimable_iff.mp hclaim).2.1] at hqt
      exact absurd hqt.symm ht
    · exact hlive
  refine ⟨hgranted, fun q hq => ?_, fun q q' hq hq' hne => hb.apart q q' (hold q hq) (hold q' hq') hne⟩
  rw [show (b.commit c out).ledger.tenants t = b.ledger.tenants t from
    Call.commit_tenants_ne c out _ ht]
  exact hb.within q (hold q hq)

private theorem stacked_call {t : Nat} {b : Books} {c : Call} {out : Outcome} {r : Payment}
    (hb : Stacked t b) (hr : r ∈ b.ledger.payments) (hclaim : c.claimable r = true)
    (hout : c.settle r (b.ledger.tenants c.tenant) = some out) : Stacked t (b.commit c out) := by
  have hgranted := granted_step hb.granted (Books.Step.call b c out r hr hclaim hout)
  by_cases ht : t = c.tenant
  · subst ht
    cases c with
    | activate t p now =>
        obtain ⟨start, stop, hperiod, rfl⟩ := Call.settle_activate hout
        exact stacked_activate hb hr hclaim hperiod hgranted
    | cancel t p reason now => exact stacked_cancel hb hr hclaim hout hgranted
  · exact stacked_elsewhere hb hr hclaim ht hgranted

/-- One call or event keeps the stack. -/
theorem stacked_step {t : Nat} {b b' : Books} (hb : Stacked t b) (h : Books.Step b b') :
    Stacked t b' := by
  have hgranted := granted_step hb.granted h
  cases h with
  | stay => exact hb
  | call c out r hr hclaim hout => exact stacked_call hb hr hclaim hout
  | event e L h =>
      obtain ⟨htenants, -, hback, -⟩ := Event.apply_spec h
      have hold : ∀ q, Live L t q → ∃ q₀, Live b.ledger t q₀ ∧ SameTerms q₀ q := by
        rintro q ⟨hq, hqt, hqs⟩
        rcases hback q hq with ⟨q₀, hq₀, hsame⟩ | ⟨-, hpending, -⟩
        · exact ⟨q₀, ⟨hq₀, hsame.2.1.symm.trans hqt, hsame.2.2.1.symm.trans hqs⟩, hsame⟩
        · rw [hqs] at hpending
          cases hpending
      refine ⟨hgranted, fun q hq => ?_, fun q q' hq hq' hne => ?_⟩
      · obtain ⟨q₀, hlive, -, -, -, -, hstart, hend⟩ := hold q hq
        show Within (L.tenants t).paidUntil q
        unfold Within
        rw [htenants, hstart, hend]
        exact hb.within q₀ hlive
      · obtain ⟨q₀, hlive, hid, -, -, -, hstart, hend⟩ := hold q hq
        obtain ⟨q₁, hlive', hid', -, -, -, hstart', hend'⟩ := hold q' hq'
        unfold Apart
        rw [hstart, hend, hstart', hend']
        exact hb.apart q₀ q₁ hlive hlive' (by rw [← hid, ← hid']; exact hne)

/-- How a call or an event changes the paid time of a workspace: an activation recorded for it, or the
reversal of the payment whose period ends there. -/
private theorem paidUntil_step {t : Nat} {b b' : Books} (hb : Stacked t b) (h : Books.Step b b')
    (hne : (b'.ledger.tenants t).paidUntil ≠ (b.ledger.tenants t).paidUntil) :
    (∃ g, b'.grants = g :: b.grants ∧ g.tenant = t) ∨
      ∃ r r', Live b.ledger t r ∧ r' ∈ b'.ledger.payments ∧ r'.id = r.id ∧ r'.status = .cancelled ∧
        (b.ledger.tenants t).paidUntil = r.periodEnd ∧
        (b'.ledger.tenants t).paidUntil = r.periodStart := by
  cases h with
  | stay => exact absurd rfl hne
  | event e L h =>
      rw [show ({ b with ledger := L } : Books).ledger.tenants = b.ledger.tenants from
        (Event.apply_spec h).tenants] at hne
      exact absurd rfl hne
  | call c out r hr hclaim hout =>
      by_cases ht : t = c.tenant
      · subst ht
        cases c with
        | activate t p now =>
            obtain ⟨start, stop, -, rfl⟩ := Call.settle_activate hout
            exact Or.inl ⟨⟨p, t, start, stop⟩, rfl, rfl⟩
        | cancel t p reason now =>
            rcases Call.settle_cancel hout with rfl | ⟨start, stop, hstart, hstop, hlast, rfl⟩
            · simp [Books.commit, Call.commit, Call.tenant] at hne
            · refine Or.inr ⟨r, _, hb.granted.live_of_period hr hclaim hstop,
                (Call.mem_commit hb.granted.ids hr hclaim).mpr (Or.inl rfl), by simp, rfl,
                hlast.trans hstop.symm, ?_⟩
              simp [Books.commit, Call.commit, Call.tenant, hstart]
      · exact absurd (congrArg Tenant.paidUntil (Call.commit_tenants_ne c out _ ht)) hne

/-- **No reversal takes another payment's time.**  From a workspace with nothing paid for yet, whatever
its paid time says (null included), the periods of its paid payments are disjoint and end by its paid
time in every reachable state; and apart from an activation, its paid time only changes when the payment
whose period ends there is cancelled, back to the start of that period, with every payment still live
inside what is left. -/
theorem clawback_own_period {tenants : Nat → Tenant} {payments : List Payment} {s : System World Tx}
    {t : Nat} (h₀ : Unsettled payments)
    (h : Reaches billing (fun _ _ => True) (openSystem tenants payments) s) :
    (∀ r, Live s.shared.books.ledger t r → Within (s.shared.books.ledger.tenants t).paidUntil r) ∧
    (∀ r r', Live s.shared.books.ledger t r → Live s.shared.books.ledger t r' → r.id ≠ r'.id →
      Disjoint r.period r'.period) ∧
    ∀ l s', billing.step s l = some s' →
      (s'.shared.books.ledger.tenants t).paidUntil ≠ (s.shared.books.ledger.tenants t).paidUntil →
      (∃ g, s'.shared.books.grants = g :: s.shared.books.grants ∧ g.tenant = t) ∨
        ∃ r r', Live s.shared.books.ledger t r ∧ r' ∈ s'.shared.books.ledger.payments ∧
          r'.id = r.id ∧ r'.status = .cancelled ∧
          (s.shared.books.ledger.tenants t).paidUntil = r.periodEnd ∧
          (s'.shared.books.ledger.tenants t).paidUntil = r.periodStart ∧
          ∀ q, Live s'.shared.books.ledger t q →
            Within (s'.shared.books.ledger.tenants t).paidUntil q := by
  have hholds : Holds Unique Holding (fun _ _ => True) s :=
    outline.holds_of_reaches h (h₀.holds tenants)
  have hstart : Stacked t (openSystem tenants payments).shared.books := by
    have hnone : ∀ r, ¬ Live (openSystem tenants payments).shared.books.ledger t r := by
      rintro r ⟨hr, -, hpaid⟩
      have hpending := (h₀.pending r hr).1
      rw [hpaid] at hpending
      cases hpending
    exact ⟨h₀.granted tenants, fun r hr => absurd hr (hnone r), fun r _ hr => absurd hr (hnone r)⟩
  have hb : Stacked t s.shared.books :=
    books_invariant (fun _ _ hb hstep => stacked_step hb hstep) h (h₀.holds tenants) hstart
  refine ⟨hb.within, fun r r' hr hr' hne => (hb.apart r r' hr hr' hne).disjoint, fun l s' hl hne => ?_⟩
  have hstep := books_step hholds hl
  rcases paidUntil_step hb hstep hne with hgrant | ⟨r, r', hlive, hr', hid, hstatus, hend, hstart⟩
  · exact Or.inl hgrant
  · exact Or.inr ⟨r, r', hlive, hr', hid, hstatus, hend, hstart, (stacked_step hb hstep).within⟩

/-- Two payments, the first of them reversed after the second extended the workspace. -/
theorem clawback_own_period_out_of_order :
    let payments := [newPayment 1 7 .personal .payme 9900000 1 0,
      newPayment 2 7 .personal .click 9900000 1 0]
    let settle (p : Nat) (c : Call) : List (Label Choice Event) :=
      [.proc p (.call c), .proc p .next, .proc p .next, .proc p .next, .proc p .next, .proc p .next]
    ∃ s, billing.run (openSystem (fun _ => ⟨.trial, 50, none⟩) payments)
        (settle 0 (.activate 7 1 100) ++ settle 1 (.activate 7 2 200) ++
          settle 2 (.cancel 7 1 none 300)) = some s ∧
      s.shared.books.ledger.payments.map Payment.status = [.cancelled, .paid] ∧
      ∀ r, Live s.shared.books.ledger 7 r → Within (s.shared.books.ledger.tenants 7).paidUntil r := by
  intro payments settle
  have hrows : (billing.run (openSystem (fun _ => ⟨.trial, 50, none⟩) payments)
      (settle 0 (.activate 7 1 100) ++ settle 1 (.activate 7 2 200) ++
        settle 2 (.cancel 7 1 none 300))).map (fun s => s.shared.books.ledger.payments.map Payment.status)
      = some [.cancelled, .paid] := by
    decide +kernel
  obtain ⟨s, hs, hstatus⟩ := Option.map_eq_some_iff.mp hrows
  have hreaches : Reaches billing (fun _ _ => True) _ s := Reaches.of_run (fun _ _ _ => trivial) hs
  have hunsettled : Unsettled payments := ⟨by decide, by decide⟩
  exact ⟨s, hs, hstatus, (clawback_own_period hunsettled hreaches).1⟩

end ESignSoft.Billing
