import ESignSoft.Billing.Grants
import Mathlib.Order.WithBot

/-!
# What a workspace may use, and until when

`tenantAccess` decides from the three columns of a workspace row whether the product is open to it, and
`isLocked` is the guard's one question.  Both come down to one instant, the workspace's *horizon*, which
is never for a workspace granted `pro` by hand.

* `paying_keeps_access` — an activation leaves open what was open exactly when the workspace was not
  granted by hand and its trial ends no later than the period the payment buys;
* `refund_restores_access` — activating and cancelling again leaves the workspace as it was exactly when
  it was not granted by hand and what is left of a trial agrees with the paid time before;
* `hand_grant_sticks_iff` — a grant by hand opens a workspace for good exactly when no paid time is on
  record.
-/

namespace ESignSoft.Billing

open ESignSoft.Lib.JsText ESignSoft.Lib.JsDate ESignSoft.Lib.Table

inductive AccessState
  | trial
  | pro
  | ended
  | lapsed
  deriving DecidableEq, Repr

structure TenantAccess where
  state : AccessState
  daysLeft : Int
  trialEndsAt : JsString
  paidUntil : Option JsString

/-- Rounded up: while any part of the last day remains, a day is left. -/
def daysFrom (msLeft : Int) : Int := -(-msLeft / msPerDay)

/-- Where a workspace stands at `now`. -/
def tenantAccess (plan : TenantPlan) (trialEndsAt : Int) (paidUntil : Option Int) (now : Int) :
    TenantAccess :=
  let trialIso := toISOString trialEndsAt
  match plan with
  | .pro =>
      match paidUntil with
      -- Granted by hand: there is no paid period to run out.
      | none => ⟨.pro, 0, trialIso, none⟩
      | some until_ =>
          let msLeft := until_ - now
          if msLeft > 0 then ⟨.pro, daysFrom msLeft, trialIso, some (toISOString until_)⟩
          else ⟨.lapsed, 0, trialIso, some (toISOString until_)⟩
  | .trial =>
      let msLeft := trialEndsAt - now
      if msLeft ≤ 0 then ⟨.ended, 0, trialIso, paidUntil.map toISOString⟩
      else ⟨.trial, daysFrom msLeft, trialIso, paidUntil.map toISOString⟩

def accessLocked (access : TenantAccess) : Bool := access.state == .ended || access.state == .lapsed

def isLocked (access : TenantAccess) : Bool := accessLocked access

/-- The guard's answer for a workspace row. -/
def Tenant.locked (t : Tenant) (now : Int) : Bool :=
  isLocked (tenantAccess t.plan t.trialEndsAt t.paidUntil now)

/-- The longest trial the script gives. -/
def MAX_TRIAL_DAYS : Int := 365

/-- What `scripts/set-plan.mjs` writes; `none` where it prints its usage and writes nothing. -/
def setPlan (plan : TenantPlan) (days now : Int) (t : Tenant) : Option Tenant :=
  if days < 1 ∨ days > MAX_TRIAL_DAYS then none
  else
    match plan with
    -- Only the plan: the paid time of a former customer stays what it was.
    | .pro => some { t with plan := .pro }
    | .trial => (timeClip (now + days * msPerDay)).map fun stop =>
        { t with plan := .trial, trialEndsAt := stop }

/-! ## Deadlines

How two deadlines compare from a given instant on. -/

section Deadline

variable {α : Type*} [LinearOrder α] {a : α} {h h' : WithTop α}

/-- What is before one deadline is before the other, from `a` on. -/
theorem forall_before_imp_iff :
    (∀ x : α, a ≤ x → (x : WithTop α) < h → (x : WithTop α) < h') ↔ h ≤ max (a : WithTop α) h' := by
  constructor
  · intro hall
    by_contra hlt
    -- The later of `a` and the second deadline would be open under the first one only.
    obtain ⟨x, hx⟩ := WithTop.ne_top_iff_exists.mp (ne_top_of_lt (not_le.mp hlt))
    have hopen : (x : WithTop α) < h := hx ▸ not_le.mp hlt
    have hax : a ≤ x := WithTop.coe_le_coe.mp (hx ▸ le_max_left _ _)
    have hxh' : h' ≤ (x : WithTop α) := hx ▸ le_max_right _ _
    exact absurd (hall x hax hopen) (not_lt.mpr hxh')
  · intro hle x hax hxh
    rcases lt_max_iff.mp (lt_of_lt_of_le hxh hle) with hxa | hxh'
    · exact absurd hax (not_le.mpr (WithTop.coe_lt_coe.mp hxa))
    · exact hxh'

/-- Two deadlines agree from `a` on. -/
theorem forall_before_iff_iff :
    (∀ x : α, a ≤ x → ((x : WithTop α) < h ↔ (x : WithTop α) < h')) ↔
      max (a : WithTop α) h = max (a : WithTop α) h' := by
  have hboth : (∀ x : α, a ≤ x → ((x : WithTop α) < h ↔ (x : WithTop α) < h')) ↔
      h ≤ max (a : WithTop α) h' ∧ h' ≤ max (a : WithTop α) h := by
    rw [← forall_before_imp_iff, ← forall_before_imp_iff]
    exact ⟨fun hall => ⟨fun x hx => (hall x hx).mp, fun x hx => (hall x hx).mpr⟩,
      fun hall x hx => ⟨hall.1 x hx, hall.2 x hx⟩⟩
  rw [hboth]
  constructor
  · rintro ⟨hle, hle'⟩
    exact le_antisymm (max_le (le_max_left _ _) hle) (max_le (le_max_left _ _) hle')
  · intro heq
    exact ⟨heq ▸ le_max_right _ _, heq.symm ▸ le_max_right _ _⟩

end Deadline

/-! ## The horizon -/

/-- When a workspace's access runs out, if ever. -/
def Tenant.horizon (t : Tenant) : WithTop Int :=
  match t.plan, t.paidUntil with
  | .pro, none => ⊤
  | .pro, some until_ => (until_ : WithTop Int)
  | .trial, _ => (t.trialEndsAt : WithTop Int)

/-- A workspace is open exactly before its horizon. -/
theorem locked_eq_false_iff (t : Tenant) (now : Int) :
    t.locked now = false ↔ (now : WithTop Int) < t.horizon := by
  obtain ⟨plan, trialEndsAt, paidUntil⟩ := t
  cases plan with
  | trial =>
      simp only [Tenant.locked, Tenant.horizon, isLocked, tenantAccess, WithTop.coe_lt_coe]
      by_cases hleft : trialEndsAt - now ≤ 0
      · rw [if_pos hleft]
        simp only [accessLocked, beq_self_eq_true, Bool.true_or, Bool.true_eq_false, false_iff]
        omega
      · rw [if_neg hleft]
        simp only [accessLocked, true_iff,
          show (AccessState.trial == .ended || AccessState.trial == .lapsed) = false from rfl]
        omega
  | pro =>
      cases paidUntil with
      | none => simp [Tenant.locked, Tenant.horizon, isLocked, tenantAccess, accessLocked]
      | some until_ =>
          simp only [Tenant.locked, Tenant.horizon, isLocked, tenantAccess, WithTop.coe_lt_coe]
          by_cases hleft : until_ - now > 0
          · rw [if_pos hleft]
            simp only [accessLocked, true_iff,
              show (AccessState.pro == .ended || AccessState.pro == .lapsed) = false from rfl]
            omega
          · rw [if_neg hleft]
            simp only [accessLocked, beq_self_eq_true, Bool.or_true, Bool.true_eq_false, false_iff]
            omega

/-- Access runs out where a paid period does. -/
theorem horizon_of_paid {t : Tenant} {stop : Int} (hplan : t.plan = .pro)
    (hpaid : t.paidUntil = some stop) : t.horizon = (stop : WithTop Int) := by
  simp [Tenant.horizon, hplan, hpaid]

/-! ## Reachable workspaces -/

/-- The books as trials, purchases, activations, cancellations and the script leave them, starting from
workspaces on their first trial. -/
inductive Reached : Books → Prop
  | opened {tenants : Nat → Tenant}
      (h : ∀ t, (tenants t).plan = .trial ∧ (tenants t).paidUntil = none) :
      Reached { ledger := { tenants, payments := [] }, grants := [] }
  | step {b b' : Books} (h : Reached b) (hstep : Books.Step b b') : Reached b'
  | setPlan {b : Books} {t : Nat} {plan : TenantPlan} {days now : Int} {tenant : Tenant}
      (h : Reached b) (hset : setPlan plan days now (b.ledger.tenants t) = some tenant) :
      Reached { b with ledger :=
        { b.ledger with tenants := Function.update b.ledger.tenants t tenant } }

/-- The script changes no payment, so the ledger still agrees with its history. -/
theorem Reached.granted {b : Books} (h : Reached b) : Granted b := by
  induction h with
  | opened h =>
      exact ⟨List.nodup_nil, by simp, List.nodup_nil, by simp, by simp⟩
  | step h hstep ih => exact granted_step ih hstep
  | setPlan h hset ih => exact ⟨ih.ids, ih.months, ih.once, ih.explained, ih.known⟩

/-! ## Paying -/

/-- The ledger after a call, as it was where the call throws and is rolled back. -/
def Ledger.after (L : Ledger) (c : Call) : Ledger :=
  match c.run L with
  | some (_, L') => L'
  | none => L

/-- A call that commits leaves what it commits. -/
theorem after_of_settle {L : Ledger} {c : Call} {out : Outcome} {r : Payment}
    (hids : (L.payments.map Payment.id).Nodup) (hr : r ∈ L.payments) (hclaim : c.claimable r = true)
    (hsettle : c.settle r (L.tenants c.tenant) = some out) : L.after c = c.commit out L := by
  simp only [Ledger.after, serial_run hids hr hclaim hsettle]

/-- A payment leaves every hour of access in place: the workspace was not granted by hand, and its trial
ends no later than the period `months` from `now` buys.  Where that period has no end, the activation is
rolled back. -/
def PayingKeeps (t : Tenant) (months now : Int) : Prop :=
  ∀ stop, (grantedPeriod t.paidUntil months now).2 = some stop →
    match t.plan, t.paidUntil with
    | .pro, none => False
    | .pro, some _ => True
    | .trial, _ => t.trialEndsAt ≤ stop

/-- An activation of a pending payment extends its workspace, or is rolled back. -/
theorem after_activate {b : Books} {r : Payment} {now : Int} (hb : Granted b)
    (hr : r ∈ b.ledger.payments) (hpending : r.status = .pending) :
    b.ledger.after (.activate r.tenantId r.id now) =
      match (grantedPeriod (b.ledger.tenants r.tenantId).paidUntil r.months now).2 with
      | some stop =>
          (Call.activate r.tenantId r.id now).commit
            (.granted (grantedPeriod (b.ledger.tenants r.tenantId).paidUntil r.months now).1 stop)
            b.ledger
      | none => b.ledger := by
  have hclaim : (Call.activate r.tenantId r.id now).claimable r = true :=
    Call.claimable_iff.mpr ⟨rfl, rfl, by simp [Call.claims, hpending]⟩
  cases hstop : (grantedPeriod (b.ledger.tenants r.tenantId).paidUntil r.months now).2 with
  | some stop =>
      have hsettle : (Call.activate r.tenantId r.id now).settle r (b.ledger.tenants r.tenantId) =
          some (.granted (grantedPeriod (b.ledger.tenants r.tenantId).paidUntil r.months now).1 stop) := by
        simp [Call.settle, hstop]
      exact after_of_settle hb.ids hr hclaim hsettle
  | none =>
      have hcount : matchCount (Call.activate r.tenantId r.id now).claimable b.ledger.payments ≠ 0 :=
        Nat.pos_iff_ne_zero.mp (matchCount_pos_of_mem hr hclaim)
      have hsettle : (Call.activate r.tenantId r.id now).settle
          ((Call.activate r.tenantId r.id now).claim r) (b.ledger.tenants r.tenantId) = none := by
        rw [Call.settle_claim]
        simp [Call.settle, hstop]
      have hrun : (Call.activate r.tenantId r.id now).run b.ledger = none := by
        simp only [Call.run, if_neg hcount, Call.find_eq hb.ids hr hclaim, Option.bind_eq_bind,
          Option.bind_some]
        rw [show (Call.activate r.tenantId r.id now).tenant = r.tenantId from rfl, hsettle]
        rfl
      simp only [Ledger.after, hrun]

/-- **Paying never shortens access**, exactly for a workspace that was not granted by hand and whose
trial ends no later than the period the payment buys. -/
theorem paying_keeps_access {b : Books} {r : Payment} {now : Int} (hb : Reached b)
    (hr : r ∈ b.ledger.payments) (hpending : r.status = .pending) :
    (∀ instant, now ≤ instant → (b.ledger.tenants r.tenantId).locked instant = false →
      ((b.ledger.after (.activate r.tenantId r.id now)).tenants r.tenantId).locked instant = false) ↔
      PayingKeeps (b.ledger.tenants r.tenantId) r.months now := by
  simp only [locked_eq_false_iff]
  rw [forall_before_imp_iff, after_activate hb.granted hr hpending]
  unfold PayingKeeps
  cases hstop : (grantedPeriod (b.ledger.tenants r.tenantId).paidUntil r.months now).2 with
  | none => simp
  | some stop =>
      obtain ⟨hnow, hafter, hlt⟩ := grantedPeriod_spec (hb.granted.months r hr)
        (Prod.ext rfl hstop : grantedPeriod _ _ _ = (_, some stop))
      have hmax : max (now : WithTop Int) (stop : WithTop Int) = stop :=
        max_eq_right (WithTop.coe_le_coe.mpr (by omega))
      have hhorizon : (((Call.activate r.tenantId r.id now).commit
          (.granted (grantedPeriod (b.ledger.tenants r.tenantId).paidUntil r.months now).1 stop)
            b.ledger).tenants r.tenantId).horizon = (stop : WithTop Int) :=
        horizon_of_paid (by simp [Call.commit, Call.tenant]) (by simp [Call.commit, Call.tenant])
      simp only [hhorizon, hmax, Option.some.injEq, forall_eq']
      cases hplan : (b.ledger.tenants r.tenantId).plan with
      | trial => simp [Tenant.horizon, hplan]
      | pro =>
          cases hpaid : (b.ledger.tenants r.tenantId).paidUntil with
          | none => simp [Tenant.horizon, hplan, hpaid]
          | some u =>
              have hu := hafter u hpaid
              simp only [Tenant.horizon, hplan, hpaid, WithTop.coe_le_coe, iff_true]
              omega

/-- A workspace on its first trial, with the trial `t` or the plan the script gave it, and one purchase
of one month. -/
def exampleBooks (t : Tenant) : Books where
  ledger :=
    { tenants := Function.update (fun _ => ⟨.trial, 604800000, none⟩) 7 t
      payments := [newPayment 1 7 .personal .payme 9900000 1 0] }
  grants := []

theorem reached_exampleBooks (plan : TenantPlan) (days : Int) {t : Tenant}
    (hset : setPlan plan days 0 ⟨.trial, 604800000, none⟩ = some t) : Reached (exampleBooks t) := by
  have hopened :
      Reached { ledger := { tenants := fun _ => ⟨.trial, 604800000, none⟩, payments := [] }, grants := [] } :=
    Reached.opened fun _ => ⟨rfl, rfl⟩
  exact Reached.setPlan (t := 7) (hopened.step
    (Books.Step.event _ (.checkout 1 7 .personal .payme 1 0) _ rfl)) hset

/-- A workspace granted `pro` by hand buys a month, and is locked when the month is over. -/
theorem paying_locks_hand_granted :
    let b := exampleBooks ⟨.pro, 604800000, none⟩
    Reached b ∧ newPayment 1 7 .personal .payme 9900000 1 0 ∈ b.ledger.payments ∧
      (b.ledger.tenants 7).locked 2678400000 = false ∧
      ((b.ledger.after (.activate 7 1 0)).tenants 7).locked 2678400000 = true := by
  refine ⟨reached_exampleBooks .pro 7 rfl, by simp [exampleBooks], ?_, ?_⟩
  · decide +kernel
  · decide +kernel

/-- On its first trial, a workspace keeps every hour when it buys a month. -/
theorem paying_keeps_first_trial :
    let b := exampleBooks ⟨.trial, 604800000, none⟩
    ∀ instant, 0 ≤ instant → (b.ledger.tenants 7).locked instant = false →
      ((b.ledger.after (.activate 7 1 0)).tenants 7).locked instant = false := by
  intro b
  have hb : Reached b := reached_exampleBooks .trial 7 (by decide)
  refine (paying_keeps_access (r := newPayment 1 7 .personal .payme 9900000 1 0) hb
    (by simp [b, exampleBooks]) rfl).mpr ?_
  have hstop : (grantedPeriod none 1 0).2 = some 2678400000 := by decide +kernel
  intro stop h
  obtain rfl := Option.some.inj (hstop.symm.trans h)
  show (604800000 : Int) ≤ 2678400000
  decide

/-! ## Paying and being refunded -/

/-- A ledger that still has the workspace and its payments as another one left them. -/
def SameWorkspace (t : Nat) (L L' : Ledger) : Prop :=
  L'.tenants t = L.tenants t ∧ ∀ r : Payment, r.tenantId = t → (r ∈ L'.payments ↔ r ∈ L.payments)

/-- A payment activated at `t₁` and cancelled at `t₂` leaves the workspace as open as it was: it was not
granted by hand, and a trial is over by `t₂`, as is the time paid for before, or ends with that time.
Where the period bought has no end, the activation is rolled back. -/
def RefundRestores (t : Tenant) (months t₁ t₂ : Int) : Prop :=
  ∀ stop, (grantedPeriod t.paidUntil months t₁).2 = some stop →
    match t.plan, t.paidUntil with
    | .pro, none => False
    | .pro, some _ => True
    | .trial, none => t.trialEndsAt ≤ t₂
    | .trial, some until_ => max t₂ t.trialEndsAt = max t₂ until_

/-- A reversal of the last period gives the paid time back, and leaves the plan. -/
theorem after_cancel_granted {b : Books} {r : Payment} {start stop : Int} (reason : Option Int) (now : Int)
    (hb : Granted b) (hr : r ∈ b.ledger.payments) (hpaid : r.status = .paid)
    (hstart : r.periodStart = some start) (hstop : r.periodEnd = some stop)
    (hlast : (b.ledger.tenants r.tenantId).paidUntil = some stop) :
    (b.ledger.after (.cancel r.tenantId r.id reason now)).tenants r.tenantId =
      { b.ledger.tenants r.tenantId with paidUntil := some start } := by
  have hclaim : (Call.cancel r.tenantId r.id reason now).claimable r = true :=
    Call.claimable_iff.mpr ⟨rfl, rfl, by simp [Call.claims, hpaid]⟩
  have hsettle : (Call.cancel r.tenantId r.id reason now).settle r (b.ledger.tenants r.tenantId) =
      some (.reversed (some start)) := by
    simp [Call.settle, hstart, hstop, hlast]
  rw [after_of_settle hb.ids hr hclaim hsettle]
  simp [Call.commit, Call.tenant]

/-- A cancellation of a pending payment takes nothing back. -/
theorem after_cancel_pending {b : Books} {r : Payment} {reason : Option Int} {now : Int}
    (hb : Granted b) (hr : r ∈ b.ledger.payments) (hpending : r.status = .pending) :
    (b.ledger.after (.cancel r.tenantId r.id reason now)).tenants r.tenantId =
      b.ledger.tenants r.tenantId := by
  have hclaim : (Call.cancel r.tenantId r.id reason now).claimable r = true :=
    Call.claimable_iff.mpr ⟨rfl, rfl, by simp [Call.claims, hpending]⟩
  have hnone : r.periodStart = none := by
    rcases hb.explained r hr with ⟨_, _, _, _, _, hnot⟩ | ⟨-, hnone, -⟩
    · exact absurd hpending hnot
    · exact hnone
  have hsettle : (Call.cancel r.tenantId r.id reason now).settle r (b.ledger.tenants r.tenantId) =
      some (.reversed none) := by
    simp [Call.settle, hnone]
  rw [after_of_settle hb.ids hr hclaim hsettle]
  simp [Call.commit, Call.tenant]

/-- The workspace after an activation and its cancellation, with nothing done to it in between. -/
theorem after_activate_cancel {b b' : Books} {r : Payment} {reason : Option Int} {t₁ t₂ : Int}
    (hb : Granted b) (hb' : Granted b') (hr : r ∈ b.ledger.payments) (hpending : r.status = .pending)
    (hsame : SameWorkspace r.tenantId (b.ledger.after (.activate r.tenantId r.id t₁)) b'.ledger) :
    (b'.ledger.after (.cancel r.tenantId r.id reason t₂)).tenants r.tenantId =
      match (grantedPeriod (b.ledger.tenants r.tenantId).paidUntil r.months t₁).2 with
      | some _ => { b.ledger.tenants r.tenantId with
          plan := .pro
          paidUntil := some (grantedPeriod (b.ledger.tenants r.tenantId).paidUntil r.months t₁).1 }
      | none => b.ledger.tenants r.tenantId := by
  obtain ⟨htenant, hrows⟩ := hsame
  rw [after_activate hb hr hpending] at htenant hrows
  have hclaim : (Call.activate r.tenantId r.id t₁).claimable r = true :=
    Call.claimable_iff.mpr ⟨rfl, rfl, by simp [Call.claims, hpending]⟩
  generalize hperiod : grantedPeriod (b.ledger.tenants r.tenantId).paidUntil r.months t₁ = period
    at htenant hrows ⊢
  obtain ⟨start, stop⟩ := period
  cases stop with
  | none =>
      have hr' : r ∈ b'.ledger.payments := (hrows r rfl).mpr hr
      rw [after_cancel_pending hb' hr' hpending]
      exact htenant
  | some stop =>
      let granted := (Call.activate r.tenantId r.id t₁).written (.granted start stop) r
      have hgranted : granted ∈ b'.ledger.payments :=
        (hrows granted rfl).mpr ((Call.mem_commit hb.ids hr hclaim).mpr (Or.inl rfl))
      have hpaid : b'.ledger.tenants r.tenantId =
          { b.ledger.tenants r.tenantId with plan := .pro, paidUntil := some stop } := by
        rw [htenant]
        simp [Call.commit, Call.tenant]
      have hback := after_cancel_granted reason t₂ hb' hgranted rfl
        (rfl : granted.periodStart = some start) (rfl : granted.periodEnd = some stop) (by
          show (b'.ledger.tenants r.tenantId).paidUntil = some stop
          rw [hpaid])
      refine Eq.trans hback ?_
      show { b'.ledger.tenants r.tenantId with paidUntil := some start } = _
      rw [hpaid]

/-- **A refund restores prior access**, exactly for a workspace that was not granted by hand and whose
trial, if it is on one, is over by then like the time paid for before, or ends with it. -/
theorem refund_restores_access {b b' : Books} {r : Payment} {reason : Option Int} {t₁ t₂ : Int}
    (hb : Reached b) (hb' : Reached b') (hr : r ∈ b.ledger.payments) (hpending : r.status = .pending)
    (ht : t₁ ≤ t₂)
    (hsame : SameWorkspace r.tenantId (b.ledger.after (.activate r.tenantId r.id t₁)) b'.ledger) :
    (∀ instant, t₂ ≤ instant →
      ((b'.ledger.after (.cancel r.tenantId r.id reason t₂)).tenants r.tenantId).locked instant =
        (b.ledger.tenants r.tenantId).locked instant) ↔
      RefundRestores (b.ledger.tenants r.tenantId) r.months t₁ t₂ := by
  have hlocked : ∀ (t t' : Tenant) (x : Int), t'.locked x = t.locked x ↔
      ((x : WithTop Int) < t.horizon ↔ (x : WithTop Int) < t'.horizon) := by
    intro t t' x
    rw [← locked_eq_false_iff, ← locked_eq_false_iff]
    cases t.locked x <;> cases t'.locked x <;> simp
  simp only [hlocked]
  rw [forall_before_iff_iff, after_activate_cancel hb.granted hb'.granted hr hpending hsame]
  unfold RefundRestores
  generalize hperiod : grantedPeriod (b.ledger.tenants r.tenantId).paidUntil r.months t₁ = period
  obtain ⟨start, stop⟩ := period
  cases stop with
  | none => simp
  | some stop =>
      simp only [Option.some.injEq, forall_eq']
      have hstart : (grantedPeriod (b.ledger.tenants r.tenantId).paidUntil r.months t₁).1 = start := by
        rw [hperiod]
      rw [horizon_of_paid (t := { b.ledger.tenants r.tenantId with plan := .pro, paidUntil := some start })
        rfl rfl]
      cases hplan : (b.ledger.tenants r.tenantId).plan with
      | pro =>
          cases hpaid : (b.ledger.tenants r.tenantId).paidUntil with
          | none =>
              simp only [Tenant.horizon, hplan, hpaid, iff_false]
              rw [max_eq_right le_top, ← WithTop.coe_max]
              exact WithTop.top_ne_coe
          | some u =>
              -- Either the new period starts where the old time ends, or that is over by `t₁`.
              simp only [grantedPeriod, hpaid] at hstart
              simp only [Tenant.horizon, hplan, hpaid, ← WithTop.coe_max, WithTop.coe_inj, iff_true]
              split at hstart <;> omega
      | trial =>
          cases hpaid : (b.ledger.tenants r.tenantId).paidUntil with
          | none =>
              simp only [grantedPeriod, hpaid] at hstart
              simp only [Tenant.horizon, hplan, ← WithTop.coe_max, WithTop.coe_inj]
              omega
          | some u =>
              simp only [grantedPeriod, hpaid] at hstart
              simp only [Tenant.horizon, hplan, ← WithTop.coe_max, WithTop.coe_inj]
              split at hstart <;> omega

/-- A workspace granted `pro` by hand pays, is refunded the same day, and is locked from then on. -/
theorem refund_locks_hand_granted :
    let b := exampleBooks ⟨.pro, 604800000, none⟩
    let paid := b.ledger.after (.activate 7 1 0)
    Reached b ∧ newPayment 1 7 .personal .payme 9900000 1 0 ∈ b.ledger.payments ∧
      (b.ledger.tenants 7).locked 1000 = false ∧
      ((paid.after (.cancel 7 1 (some 5) 1000)).tenants 7).locked 1000 = true := by
  refine ⟨reached_exampleBooks .pro 7 rfl, by simp [exampleBooks], ?_, ?_⟩
  · decide +kernel
  · decide +kernel

/-- Refunded when its trial is over, a workspace is where it would have been. -/
theorem refund_restores_first_trial :
    let b := exampleBooks ⟨.trial, 604800000, none⟩
    let b' := b.commit (.activate 7 1 0) (.granted 0 2678400000)
    ∀ instant, 604800000 ≤ instant →
      ((b'.ledger.after (.cancel 7 1 none 604800000)).tenants 7).locked instant =
        (b.ledger.tenants 7).locked instant := by
  intro b b'
  have hb : Reached b := reached_exampleBooks .trial 7 (by decide)
  have hr : newPayment 1 7 .personal .payme 9900000 1 0 ∈ b.ledger.payments := by
    simp [b, exampleBooks]
  have hstop : (grantedPeriod none 1 0).2 = some 2678400000 := by decide +kernel
  have hsettle : (Call.activate 7 1 0).settle (newPayment 1 7 .personal .payme 9900000 1 0)
      (b.ledger.tenants 7) = some (.granted 0 2678400000) := by
    show ((grantedPeriod none 1 0).2.map fun stop => Outcome.granted 0 stop) = _
    rw [hstop]
    rfl
  have hb' : Reached b' := hb.step (Books.Step.call b _ _ _ hr rfl hsettle)
  have hafter : b.ledger.after (.activate 7 1 0) = b'.ledger :=
    after_of_settle hb.granted.ids hr rfl hsettle
  have hsame : SameWorkspace 7 (b.ledger.after (.activate 7 1 0)) b'.ledger := by
    rw [hafter]
    exact ⟨rfl, fun _ _ => Iff.rfl⟩
  refine (refund_restores_access hb hb' hr rfl (show (0 : Int) ≤ 604800000 by decide) hsame).mpr ?_
  intro stop _
  show (604800000 : Int) ≤ 604800000
  decide

/-! ## Granting by hand -/

/-- The books later on, while no payment of the workspace is activated or cancelled and the script is
not run on it again.  Purchases go on, other workspaces pay and are refunded, and the script is run on
them. -/
inductive LeftAlone (t : Nat) (b : Books) : Books → Prop
  | refl : LeftAlone t b b
  | call {b' : Books} {c : Call} {out : Outcome} {r : Payment} (h : LeftAlone t b b')
      (hr : r ∈ b'.ledger.payments) (hclaim : c.claimable r = true)
      (hsettle : c.settle r (b'.ledger.tenants c.tenant) = some out) (hother : t ≠ c.tenant) :
      LeftAlone t b (b'.commit c out)
  | event {b' : Books} {e : Event} {L : Ledger} (h : LeftAlone t b b')
      (happly : e.apply b'.ledger = some L) : LeftAlone t b { b' with ledger := L }
  | setPlan {b' : Books} {t' : Nat} {plan : TenantPlan} {days now : Int} {tenant : Tenant}
      (h : LeftAlone t b b') (hother : t ≠ t')
      (hset : setPlan plan days now (b'.ledger.tenants t') = some tenant) :
      LeftAlone t b { b' with ledger :=
        { b'.ledger with tenants := Function.update b'.ledger.tenants t' tenant } }

/-- A workspace left alone has the row it had. -/
theorem LeftAlone.tenant {t : Nat} {b b' : Books} (h : LeftAlone t b b') :
    b'.ledger.tenants t = b.ledger.tenants t := by
  induction h with
  | refl => rfl
  | call h hr hclaim hsettle hother ih => exact (Call.commit_tenants_ne _ _ _ hother).trans ih
  | event h happly ih =>
      show Ledger.tenants _ t = _
      rw [(Event.apply_spec happly).tenants]
      exact ih
  | setPlan h hother hset ih => exact (Function.update_of_ne hother _ _).trans ih

/-- What a grant by hand writes: the plan, and nothing else. -/
theorem setPlan_pro {days now : Int} {t tenant : Tenant} (h : setPlan .pro days now t = some tenant) :
    tenant = { t with plan := .pro } := by
  unfold setPlan at h
  split at h
  · cases h
  · exact (Option.some.inj h).symm

/-- **A hand grant sticks**, exactly for a workspace with no paid time on record: left alone, it is then
open at every later instant. -/
theorem hand_grant_sticks_iff {b : Books} {t : Nat} {days now : Int} {tenant : Tenant}
    (hset : setPlan .pro days now (b.ledger.tenants t) = some tenant) :
    (∀ b', LeftAlone t { b with ledger :=
        { b.ledger with tenants := Function.update b.ledger.tenants t tenant } } b' →
      ∀ instant, now ≤ instant → (b'.ledger.tenants t).locked instant = false) ↔
      (b.ledger.tenants t).paidUntil = none := by
  have hrow : ∀ b', LeftAlone t { b with ledger :=
      { b.ledger with tenants := Function.update b.ledger.tenants t tenant } } b' →
      b'.ledger.tenants t = { b.ledger.tenants t with plan := .pro } := by
    intro b' hb'
    rw [hb'.tenant, ← setPlan_pro hset]
    exact Function.update_self _ _ _
  constructor
  · intro hopen
    by_contra hpaid
    obtain ⟨stop, hstop⟩ := Option.ne_none_iff_exists'.mp hpaid
    -- When the paid time of the former customer is over, the workspace is locked.
    have hhorizon : Tenant.horizon { b.ledger.tenants t with plan := .pro } = (stop : WithTop Int) :=
      horizon_of_paid rfl hstop
    have hlate := hopen _ .refl (max now stop) (le_max_left now stop)
    rw [hrow _ .refl, locked_eq_false_iff, hhorizon, WithTop.coe_lt_coe] at hlate
    exact absurd hlate (not_lt.mpr (le_max_right now stop))
  · intro hpaid b' hb' instant hinstant
    rw [hrow b' hb', locked_eq_false_iff]
    simp [Tenant.horizon, hpaid]

/-- A workspace that paid for its first month. -/
def formerCustomer : Books :=
  (exampleBooks ⟨.trial, 604800000, none⟩).commit (.activate 7 1 0) (.granted 0 2678400000)

theorem reached_formerCustomer : Reached formerCustomer := by
  have hb : Reached (exampleBooks ⟨.trial, 604800000, none⟩) :=
    reached_exampleBooks .trial 7 (by decide)
  have hr : newPayment 1 7 .personal .payme 9900000 1 0 ∈
      (exampleBooks ⟨.trial, 604800000, none⟩).ledger.payments := by
    simp [exampleBooks]
  have hstop : (grantedPeriod none 1 0).2 = some 2678400000 := by decide +kernel
  have hsettle : (Call.activate 7 1 0).settle (newPayment 1 7 .personal .payme 9900000 1 0)
      ((exampleBooks ⟨.trial, 604800000, none⟩).ledger.tenants 7) = some (.granted 0 2678400000) := by
    show ((grantedPeriod none 1 0).2.map fun stop => Outcome.granted 0 stop) = _
    rw [hstop]
    rfl
  exact hb.step (Books.Step.call _ _ _ _ hr rfl hsettle)

/-- The month is over, the workspace is granted `pro` by hand, and it is as locked as before. -/
theorem hand_grant_leaves_former_customer_locked :
    ∃ granted, Reached formerCustomer ∧
      setPlan .pro 7 2678400000 (formerCustomer.ledger.tenants 7) = some granted ∧
      granted.locked 2678400000 = true ∧ granted.locked 3000000000 = true := by
  refine ⟨⟨.pro, 604800000, some 2678400000⟩, reached_formerCustomer, ?_, ?_, ?_⟩
  · decide +kernel
  · decide +kernel
  · decide +kernel

/-- A workspace that is granted `pro` by hand on its first trial is open a year later. -/
theorem hand_grant_sticks_first_trial :
    setPlan .pro 7 0 ((exampleBooks ⟨.trial, 604800000, none⟩).ledger.tenants 7) =
      some ⟨.pro, 604800000, none⟩ ∧
    ((exampleBooks ⟨.pro, 604800000, none⟩).ledger.tenants 7).locked 31536000000 = false := by
  have hset : setPlan .pro 7 0 ((exampleBooks ⟨.trial, 604800000, none⟩).ledger.tenants 7) =
      some ⟨.pro, 604800000, none⟩ := by
    decide +kernel
  have hbooks : exampleBooks ⟨.pro, 604800000, none⟩ =
      { exampleBooks ⟨.trial, 604800000, none⟩ with ledger :=
        { (exampleBooks ⟨.trial, 604800000, none⟩).ledger with
          tenants := Function.update (exampleBooks ⟨.trial, 604800000, none⟩).ledger.tenants 7
            ⟨.pro, 604800000, none⟩ } } := by
    simp [exampleBooks]
  refine ⟨hset, ?_⟩
  rw [hbooks]
  exact (hand_grant_sticks_iff hset).mpr rfl _ LeftAlone.refl 31536000000 (by decide)

end ESignSoft.Billing
