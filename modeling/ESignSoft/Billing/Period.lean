import ESignSoft.Lib.JsDate

/-!
# What a completed payment buys

The arithmetic of a subscription: the price of a number of months and the period a payment grants.

* `addMonths_lt` — a period of at least one month ends after it starts, whatever the calendar date;
* `grantedPeriod_spec` — the period starts no earlier than the time already bought and is not empty.
-/

namespace ESignSoft.Billing

open ESignSoft.Lib.JsDate

inductive BillingPlan
  | personal
  | company
  deriving DecidableEq, Repr

/-- The price of one month, in tiyin. -/
def PLAN_PRICE_TIYIN : BillingPlan → Int
  | .personal => 9900000
  | .company => 29900000

/-- The longest single purchase. -/
def MAX_BILLING_MONTHS : Int := 12

/-- What `months` of a plan cost; `none` where the source throws. -/
def priceTiyin (plan : BillingPlan) (months : Int) : Option Int :=
  if months < 1 ∨ months > MAX_BILLING_MONTHS then none else some (PLAN_PRICE_TIYIN plan * months)

/-- Calendar months in UTC, clamped to the end of the target month.  `none` is the Invalid Date the
source's chain of setters ends in when one of them leaves the range of dates. -/
def addMonths (start : Int) (months : Int) : Option Int := do
  let dayOfMonth := getUTCDate start
  -- To the 1st before the month changes: on the 31st, changing the month first overflows.
  let shifted ← setUTCDate start 1
  let shifted ← setUTCMonth shifted (getUTCMonth shifted + months)
  -- Day 0 of the following month is the last day of this one.
  let last ← dateUTC (getUTCFullYear shifted) (getUTCMonth shifted + 1) 0
  setUTCDate shifted (min dayOfMonth (getUTCDate last))

/-- The period a completed payment grants: from where the paid time ends, or from now when it has
lapsed. -/
def grantedPeriod (paidUntil : Option Int) (months : Int) (now : Int) :
    Int × Option Int :=
  let start :=
    match paidUntil with
    | some until_ => if until_ > now then until_ else now
    | none => now
  (start, addMonths start months)

/-- Moving to the 1st stays in the month. -/
private theorem monthOfDay_setUTCDate_one {t t' : Int} (h : setUTCDate t 1 = some t') :
    day t' = monthStart (monthOfDay (day t)) ∧ monthOfDay (day t') = monthOfDay (day t) ∧
      getUTCDate t' = 1 := by
  obtain ⟨h0, h1⟩ := timeWithinDay_bounds t
  have hday : day t' = monthStart (monthOfDay (day t)) := by
    rw [timeClip_eq_some h, day_makeDate h0 h1, makeDay, year_month_of_month]
    omega
  have hmonth : monthOfDay (day t') = monthOfDay (day t) := by
    rw [monthOfDay_eq_iff, hday]
    exact ⟨le_refl _, monthStart_lt_succ _⟩
  refine ⟨hday, hmonth, ?_⟩
  unfold getUTCDate
  rw [hmonth, hday]
  omega

/-- From the 1st, moving by months lands on the 1st of the month that many later. -/
private theorem monthOfDay_setUTCMonth {t t' : Int} {months : Int} (hfirst : getUTCDate t = 1)
    (h : setUTCMonth t (getUTCMonth t + months) = some t') :
    monthOfDay (day t') = monthOfDay (day t) + months := by
  obtain ⟨h0, h1⟩ := timeWithinDay_bounds t
  have hyear := year_month_of_month t
  have hk : 12 * getUTCFullYear t + (getUTCMonth t + months) = monthOfDay (day t) + months := by omega
  rw [monthOfDay_eq_iff, timeClip_eq_some h, day_makeDate h0 h1, makeDay, hk, hfirst]
  have hnext := monthStart_lt_succ (monthOfDay (day t) + months)
  omega

/-- Setting a day of the month never goes back before the month starts. -/
private theorem monthStart_le_setUTCDate {t t' : Int} {date : Int} (hdate : 1 ≤ date)
    (h : setUTCDate t date = some t') : monthStart (monthOfDay (day t)) ≤ day t' := by
  obtain ⟨h0, h1⟩ := timeWithinDay_bounds t
  rw [timeClip_eq_some h, day_makeDate h0 h1, makeDay, year_month_of_month]
  omega

/-- **A later calendar month is later in time**, whichever day of the month is clamped. -/
theorem addMonths_lt {start stop : Int} {months : Int} (hmonths : 1 ≤ months)
    (h : addMonths start months = some stop) : start < stop := by
  simp only [addMonths, Option.bind_eq_bind, Option.bind_eq_some_iff] at h
  obtain ⟨first, hfirst, shifted, hshifted, last, -, hstop⟩ := h
  obtain ⟨-, hsame, hdate⟩ := monthOfDay_setUTCDate_one hfirst
  have hmoved : monthOfDay (day shifted) = monthOfDay (day start) + months := by
    rw [monthOfDay_setUTCMonth hdate hshifted, hsame]
  have hdays : 1 ≤ min (getUTCDate start) (getUTCDate last) :=
    le_min (getUTCDate_pos _) (getUTCDate_pos _)
  have hday : day start < day stop := calc
    day start < monthStart (monthOfDay (day start) + 1) := (monthStart_monthOfDay _).2
    _ ≤ monthStart (monthOfDay (day start) + months) :=
        monthStart_strictMono.monotone (by omega)
    _ = monthStart (monthOfDay (day shifted)) := by rw [hmoved]
    _ ≤ day stop := monthStart_le_setUTCDate hdays hstop
  unfold day msPerDay at hday
  omega

/-- Where a granted period starts, and that it is not empty. -/
theorem grantedPeriod_spec {paidUntil : Option Int} {months : Int} {now start stop : Int}
    (hmonths : 1 ≤ months) (h : grantedPeriod paidUntil months now = (start, some stop)) :
    now ≤ start ∧ (∀ u, paidUntil = some u → u ≤ start) ∧ start < stop := by
  obtain ⟨hstart, hstop⟩ := Prod.mk.inj h
  subst hstart
  refine ⟨?_, ?_, addMonths_lt hmonths hstop⟩
  · cases paidUntil with
    | none => exact le_refl _
    | some u =>
        simp only
        split <;> omega
  · rintro u rfl
    simp only
    split <;> omega

/-- 31 January plus one month is the last day of February, and two months restore the 31st. -/
example :
    addMonths (makeDate (makeDay 2027 0 31) 0) 1 = some (makeDate (makeDay 2027 1 28) 0) ∧
      addMonths (makeDate (makeDay 2027 0 31) 0) 2 = some (makeDate (makeDay 2027 2 31) 0) := by
  decide +kernel

end ESignSoft.Billing
