import ESignSoft.Billing.Period

/-!
# Renewing month by month

A period bought while one is still running starts where that one ends, so a chain of purchases is a
chain of `addMonths`.  Each link clamps the day of the month it is handed, and what it is handed is
what the link before it has clamped.

* `addMonths_eq` — months are added to the first of the month and the day is put back last;
* `renewal_eq_iff` — two purchases in a row end where one of all the months does exactly when the
  clamp of the first one cannot be seen in the result.
-/

namespace ESignSoft.Billing

open ESignSoft.Lib.JsDate

/-- The calendar month an instant lies in, numbered consecutively. -/
def monthOf (t : Int) : Int := monthOfDay (day t)

/-- The last day of month `k` as `addMonths` asks for it: day 0 of the month after.  `none` where that
day is past the last date. -/
def lastDayOf (k : Int) : Option Int := (dateUTC (k / 12) (k % 12 + 1) 0).map getUTCDate

/-- Day `date` of month `k`, at the time of day of `t`. -/
def onDay (t k date : Int) : Option Int :=
  timeClip (makeDate (monthStart k + date - 1) (timeWithinDay t))

/-! ## The setters, on months numbered consecutively -/

theorem setUTCDate_eq (t date : Int) : setUTCDate t date = onDay t (monthOf t) date := by
  unfold setUTCDate makeDay
  rw [year_month_of_month]
  rfl

theorem setUTCMonth_eq (t months : Int) :
    setUTCMonth t (getUTCMonth t + months) = onDay t (monthOf t + months) (getUTCDate t) := by
  have hyear := year_month_of_month t
  have hk : 12 * getUTCFullYear t + (getUTCMonth t + months) = monthOf t + months := by
    rw [monthOf]
    omega
  unfold setUTCMonth makeDay
  rw [hk]
  rfl

theorem timeWithinDay_makeDate {d time : Int} (h0 : 0 ≤ time) (h1 : time < msPerDay) :
    timeWithinDay (makeDate d time) = time := by
  unfold timeWithinDay makeDate msPerDay at *
  omega

/-- A date that exists in the month is the date one reads back. -/
theorem onDay_spec {t t' k date : Int} (h : onDay t k date = some t') (h1 : 1 ≤ date)
    (hlast : date ≤ monthStart (k + 1) - monthStart k) :
    monthOf t' = k ∧ getUTCDate t' = date ∧ timeWithinDay t' = timeWithinDay t := by
  obtain ⟨h0, hday⟩ := timeWithinDay_bounds t
  have ht' := timeClip_eq_some h
  have hdayOf : day t' = monthStart k + date - 1 := by
    rw [ht', day_makeDate h0 hday]
  have hmonth : monthOf t' = k := by
    rw [monthOf, monthOfDay_eq_iff, hdayOf]
    omega
  refine ⟨hmonth, ?_, ?_⟩
  · rw [monthOf] at hmonth
    rw [getUTCDate, hmonth, hdayOf]
    omega
  · rw [ht', timeWithinDay_makeDate h0 hday]

theorem onDay_congr {t t' : Int} (h : timeWithinDay t' = timeWithinDay t) (k date : Int) :
    onDay t' k date = onDay t k date := by
  rw [onDay, h, onDay]

/-! ## The last day of a month -/

/-- The length of a month of a year that is a leap year or not. -/
def monthLength (leap : Bool) (month : Int) : Int :=
  (if month = 11 then 365 + (leap.toNat : Int) else daysBeforeMonth leap (month + 1)) -
    daysBeforeMonth leap month

theorem monthStart_succ_sub {y m : Int} (h0 : 0 ≤ m) (h12 : m < 12) :
    monthStart (12 * y + m + 1) - monthStart (12 * y + m) = monthLength (leapYear y) m := by
  have hq : (12 * y + m) / 12 = y := by omega
  have hr : (12 * y + m) % 12 = m := by omega
  unfold monthLength
  split
  · rename_i hlast
    have hnext : 12 * y + m + 1 = 12 * (y + 1) := by omega
    rw [hnext, monthStart_mul, dayFromYear_succ, monthStart, hq, hr]
    omega
  · have hq' : (12 * y + m + 1) / 12 = y := by omega
    have hr' : (12 * y + m + 1) % 12 = m + 1 := by omega
    unfold monthStart
    rw [hq, hr, hq', hr']
    omega

theorem monthLength_mono {leap leap' : Bool} (h : leap = true → leap' = true) {m : Int} (h0 : 0 ≤ m)
    (h12 : m < 12) : monthLength leap m ≤ monthLength leap' m := by
  interval_cases m <;> cases leap <;> cases leap' <;> first | decide | simp at h

theorem leapYear_of_1900 {y : Int} (h0 : 0 ≤ y) (h99 : y ≤ 99) (h : leapYear (1900 + y) = true) :
    leapYear y = true := by
  simp only [leapYear, Bool.and_eq_true, beq_iff_eq, Bool.or_eq_true, bne_iff_ne] at h ⊢
  omega

/-- `Date.UTC` reads a year from 0 to 99 as one of the twentieth century, where no month is longer. -/
theorem monthLength_1900 {y m : Int} (h0 : 0 ≤ y) (h99 : y ≤ 99) (hm0 : 0 ≤ m) (hm12 : m < 12) :
    monthStart (12 * (1900 + y) + m + 1) - monthStart (12 * (1900 + y) + m) ≤
      monthStart (12 * y + m + 1) - monthStart (12 * y + m) := by
  rw [monthStart_succ_sub hm0 hm12, monthStart_succ_sub hm0 hm12]
  exact monthLength_mono (leapYear_of_1900 h0 h99) hm0 hm12

/-- Midnight of the last day of a month reads back as the number of its days. -/
theorem getUTCDate_lastDay (k : Int) :
    getUTCDate (makeDate (monthStart (k + 1) - 1) 0) = monthStart (k + 1) - monthStart k := by
  have hday : day (makeDate (monthStart (k + 1) - 1) 0) = monthStart (k + 1) - 1 :=
    day_makeDate (le_refl 0) (by decide)
  have hlt := monthStart_lt_succ k
  have hmonth : monthOfDay (monthStart (k + 1) - 1) = k := by
    rw [monthOfDay_eq_iff]
    omega
  rw [getUTCDate, hday, hmonth]
  omega

/-- The last date is no last day of a month. -/
theorem lastDay_ne_maxDay (k : Int) : monthStart (k + 1) - 1 ≠ 100000000 := by
  intro h
  have hmonth : monthOfDay 100000000 = k := by
    have hlt := monthStart_lt_succ k
    rw [monthOfDay_eq_iff]
    omega
  have hk : k = 12 * 275760 + 8 := by
    rw [← hmonth, monthOfDay_eq_iff]
    decide
  rw [hk] at h
  exact absurd h (by decide)

/-- The day asked for is a day of the month, and it is over before the last date. -/
theorem lastDayOf_spec {k last : Int} (h : lastDayOf k = some last) :
    1 ≤ last ∧ last ≤ monthStart (k + 1) - monthStart k ∧ monthStart k + last ≤ 100000000 := by
  obtain ⟨t, ht, rfl⟩ := Option.map_eq_some_iff.mp h
  refine ⟨getUTCDate_pos t, ?_⟩
  have hk : 12 * (k / 12) + k % 12 = k := by omega
  have hm0 : 0 ≤ k % 12 := by omega
  have hm12 : k % 12 < 12 := by omega
  unfold dateUTC at ht
  dsimp only at ht
  split at ht
  · rename_i hyear
    obtain ⟨h0, h99⟩ := hyear
    have hmakeDay : makeDay (1900 + k / 12) (k % 12 + 1) 0 =
        monthStart (12 * (1900 + k / 12) + k % 12 + 1) - 1 := by
      rw [makeDay, ← add_assoc]
      omega
    have hle := monthLength_1900 h0 h99 hm0 hm12
    rw [hk] at hle
    have hdate : getUTCDate t ≤ monthStart (k + 1) - monthStart k := by
      rw [timeClip_eq_some ht, hmakeDay, getUTCDate_lastDay]
      exact hle
    have hearly : monthStart (k + 1) ≤ monthStart 1200 :=
      monthStart_strictMono.monotone (by omega)
    have h1200 : monthStart 1200 ≤ 100000000 := by decide
    omega
  · have hmakeDay : makeDay (k / 12) (k % 12 + 1) 0 = monthStart (k + 1) - 1 := by
      rw [makeDay, ← add_assoc, hk]
      omega
    rw [hmakeDay] at ht
    have hrange : makeDate (monthStart (k + 1) - 1) 0 ≤ maxTime := by
      unfold timeClip at ht
      split at ht
      · exact (‹_ ∧ _›).2
      · cases ht
    have hne := lastDay_ne_maxDay k
    have hdate : getUTCDate t = monthStart (k + 1) - monthStart k := by
      rw [timeClip_eq_some ht, getUTCDate_lastDay]
    unfold makeDate msPerDay maxTime at hrange
    omega

/-! ## Adding months -/

/-- Months are added to the first of the month; the day, clamped, is put back last. -/
theorem addMonths_eq {start first : Int} (h : onDay start (monthOf start) 1 = some first) (months : Int) :
    addMonths start months =
      (onDay start (monthOf start + months) 1).bind fun _ =>
        (lastDayOf (monthOf start + months)).bind fun last =>
          onDay start (monthOf start + months) (min (getUTCDate start) last) := by
  have hlen := monthStart_lt_succ (monthOf start)
  obtain ⟨hmonth, hdate, htime⟩ := onDay_spec h (le_refl 1) (by omega)
  simp only [addMonths, setUTCDate_eq, h, Option.bind_eq_bind, Option.bind_some, setUTCMonth_eq, hmonth,
    hdate, onDay_congr htime]
  cases hshifted : onDay start (monthOf start + months) 1 with
  | none => rfl
  | some shifted =>
      have hlen' := monthStart_lt_succ (monthOf start + months)
      obtain ⟨hmonth', -, htime'⟩ := onDay_spec hshifted (le_refl 1) (by omega)
      have hlast : (dateUTC (getUTCFullYear shifted) (getUTCMonth shifted + 1) 0).map getUTCDate =
          lastDayOf (monthOf start + months) := by
        rw [← hmonth']
        rfl
      rw [← hlast]
      simp only [Option.bind_some, hmonth', onDay_congr htime']
      cases dateUTC (getUTCFullYear shifted) (getUTCMonth shifted + 1) 0 with
      | none => rfl
      | some last => rfl

/-- Once a month has a last day, every day up to it can be reached from an earlier month. -/
theorem exists_onDay {t t' j k last date : Int} (hfrom : onDay t j 1 = some t') (hjk : j ≤ k)
    (hlast : lastDayOf k = some last) (h1 : 1 ≤ date) (hdate : date ≤ last) :
    ∃ u, onDay t k date = some u := by
  obtain ⟨-, -, hmax⟩ := lastDayOf_spec hlast
  obtain ⟨h0, hday⟩ := timeWithinDay_bounds t
  have hmono : monthStart j ≤ monthStart k := monthStart_strictMono.monotone hjk
  have hmin : -maxTime ≤ makeDate (monthStart j + 1 - 1) (timeWithinDay t) := by
    unfold onDay timeClip at hfrom
    split at hfrom
    · exact (‹_ ∧ _›).1
    · cases hfrom
  refine ⟨_, if_pos ⟨?_, ?_⟩⟩
  · unfold makeDate msPerDay at *
    omega
  · unfold makeDate msPerDay maxTime at *
    omega

/-- Two days of one month are one date exactly when they are one day. -/
theorem onDay_inj {t k date date' u : Int} (h : onDay t k date = some u) :
    onDay t k date = onDay t k date' ↔ date = date' := by
  constructor
  · intro heq
    have h1 := timeClip_eq_some h
    have h2 := timeClip_eq_some (heq.symm.trans h)
    rw [h1] at h2
    unfold makeDate msPerDay at h2
    omega
  · rintro rfl
    rfl

/-- What a purchase of at least one month that ends on a date has gone through. -/
theorem addMonths_inv {start stop months : Int} (h : addMonths start months = some stop) :
    ∃ first shifted last, onDay start (monthOf start) 1 = some first ∧
      onDay start (monthOf start + months) 1 = some shifted ∧
      lastDayOf (monthOf start + months) = some last ∧
      onDay start (monthOf start + months) (min (getUTCDate start) last) = some stop := by
  have hfirst : ∃ first, onDay start (monthOf start) 1 = some first := by
    simp only [addMonths, Option.bind_eq_bind, Option.bind_eq_some_iff] at h
    obtain ⟨first, hfirst, -⟩ := h
    exact ⟨first, setUTCDate_eq start 1 ▸ hfirst⟩
  obtain ⟨first, hfirst⟩ := hfirst
  rw [addMonths_eq hfirst, Option.bind_eq_some_iff] at h
  obtain ⟨shifted, hshifted, h⟩ := h
  obtain ⟨last, hlast, hstop⟩ := Option.bind_eq_some_iff.mp h
  exact ⟨first, shifted, last, hfirst, hshifted, hlast, hstop⟩

/-! ## Two purchases in a row -/

/-- The day of the month `start` has is a day of the month `a` later, or the month another `b` later is
no longer than that one. -/
def ClampUnseen (start a b : Int) : Prop :=
  ∀ last last', lastDayOf (monthOf start + a) = some last →
    lastDayOf (monthOf start + a + b) = some last' → getUTCDate start ≤ last ∨ last' ≤ last

theorem addMonths_addMonths_iff {start stop a b : Int} (hb : 1 ≤ b) (h : addMonths start a = some stop) :
    addMonths stop b = addMonths start (a + b) ↔ ClampUnseen start a b := by
  obtain ⟨first, shifted, last, hfirst, hshifted, hlast, hstop⟩ := addMonths_inv h
  obtain ⟨hlast1, hlastLen, -⟩ := lastDayOf_spec hlast
  have hdate1 := getUTCDate_pos start
  obtain ⟨hmonth, hdate, htime⟩ := onDay_spec hstop (le_min hdate1 hlast1) (by omega)
  have hfirstStop : onDay stop (monthOf stop) 1 = some shifted := by
    rw [hmonth, onDay_congr htime, hshifted]
  rw [addMonths_eq hfirstStop, addMonths_eq hfirst, hmonth, hdate, ← add_assoc]
  simp only [onDay_congr htime]
  cases hlast' : lastDayOf (monthOf start + a + b) with
  | none =>
      -- Both run out of the range of dates.
      simp [ClampUnseen, hlast', Option.bind_fun_none]
  | some last' =>
      obtain ⟨hlast1', -, -⟩ := lastDayOf_spec hlast'
      obtain ⟨moved, hmoved⟩ := exists_onDay hshifted (by omega) hlast' (le_refl 1) hlast1'
      obtain ⟨u, hu⟩ := exists_onDay hshifted (by omega) hlast'
        (le_min (le_min hdate1 hlast1) hlast1') (min_le_right (min (getUTCDate start) last) last')
      simp only [hmoved, Option.bind_some]
      rw [onDay_inj hu]
      constructor
      · intro hmin l l' hl hl'
        rw [hlast] at hl
        rw [hlast'] at hl'
        cases hl
        cases hl'
        omega
      · intro hunseen
        have hcases := hunseen last last' hlast hlast'
        omega

/-- **Renewing before the end adds up exactly when the clamp cannot be seen**: `a` months and then `b`
end where `a + b` bought at once do. -/
theorem renewal_eq_iff (paidUntil : Option Int) {now start stop later a b : Int} (hb : 1 ≤ b)
    (hbought : grantedPeriod paidUntil a now = (start, some stop)) (hlater : later < stop) :
    (grantedPeriod (some stop) b later).2 = (grantedPeriod paidUntil (a + b) now).2 ↔
      ClampUnseen start a b := by
  obtain ⟨hstart, hstop⟩ := Prod.mk.inj hbought
  have hrenewed : (grantedPeriod (some stop) b later).2 = addMonths stop b := by
    simp [grantedPeriod, hlater]
  have hatOnce : (grantedPeriod paidUntil (a + b) now).2 = addMonths start (a + b) := by
    rw [← hstart]
    rfl
  rw [hrenewed, hatOnce]
  exact addMonths_addMonths_iff hb (by rw [← hstart]; exact hstop)

/-- From the 15th the clamp is never seen. -/
theorem renewal_eq_iff_mid :
    (grantedPeriod (some (makeDate (makeDay 2027 1 15) 0)) 1 (makeDate (makeDay 2027 1 1) 0)).2 =
        (grantedPeriod none (1 + 1) (makeDate (makeDay 2027 0 15) 0)).2 ↔
      ClampUnseen (makeDate (makeDay 2027 0 15) 0) 1 1 :=
  renewal_eq_iff none (by decide) (by decide +kernel) (by decide +kernel)

/-- Bought on 31 January for a month and renewed for another, the period ends on 28 March; two months
bought at once end on the 31st. -/
theorem renewal_sticks_at_28 :
    ¬ ∀ (paidUntil : Option Int) (now start stop later a b : Int), 1 ≤ a → 1 ≤ b →
      grantedPeriod paidUntil a now = (start, some stop) → later < stop →
        (grantedPeriod (some stop) b later).2 = (grantedPeriod paidUntil (a + b) now).2 := by
  intro h
  have hchain := h none (makeDate (makeDay 2027 0 31) 0) (makeDate (makeDay 2027 0 31) 0)
    (makeDate (makeDay 2027 1 28) 0) (makeDate (makeDay 2027 1 1) 0) 1 1 (by decide) (by decide)
    (by decide +kernel) (by decide +kernel)
  exact absurd hchain (by decide +kernel)

end ESignSoft.Billing
