import ESignSoft.Billing.Renewals

/-!
# The calendar a purchase runs by

What `addMonths` hands out is read off the month it lands in: the day asked for or the last one there is,
at the time of day it started from.

* `addMonths_calendar` — the month, the day, the time of day, and the order of the results;
* `later_start_ends_earlier` — clamped to one day, a start of the day before at a later hour ends later.
-/

namespace ESignSoft.Billing

open ESignSoft.Lib.JsDate

/-! ## The last day of a month -/

/-- Only February can tell a leap year. -/
theorem monthLength_of_ne_one {m : Int} (h0 : 0 ≤ m) (h12 : m < 12) (hm : m ≠ 1) (leap leap' : Bool) :
    monthLength leap m = monthLength leap' m := by
  interval_cases m <;> first | contradiction | (cases leap <;> cases leap' <;> decide)

theorem leapYear_1900 {y : Int} (h0 : 0 < y) (h99 : y ≤ 99) : leapYear (1900 + y) = leapYear y := by
  rw [Bool.eq_iff_iff]
  simp only [leapYear, Bool.and_eq_true, beq_iff_eq, Bool.or_eq_true, bne_iff_ne]
  omega

/-- The day asked for is the last of the month, except for February of the year 0, which is taken for
that of 1900. -/
theorem lastDayOf_eq {k last : Int} (h : lastDayOf k = some last) (hk : k ≠ 1) :
    last = monthStart (k + 1) - monthStart k := by
  obtain ⟨t, ht, rfl⟩ := Option.map_eq_some_iff.mp h
  have hm0 : 0 ≤ k % 12 := by omega
  have hm12 : k % 12 < 12 := by omega
  have hsplit : 12 * (k / 12) + k % 12 = k := by omega
  have hlength := monthStart_succ_sub (y := k / 12) hm0 hm12
  rw [hsplit] at hlength
  unfold dateUTC at ht
  dsimp only at ht
  split at ht
  · -- A year up to 99 is taken for one of the twentieth century, which is a leap year alike unless it is 0.
    rename_i hyear
    obtain ⟨h0, h99⟩ := hyear
    have hmakeDay : makeDay (1900 + k / 12) (k % 12 + 1) 0 =
        monthStart (12 * (1900 + k / 12) + k % 12 + 1) - 1 := by
      rw [makeDay, ← add_assoc]
      omega
    rw [timeClip_eq_some ht, hmakeDay, getUTCDate_lastDay, monthStart_succ_sub hm0 hm12, hlength]
    by_cases hy : k / 12 = 0
    · exact monthLength_of_ne_one hm0 hm12 (by omega) _ _
    · rw [leapYear_1900 (by omega) h99]
  · have hmakeDay : makeDay (k / 12) (k % 12 + 1) 0 = monthStart (k + 1) - 1 := by
      rw [makeDay, ← add_assoc, hsplit]
      omega
    rw [timeClip_eq_some ht, hmakeDay, getUTCDate_lastDay]

/-- A month has a last day when that day is a date. -/
theorem exists_lastDayOf {k : Int} (hmin : -maxTime ≤ makeDate (monthStart (k + 1) - 1) 0)
    (hmax : makeDate (monthStart (k + 1) - 1) 0 ≤ maxTime) : ∃ last, lastDayOf k = some last := by
  have hclip : ∃ t, dateUTC (k / 12) (k % 12 + 1) 0 = some t := by
    unfold dateUTC
    dsimp only
    split
    · -- The twentieth century is far from both ends of the range.
      rename_i hyear
      have hearly : monthStart (12 * 1900) ≤ monthStart (12 * (1900 + k / 12) + (k % 12 + 1)) :=
        monthStart_strictMono.monotone (by omega)
      have hlate : monthStart (12 * (1900 + k / 12) + (k % 12 + 1)) ≤ monthStart (12 * 2000) :=
        monthStart_strictMono.monotone (by omega)
      have h1900 : -100000 ≤ monthStart (12 * 1900) := by decide
      have h2000 : monthStart (12 * 2000) ≤ 100000 := by decide
      refine ⟨_, if_pos ⟨?_, ?_⟩⟩
      · unfold makeDay makeDate msPerDay maxTime
        omega
      · unfold makeDay makeDate msPerDay maxTime
        omega
    · have hmakeDay : makeDay (k / 12) (k % 12 + 1) 0 = monthStart (k + 1) - 1 := by
        have hsplit : 12 * (k / 12) + (k % 12 + 1) = k + 1 := by omega
        rw [makeDay, hsplit]
        omega
      rw [hmakeDay]
      exact ⟨_, if_pos ⟨hmin, hmax⟩⟩
  obtain ⟨t, ht⟩ := hclip
  exact ⟨getUTCDate t, by rw [lastDayOf, ht, Option.map_some]⟩

/-! ## Where a purchase ends -/

/-- The first of the month an instant lies in, at its time of day, is a date. -/
def BeginsInRange (t : Int) : Prop := -maxTime ≤ makeDate (monthStart (monthOf t)) (timeWithinDay t)

/-- The last day of a month is a date. -/
def EndsInRange (k : Int) : Prop := makeDate (monthStart (k + 1) - 1) 0 ≤ maxTime

theorem exists_addMonths {start months : Int} (hmonths : 1 ≤ months) (hbegins : BeginsInRange start)
    (hends : EndsInRange (monthOf start + months)) : ∃ stop, addMonths start months = some stop := by
  unfold BeginsInRange at hbegins
  unfold EndsInRange at hends
  obtain ⟨h0, hday⟩ := timeWithinDay_bounds start
  have hmono : monthStart (monthOf start + 1) ≤ monthStart (monthOf start + months) :=
    monthStart_strictMono.monotone (by omega)
  have hlen := monthStart_succ_bounds (monthOf start)
  have hlen' := monthStart_succ_bounds (monthOf start + months)
  -- The setters pass through the first of the month, so that it has to be a date as well.
  have hfirst : ∃ first, onDay start (monthOf start) 1 = some first := by
    refine ⟨_, if_pos ⟨?_, ?_⟩⟩
    · rwa [add_sub_cancel_right]
    · unfold makeDate msPerDay at *
      omega
  obtain ⟨first, hfirst⟩ := hfirst
  obtain ⟨last, hlast⟩ := exists_lastDayOf (k := monthOf start + months)
    (by unfold makeDate msPerDay at *; omega) hends
  obtain ⟨hlast1, -, -⟩ := lastDayOf_spec hlast
  obtain ⟨shifted, hshifted⟩ := exists_onDay hfirst (by omega) hlast (le_refl 1) hlast1
  obtain ⟨stop, hstop⟩ := exists_onDay hfirst (by omega) hlast
    (le_min (getUTCDate_pos start) hlast1) (min_le_right (getUTCDate start) last)
  refine ⟨stop, ?_⟩
  rw [addMonths_eq hfirst, hshifted, Option.bind_some, hlast, Option.bind_some, hstop]

theorem addMonths_spec {start stop months : Int} (h : addMonths start months = some stop) :
    ∃ last, lastDayOf (monthOf start + months) = some last ∧ monthOf stop = monthOf start + months ∧
      getUTCDate stop = min (getUTCDate start) last ∧ timeWithinDay stop = timeWithinDay start := by
  obtain ⟨first, shifted, last, -, -, hlast, hstop⟩ := addMonths_inv h
  obtain ⟨hlast1, hlen, -⟩ := lastDayOf_spec hlast
  have hdate1 := getUTCDate_pos start
  obtain ⟨hmonth, hdate, htime⟩ := onDay_spec hstop (le_min hdate1 hlast1) (by omega)
  exact ⟨last, hlast, hmonth, hdate, htime⟩

theorem day_eq (t : Int) : day t = monthStart (monthOf t) + getUTCDate t - 1 := by
  rw [getUTCDate, monthOf]
  omega

theorem lt_of_monthOf_lt {t t' : Int} (h : monthOf t < monthOf t') : day t < day t' := calc
  day t < monthStart (monthOf t + 1) := (monthStart_monthOfDay _).2
  _ ≤ monthStart (monthOf t') := monthStart_strictMono.monotone (by omega)
  _ ≤ day t' := (monthStart_monthOfDay _).1

/-- A later start does not end on an earlier day. -/
theorem day_addMonths_mono {start start' stop stop' months : Int} (hle : start ≤ start')
    (h : addMonths start months = some stop) (h' : addMonths start' months = some stop') :
    day stop ≤ day stop' := by
  obtain ⟨last, hlast, hmonth, hdate, -⟩ := addMonths_spec h
  obtain ⟨last', hlast', hmonth', hdate', -⟩ := addMonths_spec h'
  have hday : day start ≤ day start' := Int.ediv_le_ediv (by decide) hle
  rcases lt_trichotomy (monthOf start) (monthOf start') with hlt | heq | hgt
  · exact le_of_lt (lt_of_monthOf_lt (by omega))
  · -- In one month the day that is clamped is no earlier, and the clamp is the same.
    rw [heq] at hlast hmonth
    obtain rfl : last = last' := Option.some.inj (hlast.symm.trans hlast')
    have hstart := day_eq start
    have hstart' := day_eq start'
    rw [heq] at hstart
    rw [day_eq stop, day_eq stop', hmonth, hmonth', hdate, hdate']
    omega
  · -- A later instant does not lie in an earlier month.
    have hback := lt_of_monthOf_lt hgt
    omega

/-- **Months are added by the calendar.**  From an instant whose month begins in the range of dates into a
month that ends in it, the purchase ends that many months later, on the day it started or the last one of
the month, at the same time of day; later than it started, later than any for fewer months, and, for a
later start, on no earlier day, so no earlier at all unless the hour is. -/
theorem addMonths_calendar {start months : Int} (hmonths : 1 ≤ months) (hbegins : BeginsInRange start)
    (hends : EndsInRange (monthOf start + months)) :
    ∃ stop, addMonths start months = some stop ∧
      monthOf stop = monthOf start + months ∧
      (monthOf stop ≠ 1 →
        getUTCDate stop = min (getUTCDate start) (monthStart (monthOf stop + 1) - monthStart (monthOf stop))) ∧
      timeWithinDay stop = timeWithinDay start ∧
      start < stop ∧
      (∀ more stop', months < more → addMonths start more = some stop' → stop < stop') ∧
      ∀ start' stop', start ≤ start' → addMonths start' months = some stop' →
        day stop ≤ day stop' ∧ (timeWithinDay start ≤ timeWithinDay start' → stop ≤ stop') := by
  obtain ⟨stop, hstop⟩ := exists_addMonths hmonths hbegins hends
  obtain ⟨last, hlast, hmonth, hdate, htime⟩ := addMonths_spec hstop
  refine ⟨stop, hstop, hmonth, fun hne => ?_, htime, addMonths_lt hmonths hstop, ?_, ?_⟩
  · rw [hdate, hmonth, lastDayOf_eq hlast (by rwa [← hmonth])]
  · intro more stop' hmore hstop'
    obtain ⟨-, -, hmonth', -, -⟩ := addMonths_spec hstop'
    have hday : day stop < day stop' := lt_of_monthOf_lt (by omega)
    unfold day msPerDay at hday
    omega
  · intro start' stop' hle hstop'
    obtain ⟨-, -, -, -, htime'⟩ := addMonths_spec hstop'
    have hday := day_addMonths_mono hle hstop hstop'
    refine ⟨hday, fun hhour => ?_⟩
    rw [← htime, ← htime'] at hhour
    unfold day timeWithinDay msPerDay at *
    omega

/-- From 31 January 2028 to the 29th of a leap year's February. -/
theorem addMonths_calendar_leap :
    ∃ stop, addMonths (makeDate (makeDay 2028 0 31) 0) 1 = some stop ∧ getUTCDate stop = 29 := by
  have hbegins : BeginsInRange (makeDate (makeDay 2028 0 31) 0) := by
    unfold BeginsInRange
    decide +kernel
  have hends : EndsInRange (monthOf (makeDate (makeDay 2028 0 31) 0) + 1) := by
    unfold EndsInRange
    decide +kernel
  obtain ⟨stop, hstop, hmonth, hdate, -⟩ := addMonths_calendar le_rfl hbegins hends
  have hjanuary : monthOf (makeDate (makeDay 2028 0 31) 0) = 24336 := by decide +kernel
  rw [hjanuary] at hmonth
  rw [hmonth] at hdate
  exact ⟨stop, hstop, by rw [hdate (by decide)]; decide +kernel⟩

/-- Noon of 30 January comes before midnight of the 31st, and a month from it comes after.  And at either end
of the range there are dates a month apart where the later one is not found: the setters pass through the
first of the month, and ask for the last. -/
theorem later_start_ends_earlier :
    (¬ ∀ start start' stop stop' months : Int, 1 ≤ months → start ≤ start' →
      addMonths start months = some stop → addMonths start' months = some stop' → stop ≤ stop') ∧
    (addMonths (makeDate (makeDay (-271821) 3 20) 0) 1 = none ∧
      timeClip (makeDate (makeDay (-271821) 3 20) 0) ≠ none ∧
      timeClip (makeDate (makeDay (-271821) 4 20) 0) ≠ none) ∧
    addMonths (makeDate (makeDay 275760 7 2) 0) 1 = none ∧
      timeClip (makeDate (makeDay 275760 8 2) 0) ≠ none := by
  refine ⟨fun h => ?_, ⟨?_, ?_, ?_⟩, ?_, ?_⟩
  · have hlater := h (makeDate (makeDay 2027 0 30) 43200000) (makeDate (makeDay 2027 0 31) 0)
      (makeDate (makeDay 2027 1 28) 43200000) (makeDate (makeDay 2027 1 28) 0) 1 (by decide) (by decide)
      (by decide +kernel) (by decide +kernel)
    exact absurd hlater (by decide)
  all_goals decide +kernel

end ESignSoft.Billing
