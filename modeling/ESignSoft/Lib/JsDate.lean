import ESignSoft.Lib.JsText
import Mathlib.Data.Nat.Find
import Mathlib.Data.Int.ConditionallyCompleteOrder
import Mathlib.Data.Int.Interval
import Mathlib.Order.Monotone.Basic
import Mathlib.Algebra.Order.Ring.Int
import Mathlib.Tactic.IntervalCases

/-!
# UTC dates as ECMAScript computes them

A time value is a number of milliseconds since 1 January 1970, UTC.  Months are numbered
consecutively, `12 * year + month` with January as `0`, so that moving by calendar months is addition
and `Date`'s own `floor(month / 12)` and `month mod 12` are integer division and remainder.

* `monthStart_strictMono` — later months start on later days;
* `monthStart_monthOfDay` — the month a day is said to lie in contains it;
* `monthOfDay_eq_iff` — and is the only one that does;
* `toISOString_inj` — the ISO form of a date tells it from every other.

Setters answer `Option`: `none` is the Invalid Date a result outside the representable range becomes.
-/

namespace ESignSoft.Lib.JsDate

def msPerDay : Int := 86400000

/-- The largest time value a `Date` can hold. -/
def maxTime : Int := 8640000000000000

/-- `TimeClip`: a value out of range is the Invalid Date. -/
def timeClip (t : Int) : Option Int :=
  if -maxTime ≤ t ∧ t ≤ maxTime then some t else none

/-- `Day(t)`. -/
def day (t : Int) : Int := t / msPerDay

/-- `TimeWithinDay(t)`. -/
def timeWithinDay (t : Int) : Int := t % msPerDay

/-! ## The calendar -/

def leapYear (y : Int) : Bool := y % 4 == 0 && (y % 100 != 0 || y % 400 == 0)

/-- `DayFromYear(y)`: the day number of 1 January. -/
def dayFromYear (y : Int) : Int :=
  365 * (y - 1970) + (y - 1969) / 4 - (y - 1901) / 100 + (y - 1601) / 400

/-- How many days of the year precede a month of it. -/
def daysBeforeMonth (leap : Bool) (month : Int) : Int :=
  match month with
  | 0 => 0
  | 1 => 31
  | 2 => 59 + leap.toNat
  | 3 => 90 + leap.toNat
  | 4 => 120 + leap.toNat
  | 5 => 151 + leap.toNat
  | 6 => 181 + leap.toNat
  | 7 => 212 + leap.toNat
  | 8 => 243 + leap.toNat
  | 9 => 273 + leap.toNat
  | 10 => 304 + leap.toNat
  | _ => 334 + leap.toNat

/-- The day number of the first day of month `k`. -/
def monthStart (k : Int) : Int := dayFromYear (k / 12) + daysBeforeMonth (leapYear (k / 12)) (k % 12)

theorem dayFromYear_succ (y : Int) :
    dayFromYear (y + 1) = dayFromYear y + (365 + ((leapYear y).toNat : Int)) := by
  unfold dayFromYear
  by_cases h4 : y % 4 = 0
  · by_cases h100 : y % 100 = 0
    · by_cases h400 : y % 400 = 0
      · have hleap : leapYear y = true := by simp [leapYear, h4, h400]
        simp only [hleap, Bool.toNat_true]
        omega
      · have hleap : leapYear y = false := by simp [leapYear, h100, h400]
        simp only [hleap, Bool.toNat_false]
        omega
    · have hleap : leapYear y = true := by simp [leapYear, h4, h100]
      simp only [hleap, Bool.toNat_true]
      omega
  · have hleap : leapYear y = false := by simp [leapYear, h4]
    simp only [hleap, Bool.toNat_false]
    omega

/-- Four hundred years are a whole number of days: the calendar repeats. -/
theorem dayFromYear_add_era (y e : Int) : dayFromYear (y + 400 * e) = dayFromYear y + 146097 * e := by
  unfold dayFromYear
  omega

theorem monthStart_mul (y : Int) : monthStart (12 * y) = dayFromYear y := by
  have hq : 12 * y / 12 = y := by omega
  have hr : 12 * y % 12 = 0 := by omega
  simp [monthStart, hq, hr, daysBeforeMonth]

/-- January to November, inside one year. -/
private theorem daysBeforeMonth_succ_bounds (leap : Bool) {m : Int} (h0 : 0 ≤ m) (h11 : m < 11) :
    daysBeforeMonth leap m + 28 ≤ daysBeforeMonth leap (m + 1) ∧
      daysBeforeMonth leap (m + 1) ≤ daysBeforeMonth leap m + 31 := by
  interval_cases m <;> cases leap <;> decide

/-- Every month is between 28 and 31 days long. -/
theorem monthStart_succ_bounds (k : Int) :
    monthStart k + 28 ≤ monthStart (k + 1) ∧ monthStart (k + 1) ≤ monthStart k + 31 := by
  obtain ⟨y, m, hm0, hm12, rfl⟩ : ∃ y m : Int, 0 ≤ m ∧ m < 12 ∧ k = 12 * y + m :=
    ⟨k / 12, k % 12, by omega, by omega, by omega⟩
  have hq : (12 * y + m) / 12 = y := by omega
  have hr : (12 * y + m) % 12 = m := by omega
  by_cases hlast : m = 11
  · -- December: the next month opens the following year.
    have hnext : 12 * y + m + 1 = 12 * (y + 1) := by omega
    rw [hnext, monthStart_mul, dayFromYear_succ]
    subst hlast
    simp only [monthStart, hq, hr, daysBeforeMonth]
    omega
  · have hq' : (12 * y + m + 1) / 12 = y := by omega
    have hr' : (12 * y + m + 1) % 12 = m + 1 := by omega
    unfold monthStart
    rw [hq, hr, hq', hr']
    have hdays := daysBeforeMonth_succ_bounds (leapYear y) hm0 (by omega : m < 11)
    omega

theorem monthStart_lt_succ (k : Int) : monthStart k < monthStart (k + 1) := by
  have h := (monthStart_succ_bounds k).1
  omega

/-- **Later months start on later days.** -/
theorem monthStart_strictMono : StrictMono monthStart :=
  strictMono_int_of_lt_succ monthStart_lt_succ

/-- `MakeDay(year, month, date)`; a month outside `0..11` runs over into other years. -/
def makeDay (year month date : Int) : Int := monthStart (12 * year + month) + date - 1

/-- `MakeDate(day, time)`. -/
def makeDate (day time : Int) : Int := day * msPerDay + time

/-- Which 400-year era a day lies in, counted from the year 0. -/
def eraOfDay (d : Int) : Int := (d - dayFromYear 0) / 146097

/-- `YearFromTime`, on a day: the largest year of the day's era that does not start after it. -/
def yearOfDay (d : Int) : Int :=
  400 * eraOfDay d + Nat.findGreatest (fun y => dayFromYear (400 * eraOfDay d + y) ≤ d) 399

/-- The month a day lies in, numbered consecutively: the largest one of its year that does not start
after it. -/
def monthOfDay (d : Int) : Int :=
  12 * yearOfDay d + Nat.findGreatest (fun m => monthStart (12 * yearOfDay d + m) ≤ d) 11

/-- The greatest index `n ≤ bound` with `f n ≤ d` is the one whose successor passes `d`. -/
private theorem findGreatest_bounds {f : Int → Int} {b d : Int} {bound : Nat} (hlow : f b ≤ d)
    (hhigh : d < f (b + bound + 1)) :
    f (b + Nat.findGreatest (fun n => f (b + n) ≤ d) bound) ≤ d ∧
      d < f (b + Nat.findGreatest (fun n => f (b + n) ≤ d) bound + 1) := by
  set P : Nat → Prop := fun n => f (b + n) ≤ d with hP
  have hzero : P 0 := by simpa [hP] using hlow
  refine ⟨Nat.findGreatest_spec (P := P) (Nat.zero_le bound) hzero, ?_⟩
  have hle : Nat.findGreatest P bound ≤ bound := Nat.findGreatest_le _
  by_cases hlast : Nat.findGreatest P bound = bound
  · rwa [hlast]
  · have hnot : ¬ P (Nat.findGreatest P bound + 1) :=
      Nat.findGreatest_is_greatest (Nat.lt_succ_self _) (by omega)
    simp only [hP, Nat.cast_add, Nat.cast_one, not_le] at hnot
    rwa [← add_assoc] at hnot

theorem dayFromYear_yearOfDay (d : Int) :
    dayFromYear (yearOfDay d) ≤ d ∧ d < dayFromYear (yearOfDay d + 1) := by
  have hera : 146097 * eraOfDay d ≤ d - dayFromYear 0 ∧
      d - dayFromYear 0 < 146097 * (eraOfDay d + 1) := by
    unfold eraOfDay
    omega
  have hfirst := dayFromYear_add_era 0 (eraOfDay d)
  have hnext := dayFromYear_add_era 0 (eraOfDay d + 1)
  have hyear : 400 * eraOfDay d + ((399 : Nat) : Int) + 1 = 0 + 400 * (eraOfDay d + 1) := by omega
  refine findGreatest_bounds (f := dayFromYear) ?_ ?_
  · rw [zero_add] at hfirst
    omega
  · rw [hyear]
    omega

/-- The month a day is said to lie in contains it. -/
theorem monthStart_monthOfDay (d : Int) :
    monthStart (monthOfDay d) ≤ d ∧ d < monthStart (monthOfDay d + 1) := by
  obtain ⟨hyear, hnextYear⟩ := dayFromYear_yearOfDay d
  have hnext : 12 * yearOfDay d + ((11 : Nat) : Int) + 1 = 12 * (yearOfDay d + 1) := by omega
  refine findGreatest_bounds (f := monthStart) ?_ ?_
  · rwa [monthStart_mul]
  · rwa [hnext, monthStart_mul]

/-- A month contains a day exactly when it is the month the day is said to lie in. -/
theorem monthOfDay_eq_iff (d k : Int) :
    monthOfDay d = k ↔ monthStart k ≤ d ∧ d < monthStart (k + 1) := by
  obtain ⟨hlow, hhigh⟩ := monthStart_monthOfDay d
  constructor
  · rintro rfl
    exact ⟨hlow, hhigh⟩
  · rintro ⟨hk, hk'⟩
    have hlt : monthOfDay d < k + 1 := monthStart_strictMono.lt_iff_lt.mp (lt_of_le_of_lt hlow hk')
    have hgt : k < monthOfDay d + 1 := monthStart_strictMono.lt_iff_lt.mp (lt_of_le_of_lt hk hhigh)
    omega

/-! ## Getters and setters -/

/-- `getUTCFullYear`. -/
def getUTCFullYear (t : Int) : Int := monthOfDay (day t) / 12

/-- `getUTCMonth`: `0` is January. -/
def getUTCMonth (t : Int) : Int := monthOfDay (day t) % 12

/-- `getUTCDate`: the day of the month, from `1`. -/
def getUTCDate (t : Int) : Int := day t - monthStart (monthOfDay (day t)) + 1

/-- `setUTCDate`. -/
def setUTCDate (t : Int) (date : Int) : Option Int :=
  timeClip (makeDate (makeDay (getUTCFullYear t) (getUTCMonth t) date) (timeWithinDay t))

/-- `setUTCMonth`, keeping the day of the month. -/
def setUTCMonth (t : Int) (month : Int) : Option Int :=
  timeClip (makeDate (makeDay (getUTCFullYear t) month (getUTCDate t)) (timeWithinDay t))

/-- `Date.UTC(year, month, date)`; a year from 0 to 99 means one of the twentieth century. -/
def dateUTC (year month date : Int) : Option Int :=
  let year := if 0 ≤ year ∧ year ≤ 99 then 1900 + year else year
  timeClip (makeDate (makeDay year month date) 0)

theorem timeClip_eq_some {t : Int} {t' : Int} (h : timeClip t = some t') : t' = t := by
  unfold timeClip at h
  split at h
  · exact (Option.some.inj h).symm
  · cases h

theorem year_month_of_month (t : Int) :
    12 * getUTCFullYear t + getUTCMonth t = monthOfDay (day t) := by
  unfold getUTCFullYear getUTCMonth
  omega

theorem getUTCDate_pos (t : Int) : 1 ≤ getUTCDate t := by
  have h := (monthStart_monthOfDay (day t)).1
  unfold getUTCDate
  omega

theorem timeWithinDay_bounds (t : Int) : 0 ≤ timeWithinDay t ∧ timeWithinDay t < msPerDay := by
  unfold timeWithinDay msPerDay
  omega

/-- A time of day put on a day is a time value on that day. -/
theorem day_makeDate {d time : Int} (h0 : 0 ≤ time) (h1 : time < msPerDay) :
    day (makeDate d time) = d := by
  unfold day makeDate msPerDay at *
  omega

/-! ## The ISO form -/

open ESignSoft.Lib.JsText

/-- A year, with a sign and six digits outside the first ten thousand. -/
def isoYear (y : Int) : JsString :=
  if 0 ≤ y ∧ y ≤ 9999 then padded 4 y.toNat
  else (if y < 0 then js "-" else js "+") ++ padded 6 y.natAbs

/-- `toISOString`. -/
def toISOString (t : Int) : JsString :=
  let ms := (timeWithinDay t).toNat
  isoYear (getUTCFullYear t) ++ js "-" ++ padded 2 (getUTCMonth t + 1).toNat ++ js "-" ++
    padded 2 (getUTCDate t).toNat ++ js "T" ++ padded 2 (ms / 3600000) ++ js ":" ++
    padded 2 (ms / 60000 % 60) ++ js ":" ++ padded 2 (ms / 1000 % 60) ++ js "." ++
    padded 3 (ms % 1000) ++ js "Z"

/-- An ISO form is written with digits and the marks between them. -/
theorem mem_toISOString {t : Int} {u : UInt16} (hu : u ∈ toISOString t) :
    isDigit u = true ∨ u ∈ js "+-T:.Z" := by
  have hyear : u ∈ isoYear (getUTCFullYear t) → isDigit u = true ∨ u ∈ js "+-T:.Z" := by
    intro hmem
    unfold isoYear at hmem
    split at hmem
    · exact Or.inl (isDigit_padded _ _ u hmem)
    · rcases List.mem_append.mp hmem with hsign | hdigits
      · right
        split at hsign
        · exact (by decide : js "-" ⊆ js "+-T:.Z") hsign
        · exact (by decide : js "+" ⊆ js "+-T:.Z") hsign
      · exact Or.inl (isDigit_padded _ _ u hdigits)
  have hmark : js "-" ++ js "T" ++ js ":" ++ js "." ++ js "Z" ⊆ js "+-T:.Z" := by decide
  simp only [toISOString, List.mem_append] at hu
  simp only [List.subset_def, List.mem_append] at hmark
  have hpad := fun width n => isDigit_padded width n u
  grind

theorem printable_toISOString (t : Int) : ∀ u ∈ toISOString t, isPrintableAscii u = true := by
  intro u hu
  rcases mem_toISOString hu with hdigit | hmark
  · exact printable_of_isDigit hdigit
  · exact List.all_eq_true.mp (by decide : (js "+-T:.Z").all isPrintableAscii = true) u hmark

theorem length_toISOString (t : Int) : 24 ≤ (toISOString t).length := by
  have hyear : 4 ≤ (isoYear (getUTCFullYear t)).length := by
    unfold isoYear
    split
    · rw [length_padded]
    · rw [List.length_append, length_padded]
      omega
  have hmarks : (js "-").length = 1 ∧ (js "T").length = 1 ∧ (js ":").length = 1 ∧
      (js ".").length = 1 ∧ (js "Z").length = 1 := by
    decide
  simp only [toISOString, List.length_append, length_padded, hmarks]
  omega

/-- A date's year, and its month, are within a million. -/
theorem monthOfDay_bounds {t : Int} (hmin : -maxTime ≤ t) (hmax : t ≤ maxTime) :
    12 * -999999 ≤ monthOfDay (day t) ∧ monthOfDay (day t) < 12 * 999999 := by
  obtain ⟨hlow, hhigh⟩ := monthStart_monthOfDay (day t)
  have hday : -100000000 ≤ day t ∧ day t ≤ 100000000 := by
    unfold day msPerDay
    unfold maxTime at hmin hmax
    omega
  have hfirst : monthStart (12 * -999999) < -100000000 := by decide
  have hlast : 100000000 < monthStart (12 * 999999) := by decide
  constructor
  · have hlt : monthStart (12 * -999999) < monthStart (monthOfDay (day t) + 1) := by omega
    have := monthStart_strictMono.lt_iff_lt.mp hlt
    omega
  · exact monthStart_strictMono.lt_iff_lt.mp (by omega)

theorem length_isoYear (y : Int) : (isoYear y).length = if 0 ≤ y ∧ y ≤ 9999 then 4 else 7 := by
  unfold isoYear
  split
  · exact length_padded 4 _
  · rw [List.length_append, length_padded]
    split <;> rfl

theorem isoYear_inj {y y' : Int} (hy : -999999 ≤ y ∧ y ≤ 999999) (hy' : -999999 ≤ y' ∧ y' ≤ 999999)
    (h : isoYear y = isoYear y') : y = y' := by
  have hlen := congrArg List.length h
  rw [length_isoYear, length_isoYear] at hlen
  unfold isoYear at h
  by_cases hfour : 0 ≤ y ∧ y ≤ 9999
  · by_cases hfour' : 0 ≤ y' ∧ y' ≤ 9999
    · rw [if_pos hfour, if_pos hfour'] at h
      have hdigits := padded_inj (by omega) (by omega) h
      omega
    · rw [if_pos hfour, if_neg hfour'] at hlen
      cases hlen
  · by_cases hfour' : 0 ≤ y' ∧ y' ≤ 9999
    · rw [if_neg hfour, if_pos hfour'] at hlen
      cases hlen
    · rw [if_neg hfour, if_neg hfour'] at h
      have hsix : (padded 6 y.natAbs).length = (padded 6 y'.natAbs).length := by
        rw [length_padded, length_padded]
      obtain ⟨hsign, hdigits⟩ := List.append_inj' h hsix
      have habs : y.natAbs = y'.natAbs := padded_inj (by omega) (by omega) hdigits
      have hminus : js "-" ≠ js "+" := by decide
      by_cases hneg : y < 0
      · by_cases hneg' : y' < 0
        · omega
        · rw [if_pos hneg, if_neg hneg'] at hsign
          exact absurd hsign hminus
      · by_cases hneg' : y' < 0
        · rw [if_neg hneg, if_pos hneg'] at hsign
          exact absurd hsign.symm hminus
        · omega

theorem getUTCDate_bounds (t : Int) : 1 ≤ getUTCDate t ∧ getUTCDate t ≤ 31 := by
  have hlen := (monthStart_succ_bounds (monthOfDay (day t))).2
  have hlt := (monthStart_monthOfDay (day t)).2
  have hpos := getUTCDate_pos t
  unfold getUTCDate at hpos ⊢
  omega

/-- **The ISO form tells the instant.** -/
theorem toISOString_inj {t t' : Int} (ht : -maxTime ≤ t ∧ t ≤ maxTime) (ht' : -maxTime ≤ t' ∧ t' ≤ maxTime)
    (h : toISOString t = toISOString t') : t = t' := by
  have hmonth := monthOfDay_bounds ht.1 ht.2
  have hmonth' := monthOfDay_bounds ht'.1 ht'.2
  have hdate := getUTCDate_bounds t
  have hdate' := getUTCDate_bounds t'
  have hms := timeWithinDay_bounds t
  have hms' := timeWithinDay_bounds t'
  unfold msPerDay at hms hms'
  simp only [toISOString] at h
  -- The parts after the year have the same lengths, so they can be compared from the end.
  obtain ⟨h, -⟩ := List.append_inj' h rfl
  obtain ⟨h, hmilli⟩ := List.append_inj' h (by rw [length_padded, length_padded])
  obtain ⟨h, -⟩ := List.append_inj' h rfl
  obtain ⟨h, hsec⟩ := List.append_inj' h (by rw [length_padded, length_padded])
  obtain ⟨h, -⟩ := List.append_inj' h rfl
  obtain ⟨h, hmin⟩ := List.append_inj' h (by rw [length_padded, length_padded])
  obtain ⟨h, -⟩ := List.append_inj' h rfl
  obtain ⟨h, hhour⟩ := List.append_inj' h (by rw [length_padded, length_padded])
  obtain ⟨h, -⟩ := List.append_inj' h rfl
  obtain ⟨h, hday⟩ := List.append_inj' h (by rw [length_padded, length_padded])
  obtain ⟨h, -⟩ := List.append_inj' h rfl
  obtain ⟨h, hmon⟩ := List.append_inj' h (by rw [length_padded, length_padded])
  obtain ⟨hyear, -⟩ := List.append_inj' h rfl
  have hyearEq : getUTCFullYear t = getUTCFullYear t' := by
    refine isoYear_inj ?_ ?_ hyear
    · unfold getUTCFullYear
      omega
    · unfold getUTCFullYear
      omega
  have hmonEq : getUTCMonth t = getUTCMonth t' := by
    have hpadded := padded_inj (by unfold getUTCMonth; omega) (by unfold getUTCMonth; omega) hmon
    unfold getUTCMonth at hpadded ⊢
    omega
  have hdateEq : getUTCDate t = getUTCDate t' := by
    have hpadded := padded_inj (by omega) (by omega) hday
    omega
  have htimeEq : timeWithinDay t = timeWithinDay t' := by
    have h1 := padded_inj (by omega) (by omega) hmilli
    have h2 := padded_inj (by omega) (by omega) hsec
    have h3 := padded_inj (by omega) (by omega) hmin
    have h4 := padded_inj (by omega) (by omega) hhour
    omega
  have hmonthEq : monthOfDay (day t) = monthOfDay (day t') := by
    rw [← year_month_of_month, ← year_month_of_month, hyearEq, hmonEq]
  have hdayEq : day t = day t' := by
    unfold getUTCDate at hdateEq
    rw [hmonthEq] at hdateEq
    omega
  unfold day msPerDay at hdayEq
  unfold timeWithinDay msPerDay at htimeEq
  omega

end ESignSoft.Lib.JsDate
