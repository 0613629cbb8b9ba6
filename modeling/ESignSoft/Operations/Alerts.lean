import ESignSoft.Lib.JsNumber
import ESignSoft.Lib.StreakAlarm
import Mathlib.Logic.Function.Basic

/-!
# Alerts about what keeps failing

The worker reconciles every minute.  A sweep that fails five times running raises one alert, a document
that cannot be sealed in five attempts raises one of its own, and no key is raised twice within an hour.
A document that is sealed at last is forgotten under both counts; a sweep that works again forgets how
often it had failed and not when it was last told of.

* `sealsAlerted` — a document whose sealing keeps failing is told of in every streak;
* `persistent_alerted_iff` — everything that persists is told of exactly when an hour has passed since the
  last alert about the sweep each time one of its lasting streaks comes to the fifth failure;
* `second_outage_unnoticed` — a second outage of more than an hour that nobody hears of.
-/

namespace ESignSoft.Operations

open ESignSoft.Lib.JsText ESignSoft.Lib.JsNumber ESignSoft.Lib.StreakAlarm

def ALERT_COOLDOWN_MS : Int := 60 * 60 * 1000

def ALERT_AFTER_FAILURES : Nat := 5

/-! ## The alerter -/

structure Email where
  to_ : JsString
  subject : JsString
  text : JsString
  html : JsString

/-- One entry of the log, with the mail handed to the sender and what the sender's error said. -/
structure Alert where
  key : JsString
  subject : JsString
  email : Option Email
  sendError : Option JsString

structure Alerter where
  to_ : Option JsString
  cooldownMs : Int

/-- `lastSent`. -/
abbrev LastSent := JsString → Option Int

def replaceUnit (u : UInt16) (by_ s : JsString) : JsString := s.flatMap fun v => if v = u then by_ else [v]

def escapeHtml (value : JsString) : JsString :=
  replaceUnit 0x3E (js "&gt;") (replaceUnit 0x3C (js "&lt;") (replaceUnit 0x26 (js "&amp;") value))

/-- Where alerts go; an empty address is none. -/
def Alerter.address (alerter : Alerter) : Option JsString := alerter.to_.filter fun address => address ≠ []

def alertEmail (address subject detail : JsString) : Email where
  to_ := address
  subject := js "[E-SIGNSOFT] " ++ subject
  text := detail
  html := js "<pre style=\"font:13px ui-monospace,monospace;white-space:pre-wrap\">" ++ escapeHtml detail ++
    js "</pre>"

/-- The time is recorded before the mail is sent, and stays when sending fails. -/
def Alerter.raise (alerter : Alerter) (key subject detail : JsString) (at_ : Int)
    (sendError : Option JsString) (lastSent : LastSent) : Bool × LastSent × List Alert :=
  if (lastSent key).any fun previous => at_ - previous < alerter.cooldownMs then (false, lastSent, [])
  else
    match alerter.address with
    | none => (false, Function.update lastSent key (some at_), [⟨key, subject, none, none⟩])
    | some address =>
        (sendError.isNone, Function.update lastSent key (some at_),
          [⟨key, subject, some (alertEmail address subject detail), sendError⟩])

def clear (key : JsString) (lastSent : LastSent) : LastSent := Function.update lastSent key none

/-! ## Streaks -/

/-- `streak` of a `FailureStreak`. -/
abbrev Streaks := JsString → Option Nat

def count (key : JsString) (streak : Streaks) : Nat := (streak key).getD 0

def fail (threshold : Nat) (key : JsString) (streak : Streaks) : Bool × Streaks :=
  let n := (streak key).getD 0 + 1
  (n == threshold, Function.update streak key (some n))

def succeed (key : JsString) (streak : Streaks) : Streaks := Function.update streak key none

/-! ## The sweep -/

/-- `completeSignature` for one stranded request, and the clock and the sender where it comes to an
alert. -/
structure Attempt where
  requestId : JsString
  error : Option JsString
  at_ : Int
  sendError : Option JsString

structure Sweep where
  /-- What `findStrandedCompletions` finds, in turn, or its error. -/
  stranded : Except JsString (List Attempt)
  /-- The clock after the last attempt. -/
  at_ : Int
  sendError : Option JsString

structure Worker where
  lastSent : LastSent
  sealingFailures : Streaks
  sweepFailures : Streaks

def Worker.started : Worker := ⟨fun _ => none, fun _ => none, fun _ => none⟩

/-- To the configured address, if any. -/
def alerter (address : Option JsString) : Alerter := ⟨address, ALERT_COOLDOWN_MS⟩

def sealKey (requestId : JsString) : JsString := js "seal:" ++ requestId

def sweepKey : JsString := js "sweep:reconcile"

def sealDetail (requestId message : JsString) : JsString :=
  List.intercalate (js "\n")
    [js "Request " ++ requestId ++ js " has failed to complete " ++ natText ALERT_AFTER_FAILURES ++ js " times.",
      [],
      js "Error: " ++ message,
      [],
      js "The signature itself is committed and safe — sealing and delivery",
      js "are what is stuck. The sweep keeps retrying, so fixing the cause",
      js "is enough; nobody has to sign anything again."]

def sweepDetail (message : JsString) : JsString :=
  List.intercalate (js "\n")
    [js "The reconcile sweep has failed " ++ natText ALERT_AFTER_FAILURES ++ js " times running.",
      [],
      js "Error: " ++ message,
      [],
      js "While it is down, a signature that completes without its follow-up",
      js "job will not be picked up. Nothing is lost; delivery stops."]

/-- `if (failures.fail(name)) await alerter.raise(key, subject, detail)`. -/
def failAndRaise (alerter : Alerter) (name key subject detail : JsString) (at_ : Int)
    (sendError : Option JsString) (streak : Streaks) (lastSent : LastSent) :
    Streaks × LastSent × List Alert :=
  let failed := fail ALERT_AFTER_FAILURES name streak
  if failed.1 then (failed.2, (alerter.raise key subject detail at_ sendError lastSent).2)
  else (failed.2, lastSent, [])

/-- One round of the loop over what is stranded. -/
def reconcileOne (address : Option JsString) (w : Worker) (s : Attempt) : Worker × List Alert :=
  match s.error with
  | none =>
      ({ w with
          sealingFailures := succeed s.requestId w.sealingFailures
          lastSent := clear (sealKey s.requestId) w.lastSent }, [])
  | some message =>
      let told := failAndRaise (alerter address) s.requestId (sealKey s.requestId)
        (js "A signed document cannot be sealed") (sealDetail s.requestId message) s.at_ s.sendError
        w.sealingFailures w.lastSent
      ({ w with sealingFailures := told.1, lastSent := told.2.1 }, told.2.2)

def reconcile (address : Option JsString) (w : Worker) (sweep : Sweep) : Worker × List Alert :=
  match sweep.stranded with
  | .ok stranded =>
      let done := after (reconcileOne address) w stranded
      ({ done with sweepFailures := succeed (js "reconcile") done.sweepFailures },
        emitted (reconcileOne address) w stranded)
  | .error message =>
      let told := failAndRaise (alerter address) (js "reconcile") sweepKey (js "The reconcile sweep is failing")
        (sweepDetail message) sweep.at_ sweep.sendError w.sweepFailures w.lastSent
      ({ w with sweepFailures := told.1, lastSent := told.2.1 }, told.2.2)

/-! ## The alarms in it -/

def rule (clears : Bool) : Rule Int := ⟨ALERT_AFTER_FAILURES, ALERT_COOLDOWN_MS, clears⟩

/-- What a streak and the time of the last alert make together. -/
def alarm (name key : JsString) (streak : Streaks) (lastSent : LastSent) : Alarm Int :=
  ⟨count name streak, lastSent key⟩

/-- The alert is about the key, and was handed to the sender if there is an address. -/
def Alert.AttemptedFor (address : Option JsString) (key : JsString) (alert : Alert) : Prop :=
  alert.key = key ∧ alert.email.map Email.to_ = (alerter address).address

theorem raise_of_quiet {a : Alerter} {key : JsString} {at_ : Int} {lastSent : LastSent}
    (h : quiet a.cooldownMs (lastSent key) at_ = true) (subject detail : JsString)
    (sendError : Option JsString) :
    (a.raise key subject detail at_ sendError lastSent).2.1 = Function.update lastSent key (some at_) ∧
      ∃ alert : Alert, (a.raise key subject detail at_ sendError lastSent).2.2 = [alert] ∧
        alert.key = key ∧ alert.email.map Email.to_ = a.address := by
  have hpast : (lastSent key).any (fun previous => at_ - previous < a.cooldownMs) = false := by
    rw [quiet] at h
    cases hlast : lastSent key with
    | none => rfl
    | some previous =>
        rw [hlast] at h
        simpa using h
  unfold Alerter.raise
  rw [hpast]
  cases haddress : a.address with
  | none => exact ⟨rfl, _, rfl, rfl, rfl⟩
  | some address => exact ⟨rfl, _, rfl, rfl, rfl⟩

theorem raise_of_not_quiet {a : Alerter} {key : JsString} {at_ : Int} {lastSent : LastSent}
    (h : quiet a.cooldownMs (lastSent key) at_ = false) (subject detail : JsString)
    (sendError : Option JsString) :
    a.raise key subject detail at_ sendError lastSent = (false, lastSent, []) := by
  have hwithin : (lastSent key).any (fun previous => at_ - previous < a.cooldownMs) = true := by
    rw [quiet] at h
    cases hlast : lastSent key with
    | none =>
        rw [hlast] at h
        cases h
    | some previous =>
        rw [hlast] at h
        simpa using h
  exact if_pos hwithin

section Failing

variable (address : Option JsString) (name key subject detail : JsString) (at_ : Int)
  (sendError : Option JsString) (streak : Streaks) (lastSent : LastSent)

/-- A failure moves the alarm of its name and key on. -/
theorem failAndRaise_alarm (clears : Bool) :
    let told := failAndRaise (alerter address) name key subject detail at_ sendError streak lastSent
    alarm name key told.1 told.2.1 = (alarm name key streak lastSent).next (rule clears) (.failed at_) := by
  by_cases hreached : (streak name).getD 0 + 1 = ALERT_AFTER_FAILURES
  · cases hquiet : quiet ALERT_COOLDOWN_MS (lastSent key) at_ with
    | true =>
        have hraise := (raise_of_quiet (a := alerter address) hquiet subject detail sendError).1
        simp [failAndRaise, fail, hreached, hraise, alarm, count, Alarm.next, Alarm.rings, rule, hquiet]
    | false =>
        have hraise := raise_of_not_quiet (a := alerter address) hquiet subject detail sendError
        simp [failAndRaise, fail, hreached, hraise, alarm, count, Alarm.next, Alarm.rings, rule, hquiet]
  · simp [failAndRaise, fail, hreached, alarm, count, Alarm.next, Alarm.rings, rule]

/-- It raises an alert when the alarm rings, under that key. -/
theorem failAndRaise_alerts (clears : Bool) (key' : JsString) :
    (∃ alert ∈ (failAndRaise (alerter address) name key subject detail at_ sendError streak lastSent).2.2,
        alert.AttemptedFor address key') ↔
      key' = key ∧ (alarm name key streak lastSent).rings (rule clears) (.failed at_) = true := by
  by_cases hreached : (streak name).getD 0 + 1 = ALERT_AFTER_FAILURES
  · cases hquiet : quiet ALERT_COOLDOWN_MS (lastSent key) at_ with
    | true =>
        obtain ⟨-, alert, halerts, hkey, hemail⟩ :=
          raise_of_quiet (a := alerter address) hquiet subject detail sendError
        simp [failAndRaise, fail, hreached, halerts, Alert.AttemptedFor, hkey, hemail, alarm, count,
          Alarm.rings, rule, hquiet, eq_comm]
    | false =>
        have hraise := raise_of_not_quiet (a := alerter address) hquiet subject detail sendError
        simp [failAndRaise, fail, hreached, hraise, alarm, Alarm.rings, rule, hquiet]
  · simp [failAndRaise, fail, hreached, alarm, count, Alarm.rings, rule]

/-- It leaves the streaks of other names. -/
theorem failAndRaise_streak_other {name' : JsString} (h : name' ≠ name) :
    (failAndRaise (alerter address) name key subject detail at_ sendError streak lastSent).1 name' =
      streak name' := by
  unfold failAndRaise fail
  dsimp only
  split <;> exact Function.update_of_ne h _ _

/-- It leaves the times of other keys. -/
theorem failAndRaise_lastSent_other {key' : JsString} (h : key' ≠ key) :
    (failAndRaise (alerter address) name key subject detail at_ sendError streak lastSent).2.1 key' =
      lastSent key' := by
  have hraise : (Alerter.raise (alerter address) key subject detail at_ sendError lastSent).2.1 key' =
      lastSent key' := by
    cases hquiet : quiet ALERT_COOLDOWN_MS (lastSent key) at_ with
    | true =>
        rw [(raise_of_quiet (a := alerter address) hquiet subject detail sendError).1]
        exact Function.update_of_ne h _ _
    | false => rw [raise_of_not_quiet (a := alerter address) hquiet]
  unfold failAndRaise
  dsimp only
  split
  · exact hraise
  · rfl

end Failing

/-! ## The sweep watches -/

theorem sealKey_inj {r r' : JsString} : sealKey r = sealKey r' ↔ r = r' := List.append_right_inj _

theorem sealKey_ne_sweepKey (r : JsString) : sealKey r ≠ sweepKey := by
  intro h
  have hsecond : (sealKey r)[1]? = sweepKey[1]? := by rw [h]
  exact absurd hsecond (by rw [sealKey, List.getElem?_append_left (by decide)]; decide)

def Attempt.outcome (s : Attempt) : Outcome Int :=
  match s.error with
  | none => .ok
  | some _ => .failed s.at_

/-- What an attempt says about a request. -/
def Attempt.outcomesOf (requestId : JsString) (s : Attempt) : List (Outcome Int) :=
  if s.requestId = requestId then [s.outcome] else []

def Sweep.outcome (sweep : Sweep) : Outcome Int :=
  match sweep.stranded with
  | .ok _ => .ok
  | .error _ => .failed sweep.at_

/-- What a sweep says about a request. -/
def Sweep.outcomesOf (requestId : JsString) (sweep : Sweep) : List (Outcome Int) :=
  match sweep.stranded with
  | .ok stranded => stranded.flatMap (Attempt.outcomesOf requestId)
  | .error _ => []

def Worker.sealAlarm (requestId : JsString) (w : Worker) : Alarm Int :=
  alarm requestId (sealKey requestId) w.sealingFailures w.lastSent

def Worker.sweepAlarm (w : Worker) : Alarm Int := alarm (js "reconcile") sweepKey w.sweepFailures w.lastSent

theorem reconcileOne_watches_seal (address : Option JsString) (requestId : JsString) :
    Watches (rule true) (reconcileOne address) (Worker.sealAlarm requestId) (Attempt.outcomesOf requestId)
      (Alert.AttemptedFor address (sealKey requestId)) := by
  constructor
  · intro w s
    by_cases hmine : s.requestId = requestId
    · subst hmine
      unfold reconcileOne Attempt.outcomesOf Attempt.outcome
      rw [if_pos rfl]
      cases s.error with
      | none => simp [Worker.sealAlarm, alarm, count, succeed, clear, Alarm.run, Alarm.next, rule]
      | some message => exact failAndRaise_alarm address _ _ _ _ _ _ _ _ true
    · have hkey : sealKey requestId ≠ sealKey s.requestId := fun h => hmine (sealKey_inj.mp h).symm
      unfold reconcileOne Attempt.outcomesOf
      rw [if_neg hmine]
      cases s.error with
      | none =>
          simp [Worker.sealAlarm, alarm, count, succeed, clear, Alarm.run, Ne.symm hmine, hkey]
      | some message =>
          simp [Worker.sealAlarm, alarm, count, Alarm.run, Ne.symm hmine, hkey, failAndRaise_streak_other,
            failAndRaise_lastSent_other]
  · intro w s
    unfold reconcileOne Attempt.outcomesOf Attempt.outcome
    cases s.error with
    | none => by_cases hmine : s.requestId = requestId <;> simp [hmine, Alarm.RingsDuring, Alarm.rings]
    | some message =>
        dsimp only
        rw [failAndRaise_alerts address _ _ _ _ _ _ _ _ true, sealKey_inj]
        by_cases hmine : s.requestId = requestId
        · simp [hmine, Alarm.RingsDuring, Worker.sealAlarm]
        · simp [hmine, Ne.symm hmine, Alarm.RingsDuring]

theorem reconcileOne_watches_sweep (address : Option JsString) :
    Watches (rule false) (reconcileOne address) Worker.sweepAlarm (fun _ => [])
      (Alert.AttemptedFor address sweepKey) := by
  constructor
  · intro w s
    have hkey := sealKey_ne_sweepKey s.requestId
    unfold reconcileOne
    cases s.error with
    | none => simp [Worker.sweepAlarm, alarm, clear, Alarm.run, hkey.symm]
    | some message =>
        simp [Worker.sweepAlarm, alarm, Alarm.run, failAndRaise_lastSent_other, hkey.symm]
  · intro w s
    have hkey := sealKey_ne_sweepKey s.requestId
    unfold reconcileOne
    cases s.error with
    | none => simp [Alarm.RingsDuring]
    | some message =>
        dsimp only
        rw [failAndRaise_alerts address _ _ _ _ _ _ _ _ false]
        simp [Alarm.RingsDuring, hkey.symm]

theorem reconcile_watches_seal (address : Option JsString) (requestId : JsString) :
    Watches (rule true) (reconcile address) (Worker.sealAlarm requestId) (Sweep.outcomesOf requestId)
      (Alert.AttemptedFor address (sealKey requestId)) := by
  have hone := reconcileOne_watches_seal address requestId
  have hkey := sealKey_ne_sweepKey requestId
  constructor
  · intro w sweep
    unfold reconcile Sweep.outcomesOf
    cases sweep.stranded with
    | ok stranded => exact hone.run_after stranded w
    | error message =>
        simp [Worker.sealAlarm, alarm, Alarm.run, failAndRaise_lastSent_other, hkey]
  · intro w sweep
    unfold reconcile Sweep.outcomesOf
    cases sweep.stranded with
    | ok stranded => exact hone.rings_emitted stranded w
    | error message =>
        dsimp only
        rw [failAndRaise_alerts address _ _ _ _ _ _ _ _ true]
        simp [Alarm.RingsDuring, hkey]

theorem reconcile_watches_sweep (address : Option JsString) :
    Watches (rule false) (reconcile address) Worker.sweepAlarm (fun sweep => [sweep.outcome])
      (Alert.AttemptedFor address sweepKey) := by
  have hone := reconcileOne_watches_sweep address
  constructor
  · intro w sweep
    unfold reconcile Sweep.outcome
    cases sweep.stranded with
    | ok stranded =>
        -- The loop leaves this alarm as it is, and the success after it counts from zero again.
        have hloop := hone.run_after stranded w
        rw [List.flatMap_eq_nil_iff.mpr fun _ _ => rfl] at hloop
        have hlast := congrArg Alarm.last hloop
        simpa [Worker.sweepAlarm, alarm, count, succeed, Alarm.run, Alarm.next, rule] using hlast
    | error message => exact failAndRaise_alarm address _ _ _ _ _ _ _ _ false
  · intro w sweep
    unfold reconcile Sweep.outcome
    cases sweep.stranded with
    | ok stranded =>
        have hloop := hone.rings_emitted stranded w
        rw [List.flatMap_eq_nil_iff.mpr fun _ _ => rfl] at hloop
        simpa [Alarm.RingsDuring, Alarm.rings] using hloop
    | error message =>
        dsimp only
        rw [failAndRaise_alerts address _ _ _ _ _ _ _ _ false]
        simp [Alarm.RingsDuring, Worker.sweepAlarm]

/-! ## Persistent faults -/

/-- What the worker has in mind after some sweeps. -/
def sweptBy (address : Option JsString) (sweeps : List Sweep) : Worker := after (reconcile address) .started sweeps

/-- Some alert about the key is attempted while the sweeps of a streak run. -/
def AlertedDuring (address : Option JsString) (key : JsString) (before streak : List Sweep) : Prop :=
  ∃ alert ∈ emitted (reconcile address) (sweptBy address before) streak, alert.AttemptedFor address key

/-- The failures are as many as the threshold and go on for longer than the cooldown. -/
def Persistent (times : List Int) : Prop :=
  ALERT_AFTER_FAILURES ≤ times.length ∧
    ∃ first ∈ times.head?, ∃ last ∈ times.getLast?, ALERT_COOLDOWN_MS < last - first

/-- Whenever the sweep fails persistently, an alert about it is attempted during that streak. -/
def SweepAlerted (address : Option JsString) (sweeps : List Sweep) : Prop :=
  ∀ before streak later, sweeps = before ++ streak ++ later →
    Streak (fun sweep => [sweep.outcome]) before streak later →
      Persistent (failureTimes (fun sweep => [sweep.outcome]) streak) →
        AlertedDuring address sweepKey before streak

/-- Whenever a request fails to be sealed as many times in a row as the threshold, an alert about it is
attempted during that streak. -/
def SealsAlerted (address : Option JsString) (sweeps : List Sweep) : Prop :=
  ∀ requestId before streak later, sweeps = before ++ streak ++ later →
    Streak (Sweep.outcomesOf requestId) before streak later →
      ALERT_AFTER_FAILURES ≤ (failureTimes (Sweep.outcomesOf requestId) streak).length →
        AlertedDuring address (sealKey requestId) before streak

/-- Whenever a persistent streak of the sweep comes to the failure that reaches the threshold, an alert
about an earlier streak, if any, is at least as old as the cooldown. -/
def CooledDown (address : Option JsString) (sweeps : List Sweep) : Prop :=
  ∀ before streak later, sweeps = before ++ streak ++ later →
    Streak (fun sweep => [sweep.outcome]) before streak later →
      Persistent (failureTimes (fun sweep => [sweep.outcome]) streak) →
        ∀ t ∈ (failureTimes (fun sweep => [sweep.outcome]) streak)[ALERT_AFTER_FAILURES - 1]?,
          ∀ previous ∈ (sweptBy address before).lastSent sweepKey, ALERT_COOLDOWN_MS ≤ t - previous

theorem sealsAlerted (address : Option JsString) (sweeps : List Sweep) : SealsAlerted address sweeps := by
  intro requestId before streak later _ hstreak hlong
  exact (reconcile_watches_seal address requestId).emits_of_clears rfl rfl hstreak (by decide) hlong

theorem sweepAlerted_iff (address : Option JsString) (sweeps : List Sweep) :
    SweepAlerted address sweeps ↔ CooledDown address sweeps := by
  have hthreshold : ALERT_AFTER_FAILURES - 1 + 1 = (rule false).threshold := rfl
  refine forall₃_congr fun before streak later => forall₃_congr fun _ hstreak hpersistent => ?_
  have hlong : ALERT_AFTER_FAILURES - 1 < (failureTimes (fun sweep : Sweep => [sweep.outcome]) streak).length :=
    lt_of_lt_of_le (by decide) hpersistent.1
  obtain ⟨fifth, hfifth⟩ : ∃ t, (failureTimes (fun sweep : Sweep => [sweep.outcome])
      streak)[ALERT_AFTER_FAILURES - 1]? = some t := ⟨_, List.getElem?_eq_getElem hlong⟩
  have hemits := (reconcile_watches_sweep address).emits_iff (s := .started) rfl hstreak hthreshold
  simp only [hfifth, Option.some.injEq, exists_eq_left', quiet_iff] at hemits
  simp only [hfifth, Option.mem_some_iff, forall_eq']
  exact hemits

/-- **What persists is told of exactly when the cooldown is over**: an hour has passed since the last
alert about the sweep whenever one of its persistent streaks comes to the fifth failure. -/
theorem persistent_alerted_iff (address : Option JsString) (sweeps : List Sweep) :
    SweepAlerted address sweeps ∧ SealsAlerted address sweeps ↔ CooledDown address sweeps := by
  rw [and_iff_left (sealsAlerted address sweeps), sweepAlerted_iff]

/-! ## A second outage -/

def Sweep.times (sweep : Sweep) : List Int :=
  match sweep.stranded with
  | .ok stranded => stranded.map Attempt.at_ ++ [sweep.at_]
  | .error _ => [sweep.at_]

/-- The clock never goes back. -/
def Chronological (sweeps : List Sweep) : Prop := (sweeps.flatMap Sweep.times).Pairwise (· ≤ ·)

/-- The sweep at a minute fails. -/
def failingAt (minute : Nat) : Sweep := ⟨.error (js "no database"), 60000 * minute, none⟩

/-- The sweep at a minute finds nothing that is stranded. -/
def workingAt (minute : Nat) : Sweep := ⟨.ok [], 60000 * minute, none⟩

/-- The database is away for five minutes, and from the sixth minute on for more than an hour. -/
def twoOutages : List Sweep × List Sweep :=
  ((List.range 5).map failingAt ++ [workingAt 5], (List.range' 6 65).map failingAt)

/-- The alert of the first outage silences the fifth failure of the second, and no failure after it raises
anything. -/
theorem second_outage_unnoticed :
    ¬ ∀ (address : Option JsString) (sweeps : List Sweep), Chronological sweeps →
      SweepAlerted address sweeps ∧ SealsAlerted address sweeps := by
  intro h
  have hsweeps := (h (some (js "ops@esignsoft.uz")) (twoOutages.1 ++ twoOutages.2)
    (by unfold Chronological; decide +kernel)).1 twoOutages.1 twoOutages.2 [] (List.append_nil _).symm
  have hstreak : Streak (fun sweep : Sweep => [sweep.outcome]) twoOutages.1 twoOutages.2 [] :=
    ⟨by decide +kernel, by decide +kernel, by decide +kernel⟩
  obtain ⟨alert, halert, hkey, -⟩ := hsweeps hstreak ⟨by decide +kernel, 60000 * 6, by decide +kernel,
    60000 * 70, by decide +kernel, by decide⟩
  have hnone : ∀ alert ∈ emitted (reconcile (some (js "ops@esignsoft.uz")))
      (sweptBy (some (js "ops@esignsoft.uz")) twoOutages.1) twoOutages.2, alert.key ≠ sweepKey := by
    decide +kernel
  exact hnone alert halert hkey

end ESignSoft.Operations
