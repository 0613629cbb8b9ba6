import Mathlib.Data.List.Basic

/-!
# Alarms on a streak of failures

An alarm counts failures in a row and rings when their number reaches a threshold, unless it has rung
too recently.  Whether a streak rings is decided at that one failure: those after it no longer can.

* `ringsDuring_failed_iff` — a streak rings exactly when the alarm is quiet at the failure that reaches
  the threshold;
* `Watches.emits_iff` — the same for a machine of which the alarm is one part, in any run that goes into
  what comes before the streak, the streak and what comes later;
* `Watches.emits_of_clears` — where a success also forgets the last ring, every streak that is long
  enough rings.
-/

namespace ESignSoft.Lib.StreakAlarm

variable {T ε : Type*}

inductive Outcome (T : Type*)
  | ok
  | failed (at_ : T)
  deriving DecidableEq

def Outcome.failedAt : Outcome T → Option T
  | .ok => none
  | .failed at_ => some at_

/-- The events go into what comes before a streak of failures, the streak, and what comes later. -/
structure Streak (outcomes : ε → List (Outcome T)) (before streak later : List ε) : Prop where
  failing : ∀ o ∈ streak.flatMap outcomes, o ≠ .ok
  starts : ∀ o ∈ (before.flatMap outcomes).getLast?, o = .ok
  ends : ∀ o ∈ (later.flatMap outcomes).head?, o = .ok

def failureTimes (outcomes : ε → List (Outcome T)) (events : List ε) : List T :=
  (events.flatMap outcomes).filterMap Outcome.failedAt

/-- Outcomes that are no success are failures. -/
theorem eq_map_failed {os : List (Outcome T)} (h : ∀ o ∈ os, o ≠ .ok) :
    os = (os.filterMap Outcome.failedAt).map .failed := by
  induction os with
  | nil => rfl
  | cons o os ih =>
      have hrest := ih fun o' ho' => h o' (List.mem_cons_of_mem o ho')
      cases o with
      | ok => exact absurd rfl (h .ok List.mem_cons_self)
      | failed t => simpa [Outcome.failedAt] using hrest

/-! ## The alarm -/

structure Rule (T : Type*) where
  threshold : Nat
  cooldown : T
  /-- Whether a success also forgets when the alarm last rang. -/
  clears : Bool

structure Alarm (T : Type*) where
  count : Nat
  last : Option T

def Alarm.new : Alarm T := ⟨0, none⟩

variable [Sub T] [LE T] [DecidableLE T]

/-- The alarm has not rung for the length of the cooldown, if ever. -/
def quiet (cooldown : T) (last : Option T) (at_ : T) : Bool := last.all fun previous => cooldown ≤ at_ - previous

theorem quiet_iff {cooldown : T} {last : Option T} {at_ : T} :
    quiet cooldown last at_ = true ↔ ∀ previous ∈ last, cooldown ≤ at_ - previous := by
  cases last with
  | none => simp [quiet]
  | some previous => simp [quiet]

def Alarm.rings (R : Rule T) (a : Alarm T) : Outcome T → Bool
  | .ok => false
  | .failed at_ => a.count + 1 == R.threshold && quiet R.cooldown a.last at_

def Alarm.next (R : Rule T) (a : Alarm T) : Outcome T → Alarm T
  | .ok => ⟨0, if R.clears then none else a.last⟩
  | .failed at_ => ⟨a.count + 1, if a.rings R (.failed at_) then some at_ else a.last⟩

@[simp] theorem Alarm.next_failed_count (R : Rule T) (a : Alarm T) (at_ : T) :
    (a.next R (.failed at_)).count = a.count + 1 := rfl

def Alarm.run (R : Rule T) (a : Alarm T) (outcomes : List (Outcome T)) : Alarm T := outcomes.foldl (Alarm.next R) a

def Alarm.RingsDuring (R : Rule T) : Alarm T → List (Outcome T) → Prop
  | _, [] => False
  | a, o :: rest => a.rings R o = true ∨ (a.next R o).RingsDuring R rest

/-! ## One streak -/

/-- Past the threshold no failure rings. -/
theorem not_ringsDuring_past {R : Rule T} (times : List T) :
    ∀ {a : Alarm T}, R.threshold ≤ a.count → ¬ a.RingsDuring R (times.map .failed) := by
  induction times with
  | nil => exact fun _ h => h
  | cons t times ih =>
      intro a hpast
      rintro (hring | hlater)
      · simp only [Alarm.rings, Bool.and_eq_true, beq_iff_eq] at hring
        omega
      · refine ih ?_ hlater
        rw [Alarm.next_failed_count]
        omega

/-- **A streak rings exactly when the alarm is quiet at the failure that reaches the threshold.** -/
theorem ringsDuring_failed_iff {R : Rule T} (times : List T) :
    ∀ {a : Alarm T} (missing : Nat), a.count + missing + 1 = R.threshold →
      (a.RingsDuring R (times.map .failed) ↔
        ∃ t, times[missing]? = some t ∧ quiet R.cooldown a.last t = true) := by
  induction times with
  | nil =>
      intro a missing _
      simp [Alarm.RingsDuring]
  | cons t times ih =>
      intro a missing hmissing
      cases missing with
      | zero =>
          have hpast : ¬ (a.next R (.failed t)).RingsDuring R (times.map .failed) := by
            apply not_ringsDuring_past
            rw [Alarm.next_failed_count]
            omega
          have hreached : a.count + 1 = R.threshold := hmissing
          simp [Alarm.RingsDuring, hpast, Alarm.rings, hreached]
      | succ missing =>
          -- The count is still short of the threshold, so this failure leaves the last ring as it is.
          have hshort : a.rings R (.failed t) = false := by
            have hne : a.count + 1 ≠ R.threshold := by omega
            simp [Alarm.rings, hne]
          have hnext : a.next R (.failed t) = ⟨a.count + 1, a.last⟩ := by
            simp [Alarm.next, hshort]
          have hrest := ih (a := a.next R (.failed t)) missing
            (by rw [Alarm.next_failed_count]; omega)
          rw [hnext] at hrest
          simpa [Alarm.RingsDuring, hshort, hnext] using hrest

/-! ## What comes before a streak -/

theorem run_append (R : Rule T) (a : Alarm T) (os os' : List (Outcome T)) :
    a.run R (os ++ os') = (a.run R os).run R os' := List.foldl_append

/-- After a success nothing is counted. -/
theorem count_run_eq_zero {R : Rule T} {a : Alarm T} (ha : a.count = 0) {os : List (Outcome T)}
    (h : ∀ o ∈ os.getLast?, o = .ok) : (a.run R os).count = 0 := by
  rcases List.eq_nil_or_concat os with rfl | ⟨before, o, rfl⟩
  · exact ha
  · obtain rfl := h o (by simp)
    rw [List.concat_eq_append, run_append]
    rfl

/-- Where a success forgets the last ring, one that is remembered belongs to the streak under way. -/
theorem threshold_le_of_last_run {R : Rule T} (hclears : R.clears = true) (os : List (Outcome T)) :
    ∀ {a : Alarm T}, (a.last ≠ none → R.threshold ≤ a.count) → (a.run R os).last ≠ none →
      R.threshold ≤ (a.run R os).count := by
  induction os with
  | nil => exact fun ha => ha
  | cons o os ih =>
      intro a ha
      refine ih (a := a.next R o) fun hlast => ?_
      cases o with
      | ok => simp [Alarm.next, hclears] at hlast
      | failed t =>
          cases hring : a.rings R (.failed t) with
          | true =>
              simp only [Alarm.rings, Bool.and_eq_true, beq_iff_eq] at hring
              rw [Alarm.next_failed_count]
              omega
          | false =>
              have hkept := ha (by simpa [Alarm.next, hring] using hlast)
              rw [Alarm.next_failed_count]
              omega

/-! ## An alarm inside a machine -/

section Machine

variable {σ ν : Type*}

/-- The state a machine is in after some events. -/
def after (step : σ → ε → σ × List ν) (s : σ) (events : List ε) : σ := events.foldl (fun s e => (step s e).1) s

/-- What it emits while it takes them. -/
def emitted (step : σ → ε → σ × List ν) : σ → List ε → List ν
  | _, [] => []
  | s, e :: rest => (step s e).2 ++ emitted step (step s e).1 rest

/-- Part of the state is an alarm that goes by the outcomes each event has, and what the machine emits
says when it rings. -/
structure Watches (R : Rule T) (step : σ → ε → σ × List ν) (alarm : σ → Alarm T)
    (outcomes : ε → List (Outcome T)) (Mine : ν → Prop) : Prop where
  run : ∀ s e, alarm (step s e).1 = (alarm s).run R (outcomes e)
  rings : ∀ s e, (∃ n ∈ (step s e).2, Mine n) ↔ (alarm s).RingsDuring R (outcomes e)

theorem ringsDuring_append (R : Rule T) (os os' : List (Outcome T)) :
    ∀ a : Alarm T, a.RingsDuring R (os ++ os') ↔ a.RingsDuring R os ∨ (a.run R os).RingsDuring R os' := by
  induction os with
  | nil => exact fun a => by simp [Alarm.RingsDuring, Alarm.run]
  | cons o os ih =>
      intro a
      rw [List.cons_append, Alarm.RingsDuring, ih, Alarm.RingsDuring, or_assoc]
      rfl

variable {R : Rule T} {step : σ → ε → σ × List ν} {alarm : σ → Alarm T}
  {outcomes : ε → List (Outcome T)} {Mine : ν → Prop}

theorem Watches.run_after (h : Watches R step alarm outcomes Mine) (events : List ε) :
    ∀ s, alarm (after step s events) = (alarm s).run R (events.flatMap outcomes) := by
  induction events with
  | nil => exact fun s => rfl
  | cons e rest ih =>
      intro s
      rw [List.flatMap_cons, run_append, ← h.run]
      exact ih _

theorem Watches.rings_emitted (h : Watches R step alarm outcomes Mine) (events : List ε) :
    ∀ s, (∃ n ∈ emitted step s events, Mine n) ↔ (alarm s).RingsDuring R (events.flatMap outcomes) := by
  induction events with
  | nil => exact fun s => by simp [emitted, Alarm.RingsDuring]
  | cons e rest ih =>
      intro s
      rw [List.flatMap_cons, ringsDuring_append, ← h.rings, ← h.run, ← ih]
      simp only [emitted, List.mem_append, or_and_right, exists_or]

/-- **A machine that watches emits during a streak exactly when it is quiet at the failure that reaches
the threshold.** -/
theorem Watches.emits_iff (h : Watches R step alarm outcomes Mine) {s : σ} (hs : alarm s = .new)
    {before streak later : List ε} (hstreak : Streak outcomes before streak later) {missing : Nat}
    (hmissing : missing + 1 = R.threshold) :
    (∃ n ∈ emitted step (after step s before) streak, Mine n) ↔
      ∃ t, (failureTimes outcomes streak)[missing]? = some t ∧
        quiet R.cooldown (alarm (after step s before)).last t = true := by
  have hcount : (alarm (after step s before)).count = 0 := by
    rw [h.run_after, hs]
    exact count_run_eq_zero rfl hstreak.starts
  rw [h.rings_emitted, eq_map_failed hstreak.failing]
  exact ringsDuring_failed_iff _ missing (by omega)

/-- **Where a success forgets the last ring, every streak that is long enough rings.** -/
theorem Watches.emits_of_clears (h : Watches R step alarm outcomes Mine) (hclears : R.clears = true)
    {s : σ} (hs : alarm s = .new) {before streak later : List ε}
    (hstreak : Streak outcomes before streak later) (hthreshold : 0 < R.threshold)
    (hlong : R.threshold ≤ (failureTimes outcomes streak).length) :
    ∃ n ∈ emitted step (after step s before) streak, Mine n := by
  have hmissing : R.threshold - 1 + 1 = R.threshold := by omega
  have hbefore : alarm (after step s before) = Alarm.new.run R (before.flatMap outcomes) := by
    rw [h.run_after, hs]
  have hcount : (alarm (after step s before)).count = 0 := by
    rw [hbefore]
    exact count_run_eq_zero rfl hstreak.starts
  have hlast : (alarm (after step s before)).last = none := by
    by_contra hremembered
    rw [hbefore] at hremembered hcount
    have hpast := threshold_le_of_last_run hclears _ (by simp [Alarm.new]) hremembered
    omega
  rw [h.emits_iff hs hstreak hmissing, hlast]
  exact ⟨_, List.getElem?_eq_getElem (by omega), rfl⟩

end Machine

end ESignSoft.Lib.StreakAlarm
