import Mathlib.Data.List.Basic
import Mathlib.Data.List.Count
import Mathlib.Algebra.Order.Ring.Int

/-!
# Sliding windows

A log of times, newest first, in which every entry was made when fewer than `max` others stood in the
window ending at it, has no more than `max` entries in any window at all.  That the entries are in order of
time (`Capped`) is not needed for it: there only has to be room for each (`Roomy`).
-/

namespace ESignSoft.Lib.SlidingWindow

/-- How many entries of a log are later than a time. -/
def countAfter (since : Int) (log : List Int) : Nat := log.countP fun t => decide (since < t)

/-- How many entries lie in the window of length `w` that opens after `a`. -/
def countIn (a w : Int) (log : List Int) : Nat := log.countP fun t => decide (a < t ∧ t ≤ a + w)

/-- Every entry was made in order, with fewer than `max` others in its window. -/
inductive Capped (w : Int) (max : Nat) : List Int → Prop
  | nil : Capped w max []
  | cons {t : Int} {log : List Int} (h : Capped w max log) (horder : ∀ s ∈ log, s ≤ t)
      (hroom : countAfter (t - w) log < max) : Capped w max (t :: log)

theorem countIn_le_countAfter {a w t : Int} (h : t - w ≤ a) (log : List Int) :
    countIn a w log ≤ countAfter (t - w) log := by
  unfold countIn countAfter
  refine List.countP_mono_left fun s _ hs => ?_
  rw [decide_eq_true_eq] at hs ⊢
  omega

/-- Every entry was made with fewer than `max` others later than the window before it, in whatever order. -/
inductive Roomy (w : Int) (max : Nat) : List Int → Prop
  | nil : Roomy w max []
  | cons {t : Int} {log : List Int} (h : Roomy w max log) (hroom : countAfter (t - w) log < max) :
      Roomy w max (t :: log)

/-- **No window of a log with room for every entry holds more than the cap.** -/
theorem Roomy.countIn_le {w : Int} {max : Nat} {log : List Int} (h : Roomy w max log) (a : Int) :
    countIn a w log ≤ max := by
  induction h with
  | nil => exact Nat.zero_le max
  | @cons t log _ hroom ih =>
      unfold countIn at ih ⊢
      by_cases hin : a < t ∧ t ≤ a + w
      · have hrest : countIn a w log ≤ countAfter (t - w) log := countIn_le_countAfter (by omega) log
        unfold countIn at hrest
        rw [List.countP_cons_of_pos (by simpa using hin)]
        omega
      · rw [List.countP_cons_of_neg (by simpa using hin)]
        exact ih

theorem Capped.roomy {w : Int} {max : Nat} {log : List Int} (h : Capped w max log) : Roomy w max log := by
  induction h with
  | nil => exact Roomy.nil
  | cons _ _ hroom ih => exact Roomy.cons ih hroom

/-- **No window of a capped log holds more than the cap.** -/
theorem Capped.countIn_le {w : Int} {max : Nat} {log : List Int} (h : Capped w max log) (a : Int) :
    countIn a w log ≤ max :=
  h.roomy.countIn_le a

/-- The later the time, the fewer entries are later. -/
theorem countAfter_anti {since since' : Int} (h : since ≤ since') (log : List Int) :
    countAfter since' log ≤ countAfter since log := by
  unfold countAfter
  refine List.countP_mono_left fun t _ ht => ?_
  rw [decide_eq_true_eq] at ht ⊢
  omega

/-- Entries dropped for being old are not counted later either. -/
theorem countAfter_map_filter {α : Type*} {score : α → Int} {since since' : Int} (h : since ≤ since')
    (entries : List α) :
    countAfter since' ((entries.filter fun e => since < score e).map score) =
      countAfter since' (entries.map score) := by
  unfold countAfter
  rw [List.countP_map, List.countP_map, List.countP_filter]
  refine List.countP_congr fun e _ => ?_
  simp only [Function.comp_apply, Bool.and_eq_true, decide_eq_true_eq]
  omega

theorem length_filter_eq_countAfter {α : Type*} (score : α → Int) (since : Int) (entries : List α) :
    (entries.filter fun e => since < score e).length = countAfter since (entries.map score) := by
  rw [countAfter, List.countP_map, List.countP_eq_length_filter]
  rfl

end ESignSoft.Lib.SlidingWindow
