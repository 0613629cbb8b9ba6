import Mathlib.Logic.Function.Iterate
import Mathlib.Order.Basic
import Mathlib.Order.Nat

/-!
# While loops that end

A loop `while (p s) s = body(s)` ends after `n` turns when the `n`-th iterate of the body is the first on
which the test fails.

* `exists_endsAfter` — it ends as soon as some iterate fails the test;
* `run_eq` — running it with a bound on the turns gives that iterate when the bound is large enough.
-/

namespace ESignSoft.Lib

variable {σ : Type*}

/-- The loop is left after `n` turns. -/
def EndsAfter (p : σ → Prop) (body : σ → σ) (s : σ) (n : ℕ) : Prop :=
  ¬ p (body^[n] s) ∧ ∀ m < n, p (body^[m] s)

/-- The loop with at most `n` turns. -/
def run (p : σ → Prop) [DecidablePred p] (body : σ → σ) : ℕ → σ → σ
  | 0, s => s
  | n + 1, s => if p s then run p body n (body s) else s

variable {p : σ → Prop} {body : σ → σ} {s : σ}

/-- **The loop ends** no later than at any iterate that fails the test. -/
theorem exists_endsAfter {b : ℕ} (h : ¬ p (body^[b] s)) : ∃ n ≤ b, EndsAfter p body s n := by
  classical
  have hex : ∃ n, ¬ p (body^[n] s) := ⟨b, h⟩
  exact ⟨Nat.find hex, Nat.find_min' hex h, Nat.find_spec hex, fun m hm => not_not.mp (Nat.find_min hex hm)⟩

/-- The rest of a loop that takes a turn. -/
theorem EndsAfter.turn {n : ℕ} (h : EndsAfter p body s (n + 1)) : p s ∧ EndsAfter p body (body s) n := by
  refine ⟨h.2 0 (Nat.succ_pos n), ?_, fun m hm => ?_⟩
  · rw [← Function.iterate_succ_apply]
    exact h.1
  · rw [← Function.iterate_succ_apply]
    exact h.2 (m + 1) (Nat.succ_lt_succ hm)

/-- **A bound on the turns that is large enough** does not show. -/
theorem run_eq [DecidablePred p] {n bound : ℕ} (h : EndsAfter p body s n) (hle : n ≤ bound) :
    run p body bound s = body^[n] s := by
  induction bound generalizing s n with
  | zero =>
      obtain rfl := Nat.le_zero.mp hle
      rfl
  | succ bound ih =>
      cases n with
      -- Left at once, whatever turns are allowed.
      | zero => exact if_neg h.1
      | succ n =>
          obtain ⟨hp, hrest⟩ := h.turn
          rw [run, if_pos hp, ih hrest (Nat.le_of_succ_le_succ hle), Function.iterate_succ_apply]

end ESignSoft.Lib
