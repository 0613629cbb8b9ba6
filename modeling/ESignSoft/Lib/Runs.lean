import Mathlib.Data.List.Infix
import Mathlib.Data.List.Basic

/-!
# Runs of a machine

A machine takes an action in a state to the next state, or refuses it; a run is a list of actions none of
which it refuses.

* `invariant_of_run` — what every action keeps holds at the end of a run;
* `Along`, `AtEach` — what holds in every state a run passes, and at every action it takes;
* `along_iff` — an invariant holds along a run exactly when each action meets the condition under which it
  is kept.
-/

namespace ESignSoft.Lib

variable {σ α : Type*}

/-- In every state that the actions pass, the first and the last ones included. -/
def Along (step : σ → α → Option σ) (I : σ → Prop) (s : σ) (actions : List α) : Prop :=
  ∀ before s', before <+: actions → before.foldlM step s = some s' → I s'

/-- At each action, in the state it is taken in. -/
def AtEach (step : σ → α → Option σ) (C : σ → α → Prop) (s : σ) (actions : List α) : Prop :=
  ∀ before a s', before ++ [a] <+: actions → before.foldlM step s = some s' → C s' a

variable {step : σ → α → Option σ} {I : σ → Prop} {C : σ → α → Prop} {s s' : σ} {a : α} {actions : List α}

theorem invariant_of_run (hstep : ∀ s a s', I s → step s a = some s' → I s') {last : σ} (hs : I s)
    (hrun : actions.foldlM step s = some last) : I last := by
  induction actions generalizing s with
  | nil =>
      obtain rfl := Option.some.inj hrun
      exact hs
  | cons a actions ih =>
      rw [List.foldlM_cons] at hrun
      obtain ⟨s', ha, hrest⟩ := Option.bind_eq_some_iff.mp hrun
      exact ih (hstep s a s' hs ha) hrest

theorem foldlM_cons_eq (h : step s a = some s') (before : List α) :
    (a :: before).foldlM step s = before.foldlM step s' := by
  rw [List.foldlM_cons, h]
  rfl

theorem along_nil : Along step I s [] ↔ I s := by
  constructor
  · exact fun h => h [] s List.prefix_rfl rfl
  · intro h before s' hbefore hrun
    obtain rfl := List.prefix_nil.mp hbefore
    obtain rfl := Option.some.inj hrun
    exact h

theorem along_cons (h : step s a = some s') : Along step I s (a :: actions) ↔ I s ∧ Along step I s' actions := by
  constructor
  · intro hall
    refine ⟨hall [] s List.nil_prefix rfl, fun before t hbefore hrun => ?_⟩
    exact hall (a :: before) t ((List.prefix_cons_inj a).mpr hbefore) (by rwa [foldlM_cons_eq h])
  · rintro ⟨hs, hrest⟩ before t hbefore hrun
    cases before with
    | nil =>
        obtain rfl := Option.some.inj hrun
        exact hs
    | cons b before =>
        obtain ⟨rfl, hprefix⟩ := List.cons_prefix_cons.mp hbefore
        rw [foldlM_cons_eq h] at hrun
        exact hrest before t hprefix hrun

theorem atEach_nil : AtEach step C s [] := by
  intro before a s' hbefore
  simp at hbefore

theorem atEach_cons (h : step s a = some s') :
    AtEach step C s (a :: actions) ↔ C s a ∧ AtEach step C s' actions := by
  constructor
  · intro hall
    refine ⟨hall [] a s (by simp) rfl, fun before b t hbefore hrun => ?_⟩
    exact hall (a :: before) b t (by simpa using hbefore) (by rwa [foldlM_cons_eq h])
  · rintro ⟨hs, hrest⟩ before b t hbefore hrun
    cases before with
    | nil =>
        obtain rfl := Option.some.inj hrun
        obtain ⟨rfl, -⟩ := List.cons_prefix_cons.mp hbefore
        exact hs
    | cons c before =>
        obtain ⟨rfl, hprefix⟩ := List.cons_prefix_cons.mp hbefore
        rw [foldlM_cons_eq h] at hrun
        exact hrest before b t hprefix hrun

/-- **An invariant holds along a run** exactly when each action meets the condition under which it is
kept. -/
theorem along_iff (hstep : ∀ s a s', I s → step s a = some s' → (I s' ↔ C s a)) {last : σ} (hs : I s)
    (hrun : actions.foldlM step s = some last) : Along step I s actions ↔ AtEach step C s actions := by
  induction actions generalizing s with
  | nil =>
      rw [along_nil]
      exact iff_of_true hs atEach_nil
  | cons a actions ih =>
      cases ha : step s a with
      | none =>
          rw [List.foldlM_cons, ha] at hrun
          cases hrun
      | some s' =>
          rw [foldlM_cons_eq ha] at hrun
          rw [along_cons ha, atEach_cons ha, ← hstep s a s' hs ha]
          -- The first action is met by the condition on it, the others by induction from where it leads.
          constructor
          · rintro ⟨-, hrest⟩
            have hs' : I s' := hrest [] s' List.nil_prefix rfl
            exact ⟨hs', (ih hs' hrun).mp hrest⟩
          · rintro ⟨hs', hrest⟩
            exact ⟨hs, (ih hs' hrun).mpr hrest⟩

end ESignSoft.Lib
