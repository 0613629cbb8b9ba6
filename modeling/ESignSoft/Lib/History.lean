import ESignSoft.Lib.Interleaving
import Mathlib.Data.List.Perm.Subperm

/-!
# History variables

A logged program does what the program does and puts on record what each step of a process is.  The record
is part of the shared state, so that a proof outline may speak of it, and it is of no influence on what
happens.

* `Reaches.assume` — what is known of the runs of the program may be assumed of its logged runs;
* `Reaches.emitting` — what holds of the whole record is a condition on the steps.

One kind of record is of processes that take something in hand and give it away later, if at all
(`Errand`).  `Reaches.given_subperm` is the rule for it: whatever is given away was taken before, each time
anew.
-/

namespace ESignSoft.Lib.Interleaving

universe u v w x

variable {σ : Type u} {π : Type v} {χ : Type w} {ε : Type x} {δ : Type*}

/-- A state with what has happened so far, newest first. -/
structure Logged (σ : Type u) (δ : Type*) where
  state : σ
  log : List δ

namespace Program

/-- The program, with each step of a process put on record where it is taken. -/
def logged (P : Program σ π χ ε) (emits : Nat → χ → σ → π → List δ) : Program (Logged σ δ) π χ ε where
  act p c s l := (P.act p c s.state l).map fun r => (⟨r.1, emits p c s.state l ++ s.log⟩, r.2)
  env e s := (P.env e s.state).map fun sh => ⟨sh, s.log⟩

variable {P : Program σ π χ ε} {emits : Nat → χ → σ → π → List δ}

theorem logged_act {p : Nat} {c : χ} {s s' : Logged σ δ} {l l' : π}
    (h : (P.logged emits).act p c s l = some (s', l')) :
    P.act p c s.state l = some (s'.state, l') ∧ s'.log = emits p c s.state l ++ s.log := by
  obtain ⟨⟨sh, l''⟩, hact, heq⟩ := Option.map_eq_some_iff.mp h
  obtain ⟨rfl, rfl⟩ := Prod.mk.inj heq
  exact ⟨hact, rfl⟩

theorem logged_env {e : ε} {s s' : Logged σ δ} (h : (P.logged emits).env e s = some s') :
    P.env e s.state = some s'.state ∧ s'.log = s.log := by
  obtain ⟨sh, henv, rfl⟩ := Option.map_eq_some_iff.mp h
  exact ⟨henv, rfl⟩

end Program

/-- The system, with the record forgotten. -/
def System.unlogged (s : System (Logged σ δ) π) : System σ π := ⟨s.shared.state, s.procs⟩

/-- The system, with a record that is still empty. -/
def System.logging (s : System σ π) : System (Logged σ δ) π := ⟨⟨s.shared, []⟩, s.procs⟩

section

variable {P : Program σ π χ ε} {emits : Nat → χ → σ → π → List δ} {ok : System σ π → Label χ ε → Prop}

theorem Program.step_unlogged {s s' : System (Logged σ δ) π} {l : Label χ ε}
    (h : (P.logged emits).step s l = some s') : P.step s.unlogged l = some s'.unlogged := by
  cases l with
  | proc p c =>
      obtain ⟨sh, l', hact, rfl⟩ := Program.step_proc h
      have hplain : P.act p c s.unlogged.shared (s.unlogged.procs p) = some (sh.state, l') :=
        (Program.logged_act hact).1
      simp only [Program.step, hplain, Option.map_some]
      rfl
  | env e =>
      obtain ⟨sh, henv, rfl⟩ := Program.step_env h
      have hplain : P.env e s.unlogged.shared = some sh.state := (Program.logged_env henv).1
      simp only [Program.step, hplain, Option.map_some]
      rfl

/-- Every entry the step puts on record is as described. -/
def Emits (emits : Nat → χ → σ → π → List δ) (Q : δ → Prop) (s : System σ π) : Label χ ε → Prop
  | .proc p c => ∀ d ∈ emits p c s.shared (s.procs p), Q d
  | .env _ => True

namespace Reaches

variable (ok) in
/-- An invariant of the program, assumed along a logged run and at its end. -/
theorem assume {I : System σ π → Prop} (hstep : ∀ s l s', I s → ok s l → P.step s l = some s' → I s')
    {s₀ s : System (Logged σ δ) π} (h : Reaches (P.logged emits) (fun s l => ok s.unlogged l) s₀ s)
    (h₀ : I s₀.unlogged) :
    Reaches (P.logged emits) (fun s l => ok s.unlogged l ∧ I s.unlogged) s₀ s :=
  strengthen (I := fun s => I s.unlogged)
    (fun _ _ _ hI hok hl => hstep _ _ _ hI hok (Program.step_unlogged hl)) h h₀

variable (ok) in
/-- A run whose whole record is as described is a run of steps that each put such entries on record. -/
theorem emitting {Q : δ → Prop} {s₀ s : System (Logged σ δ) π}
    (h : Reaches (P.logged emits) (fun s l => ok s.unlogged l) s₀ s) (hlog : ∀ d ∈ s.shared.log, Q d) :
    Reaches P (fun s l => ok s l ∧ Emits emits Q s l) s₀.unlogged s.unlogged := by
  induction h with
  | refl => exact refl _
  | @tail t t' _ hmove ih =>
      obtain ⟨l, hok, hl⟩ := hmove
      cases l with
      | proc p c =>
          obtain ⟨sh, l', hact, rfl⟩ := Program.step_proc hl
          have hnew := (Program.logged_act hact).2
          -- The record only grows: its end describes this step, the rest the run before it.
          simp only [hnew, List.mem_append] at hlog
          exact Relation.ReflTransGen.tail (ih fun d hd => hlog d (Or.inr hd))
            ⟨.proc p c, ⟨hok, fun d hd => hlog d (Or.inl hd)⟩, Program.step_unlogged hl⟩
      | env e =>
          obtain ⟨sh, henv, rfl⟩ := Program.step_env hl
          simp only [(Program.logged_env henv).2] at hlog
          exact Relation.ReflTransGen.tail (ih hlog) ⟨.env e, ⟨hok, trivial⟩, Program.step_unlogged hl⟩

end Reaches

end

/-! ## Errands -/

/-- Process `p` takes `b` in hand, with a note of the circumstances, or gives it away. -/
inductive Errand (α β : Type*)
  | took (p : Nat) (b : β) (note : α)
  | gave (p : Nat) (b : β)

namespace Errand

variable {α β : Type*}

def taken (log : List (Errand α β)) : List (Nat × β) :=
  log.filterMap fun
    | took p b _ => some (p, b)
    | gave _ _ => none

def given (log : List (Errand α β)) : List (Nat × β) :=
  log.filterMap fun
    | took _ _ _ => none
    | gave p b => some (p, b)

def notes (log : List (Errand α β)) : List α :=
  log.filterMap fun
    | took _ _ note => some note
    | gave _ _ => none

@[simp] theorem taken_took (p : Nat) (b : β) (note : α) (log : List (Errand α β)) :
    taken (took p b note :: log) = (p, b) :: taken log := rfl

@[simp] theorem taken_gave (p : Nat) (b : β) (log : List (Errand α β)) :
    taken (gave p b :: log) = taken log := rfl

@[simp] theorem given_took (p : Nat) (b : β) (note : α) (log : List (Errand α β)) :
    given (took p b note :: log) = given log := rfl

@[simp] theorem given_gave (p : Nat) (b : β) (log : List (Errand α β)) :
    given (gave p b :: log) = (p, b) :: given log := rfl

@[simp] theorem notes_took (p : Nat) (b : β) (note : α) (log : List (Errand α β)) :
    notes (took p b note :: log) = note :: notes log := rfl

@[simp] theorem notes_gave (p : Nat) (b : β) (log : List (Errand α β)) :
    notes (gave p b :: log) = notes log := rfl

/-- What a process gave away and what it has in hand, it took. -/
def Accounted [DecidableEq β] (hand : π → Option β) (log : List (Errand α β)) (p : Nat) (l : π) : Prop :=
  ∀ b, (given log).count (p, b) + (if hand l = some b then 1 else 0) ≤ (taken log).count (p, b)

/-- How a step of process `p` deals with what it has in hand. -/
inductive Deals (hand : π → Option β) (p : Nat) (l l' : π) : List (Errand α β) → Prop
  | kept (h : hand l' = hand l ∨ hand l' = none) : Deals hand p l l' []
  | took (b : β) (note : α) (h : hand l' = some b) : Deals hand p l l' [.took p b note]
  | gave (b : β) (h : hand l = some b) (h' : hand l' = none) : Deals hand p l l' [.gave p b]

variable [DecidableEq β] {hand : π → Option β}

theorem Accounted.deals {log new : List (Errand α β)} {p : Nat} {l l' : π} (h : Accounted hand log p l)
    (hdeals : Deals hand p l l' new) : Accounted hand (new ++ log) p l' := by
  intro b
  have hb := h b
  cases hdeals with
  | kept hkept =>
      rw [List.nil_append]
      rcases hkept with hsame | hnone
      · rwa [hsame]
      · rw [hnone, if_neg (by simp)]
        omega
  | took b' note hhand =>
      by_cases hbb : b' = b
      · subst hbb
        simp only [List.singleton_append, given_took, taken_took, List.count_cons_self, hhand, if_true]
        omega
      · have hne : ¬ hand l' = some b := by simp [hhand, hbb]
        simp only [List.singleton_append, given_took, taken_took, if_neg hne]
        rw [List.count_cons_of_ne (by simp [hbb])]
        omega
  | gave b' hhand hhand' =>
      -- What was counted as in hand is counted as given from here on.
      have hne : ¬ hand l' = some b := by simp [hhand']
      by_cases hbb : b' = b
      · subst hbb
        rw [if_pos hhand] at hb
        simp only [List.singleton_append, given_gave, taken_gave, List.count_cons_self, if_neg hne]
        omega
      · simp only [List.singleton_append, given_gave, taken_gave, if_neg hne]
        rw [List.count_cons_of_ne (by simp [hbb])]
        omega

/-- What one process takes and gives is nothing to the others. -/
theorem Accounted.other {log new : List (Errand α β)} {p q : Nat} {l l' k : π} (hqp : q ≠ p)
    (h : Accounted hand log q k) (hdeals : Deals hand p l l' new) : Accounted hand (new ++ log) q k := by
  intro b
  have hb := h b
  cases hdeals with
  | kept hkept => exact hb
  | took b' note hhand =>
      simp only [List.singleton_append, given_took, taken_took]
      rw [List.count_cons_of_ne (by simp [Ne.symm hqp])]
      exact hb
  | gave b' hhand hhand' =>
      simp only [List.singleton_append, given_gave, taken_gave]
      rw [List.count_cons_of_ne (by simp [Ne.symm hqp])]
      exact hb

end Errand

section

variable {α β : Type*} [DecidableEq β] {P : Program σ π χ ε}
variable {emits : Nat → χ → σ → π → List (Errand α β)} {hand : π → Option β}
variable {ok : System (Logged σ (Errand α β)) π → Label χ ε → Prop}

theorem errandOutline (hdeals : ∀ s p c sh l', ok s (.proc p c) →
      P.act p c s.shared.state (s.procs p) = some (sh, l') →
      Errand.Deals hand p (s.procs p) l' (emits p c s.shared.state (s.procs p))) :
    ProofOutline (P.logged emits) ok (fun _ => True) (fun s p l => Errand.Accounted hand s.log p l)
      (fun _ _ => True) where
  act s p c sh l' hs hok hact := by
    obtain ⟨hplain, hlog⟩ := Program.logged_act hact
    have hstep := hdeals s p c sh.state l' hok hplain
    refine ⟨trivial, ?_, fun q hq => ?_, fun _ _ => ⟨trivial, trivial⟩⟩
    · rw [hlog]
      exact (hs.proc p).deals hstep
    · rw [hlog]
      exact (hs.proc q).other hq hstep
  env s e sh hs _ henv := by
    refine ⟨trivial, fun q => ?_⟩
    rw [(Program.logged_env henv).2]
    exact hs.proc q

variable (hand) in
/-- Where nobody has anything in hand at the start, whatever is given away was taken, each time anew. -/
theorem Reaches.given_subperm (hdeals : ∀ s p c sh l', ok s (.proc p c) →
      P.act p c s.shared.state (s.procs p) = some (sh, l') →
      Errand.Deals hand p (s.procs p) l' (emits p c s.shared.state (s.procs p)))
    {s₀ : System σ π} {s : System (Logged σ (Errand α β)) π} (h : Reaches (P.logged emits) ok s₀.logging s)
    (h₀ : ∀ p, hand (s₀.procs p) = none) :
    List.Subperm ((Errand.given s.shared.log).map Prod.snd) ((Errand.taken s.shared.log).map Prod.snd) := by
  have hstart : Holds (fun _ => True) (fun s p l => Errand.Accounted hand s.log p l) (fun _ _ => True)
      (s₀.logging : System (Logged σ (Errand α β)) π) := by
    refine ⟨trivial, fun p b => ?_, fun _ _ _ => trivial⟩
    simp [System.logging, Errand.given, Errand.taken, h₀ p]
  have hall := (errandOutline hdeals).holds_of_reaches h hstart
  have hpairs : List.Subperm (Errand.given s.shared.log) (Errand.taken s.shared.log) :=
    List.subperm_ext_iff.mpr fun x _ => Nat.le_trans (Nat.le_add_right _ _) (hall.proc x.1 x.2)
  obtain ⟨l, hperm, hsub⟩ := hpairs
  exact ⟨l.map Prod.snd, hperm.map Prod.snd, hsub.map Prod.snd⟩

end

end ESignSoft.Lib.Interleaving
