import Mathlib.Logic.Relation
import Mathlib.Logic.Function.Basic
import Mathlib.Data.List.Basic
import Mathlib.Data.List.Induction

/-!
# Processes interleaving over a shared state

A `Program` says what one process does next from its own local state and the state it shares with the
others, and how the surroundings (a clock, a background worker) may change the shared state in
between.  A `System` is the shared state together with a local state for every process number, and one
step moves exactly one process or the surroundings: an interleaving is any sequence of such steps.
The step function is executable, so a concrete schedule is replayed by evaluation (`run`).

Runs may be restricted by a side condition `ok` on the state a step is taken in and on its label.  The
file proves the three induction rules the developments over it use:

* `Reaches.invariant` and `Reaches.relates` — a property, or a reflexive and transitive relation
  between the first and the last state, kept by every step holds of every run;
* `ProofOutline.holds_of_reaches` — an assertion on the shared state, one on each local state and one
  on each pair of local states hold throughout, once the process that moves re-establishes its own and
  disturbs nobody else's;
* `serial_invariant` — when no process moves while another is under way, only the assertion of the one
  that moves has to be kept.

What a run does in order is put on record: `Records` is a run together with what its steps emit, with an
induction rule of its own (`Records.invariant`) and schedules that are replayed with their record.
-/

namespace ESignSoft.Lib.Interleaving

universe u v w x

variable {σ : Type u} {π : Type v} {χ : Type w} {ε : Type x}

/-- What a process does next and what its surroundings do.  `act p c s l` is the step that process `p`
in local state `l` takes on the shared state `s` under the choice `c` (its arguments, a fault);
`none` means there is no such step. -/
structure Program (σ : Type u) (π : Type v) (χ : Type w) (ε : Type x) where
  act : Nat → χ → σ → π → Option (σ × π)
  env : ε → σ → Option σ

/-- The shared state and the local state of every process. -/
structure System (σ : Type u) (π : Type v) where
  shared : σ
  procs : Nat → π

/-- Who moves: a process under some choice, or the surroundings. -/
inductive Label (χ : Type w) (ε : Type x)
  | proc (p : Nat) (choice : χ)
  | env (event : ε)

/-- The label moves none but the first `n` processes. -/
def Label.below (n : Nat) : Label χ ε → Bool
  | .proc p _ => decide (p < n)
  | .env _ => true

namespace Program

/-- One step of the whole system. -/
def step (P : Program σ π χ ε) (s : System σ π) : Label χ ε → Option (System σ π)
  | .proc p c =>
      (P.act p c s.shared (s.procs p)).map fun r => ⟨r.1, Function.update s.procs p r.2⟩
  | .env e => (P.env e s.shared).map fun sh => ⟨sh, s.procs⟩

/-- Replay a schedule; `none` when some step of it is not possible. -/
def run (P : Program σ π χ ε) (s : System σ π) (ls : List (Label χ ε)) : Option (System σ π) :=
  ls.foldlM P.step s

/-- Replay a schedule whose every step passes a check where it is taken. -/
def runIf (P : Program σ π χ ε) (check : System σ π → Label χ ε → Bool) (s : System σ π)
    (ls : List (Label χ ε)) : Option (System σ π) :=
  ls.foldlM (fun s l => if check s l then P.step s l else none) s

theorem step_proc {P : Program σ π χ ε} {s s' : System σ π} {p : Nat} {c : χ}
    (h : P.step s (.proc p c) = some s') :
    ∃ sh l, P.act p c s.shared (s.procs p) = some (sh, l) ∧
      s' = ⟨sh, Function.update s.procs p l⟩ := by
  obtain ⟨⟨sh, l⟩, hact, rfl⟩ := Option.map_eq_some_iff.mp h
  exact ⟨sh, l, hact, rfl⟩

theorem step_env {P : Program σ π χ ε} {s s' : System σ π} {e : ε}
    (h : P.step s (.env e) = some s') :
    ∃ sh, P.env e s.shared = some sh ∧ s' = ⟨sh, s.procs⟩ := by
  obtain ⟨sh, henv, rfl⟩ := Option.map_eq_some_iff.mp h
  exact ⟨sh, henv, rfl⟩

/-- A process that a schedule never moves stays where it is. -/
theorem procs_of_runIf {P : Program σ π χ ε} {check : System σ π → Label χ ε → Bool}
    {ls : List (Label χ ε)} {n p : Nat} (hls : ls.all (Label.below n) = true) (hp : n ≤ p)
    {s s' : System σ π} (h : P.runIf check s ls = some s') : s'.procs p = s.procs p := by
  induction ls generalizing s with
  | nil =>
      obtain rfl : s = s' := by simpa [runIf] using h
      rfl
  | cons l ls ih =>
      obtain ⟨t, ht, hrest⟩ : ∃ t, (if check s l = true then P.step s l else none) = some t ∧
          P.runIf check t ls = some s' := by
        simpa [runIf, List.foldlM_cons, Option.bind_eq_some_iff] using h
      rw [List.all_cons, Bool.and_eq_true] at hls
      rw [ih hls.2 hrest]
      split at ht
      · cases l with
        | proc q c =>
            obtain ⟨sh, l', -, rfl⟩ := step_proc ht
            have hq : q < n := of_decide_eq_true hls.1
            have hpq : p ≠ q := by omega
            simp [hpq]
        | env e =>
            obtain ⟨sh, -, rfl⟩ := step_env ht
            rfl
      · cases ht

end Program

/-- One step, with the label forgotten and the side condition checked where the step is taken. -/
def Moves (P : Program σ π χ ε) (ok : System σ π → Label χ ε → Prop) (s s' : System σ π) : Prop :=
  ∃ l, ok s l ∧ P.step s l = some s'

/-- `s'` is reached from `s` by steps that all meet the side condition. -/
def Reaches (P : Program σ π χ ε) (ok : System σ π → Label χ ε → Prop) :
    System σ π → System σ π → Prop :=
  Relation.ReflTransGen (Moves P ok)

namespace Reaches

variable {P : Program σ π χ ε} {ok : System σ π → Label χ ε → Prop}

theorem refl (s : System σ π) : Reaches P ok s s := Relation.ReflTransGen.refl

theorem trans {s t r : System σ π} (hst : Reaches P ok s t) (htr : Reaches P ok t r) :
    Reaches P ok s r :=
  Relation.ReflTransGen.trans hst htr

/-- What holds at the start and is kept by every step holds of every reached state. -/
theorem invariant {I : System σ π → Prop}
    (hstep : ∀ s l s', I s → ok s l → P.step s l = some s' → I s')
    {s₀ s : System σ π} (h : Reaches P ok s₀ s) (h₀ : I s₀) : I s := by
  induction h with
  | refl => exact h₀
  | tail _ hmove ih =>
      obtain ⟨l, hok, hl⟩ := hmove
      exact hstep _ l _ ih hok hl

/-- A reflexive and transitive relation that every step obeys relates the ends of every run. -/
theorem relates {R : System σ π → System σ π → Prop} (hrefl : ∀ s, R s s)
    (htrans : ∀ s t r, R s t → R t r → R s r)
    (hstep : ∀ s l s', ok s l → P.step s l = some s' → R s s')
    {s₀ s : System σ π} (h : Reaches P ok s₀ s) : R s₀ s := by
  induction h with
  | refl => exact hrefl s₀
  | tail _ hmove ih =>
      obtain ⟨l, hok, hl⟩ := hmove
      exact htrans _ _ _ ih (hstep _ l _ hok hl)

/-- An invariant already proved may be assumed in the side condition of later arguments. -/
theorem strengthen {I : System σ π → Prop}
    (hstep : ∀ s l s', I s → ok s l → P.step s l = some s' → I s')
    {s₀ s : System σ π} (h : Reaches P ok s₀ s) (h₀ : I s₀) :
    Reaches P (fun s l => ok s l ∧ I s) s₀ s := by
  induction h with
  | refl => exact refl s₀
  | tail hpre hmove ih =>
      obtain ⟨l, hok, hl⟩ := hmove
      exact Relation.ReflTransGen.tail ih ⟨l, ⟨hok, invariant hstep hpre h₀⟩, hl⟩

/-- A weaker side condition allows at least the same runs. -/
theorem mono {ok' : System σ π → Label χ ε → Prop} (hok : ∀ s l, ok s l → ok' s l)
    {s₀ s : System σ π} (h : Reaches P ok s₀ s) : Reaches P ok' s₀ s :=
  Relation.ReflTransGen.mono
    (fun s _ hmove => by
      obtain ⟨l, hl, hstep⟩ := hmove
      exact ⟨l, hok s l hl, hstep⟩) _ _ h

/-- A replayed schedule whose labels always meet the side condition is a run. -/
theorem of_run {ls : List (Label χ ε)} (hok : ∀ l ∈ ls, ∀ s, ok s l)
    {s₀ s : System σ π} (h : P.run s₀ ls = some s) : Reaches P ok s₀ s := by
  induction ls generalizing s₀ with
  | nil =>
      obtain rfl : s₀ = s := by simpa [Program.run] using h
      exact refl s₀
  | cons l ls ih =>
      obtain ⟨t, ht, hrest⟩ : ∃ t, P.step s₀ l = some t ∧ P.run t ls = some s := by
        simpa [Program.run, List.foldlM_cons, Option.bind_eq_some_iff] using h
      have hmove : Moves P ok s₀ t := ⟨l, hok l (by simp) s₀, ht⟩
      exact Relation.ReflTransGen.head hmove (ih (fun l' hl' => hok l' (by simp [hl'])) hrest)

/-- A schedule replayed under a check is a run whose steps all pass it. -/
theorem of_runIf {check : System σ π → Label χ ε → Bool} {ls : List (Label χ ε)} {s₀ s : System σ π}
    (h : P.runIf check s₀ ls = some s) : Reaches P (fun s l => check s l = true) s₀ s := by
  induction ls generalizing s₀ with
  | nil =>
      obtain rfl : s₀ = s := by simpa [Program.runIf] using h
      exact refl s₀
  | cons l ls ih =>
      obtain ⟨t, ht, hrest⟩ : ∃ t, (if check s₀ l = true then P.step s₀ l else none) = some t ∧
          P.runIf check t ls = some s := by
        simpa [Program.runIf, List.foldlM_cons, Option.bind_eq_some_iff] using h
      by_cases hl : check s₀ l = true
      · rw [if_pos hl] at ht
        have hmove : Moves P (fun s l => check s l = true) s₀ t := ⟨l, hl, ht⟩
        exact Relation.ReflTransGen.head hmove (ih hrest)
      · rw [if_neg hl] at ht
        cases ht

end Reaches

/-! ## Proof outlines -/

section Outline

variable {P : Program σ π χ ε} {ok : System σ π → Label χ ε → Prop}
variable {J : σ → Prop} {A : σ → Nat → π → Prop} {B : π → π → Prop}

/-- The shared assertion `J`, the local assertion `A` of every process and the assertion `B` about
every two processes, all together. -/
structure Holds (J : σ → Prop) (A : σ → Nat → π → Prop) (B : π → π → Prop) (s : System σ π) :
    Prop where
  shared : J s.shared
  proc : ∀ p, A s.shared p (s.procs p)
  pair : ∀ p q, p ≠ q → B (s.procs p) (s.procs q)

/-- An outline is sound when the process that moves re-establishes the shared assertion and its own,
leaves the others' standing, and the surroundings disturb nothing. -/
structure ProofOutline (P : Program σ π χ ε) (ok : System σ π → Label χ ε → Prop)
    (J : σ → Prop) (A : σ → Nat → π → Prop) (B : π → π → Prop) : Prop where
  act : ∀ s p c sh l, Holds J A B s → ok s (.proc p c) →
    P.act p c s.shared (s.procs p) = some (sh, l) →
    J sh ∧ A sh p l ∧ (∀ q, q ≠ p → A sh q (s.procs q)) ∧
      ∀ q, q ≠ p → B l (s.procs q) ∧ B (s.procs q) l
  env : ∀ s e sh, Holds J A B s → ok s (.env e) → P.env e s.shared = some sh →
    J sh ∧ ∀ q, A sh q (s.procs q)

/-- A sound outline is kept by every step. -/
theorem ProofOutline.holds_step (O : ProofOutline P ok J A B) (s : System σ π) (l : Label χ ε)
    (s' : System σ π) (hs : Holds J A B s) (hok : ok s l) (hstep : P.step s l = some s') :
    Holds J A B s' := by
  cases l with
  | proc p c =>
      obtain ⟨sh, l, hact, rfl⟩ := Program.step_proc hstep
      obtain ⟨hJ, hown, hothers, hpairs⟩ := O.act s p c sh l hs hok hact
      refine ⟨hJ, fun q => ?_, fun q r hqr => ?_⟩
      · by_cases hq : q = p
        · subst hq
          simpa using hown
        · simpa [hq] using hothers q hq
      · by_cases hq : q = p
        · subst hq
          have hr : r ≠ q := fun h => hqr h.symm
          simpa [hr] using (hpairs r hr).1
        · by_cases hr : r = p
          · subst hr
            simpa [hq] using (hpairs q hq).2
          · simpa [hq, hr] using hs.pair q r hqr
  | env e =>
      obtain ⟨sh, henv, rfl⟩ := Program.step_env hstep
      obtain ⟨hJ, hprocs⟩ := O.env s e sh hs hok henv
      exact ⟨hJ, hprocs, hs.pair⟩

/-- The assertions of a sound outline hold in every reached state. -/
theorem ProofOutline.holds_of_reaches (O : ProofOutline P ok J A B) {s₀ s : System σ π}
    (h : Reaches P ok s₀ s) (h₀ : Holds J A B s₀) : Holds J A B s :=
  Reaches.invariant O.holds_step h h₀

end Outline

/-! ## Serial runs -/

section Serial

/-- Every process is at rest. -/
def AtRest (rest : π → Prop) (s : System σ π) : Prop := ∀ p, rest (s.procs p)

/-- A process moves only while every other one is at rest. -/
def Alone (rest : π → Prop) (s : System σ π) : Label χ ε → Prop
  | .proc p _ => ∀ q, q ≠ p → rest (s.procs q)
  | .env _ => True

variable {P : Program σ π χ ε} {ok : System σ π → Label χ ε → Prop}

/-- The check that one of the first `n` processes moves alone among them. -/
def aloneBelow (rest : π → Bool) (n : Nat) (s : System σ π) : Label χ ε → Bool
  | .proc p _ => decide (p < n) && (List.range n).all fun q => q == p || rest (s.procs q)
  | .env _ => true

/-- Where the other processes start at rest, passing the check is moving alone. -/
theorem Reaches.alone {rest : π → Bool} {n : Nat} {s₀ s : System σ π}
    (h : Reaches P (fun s l => ok s l ∧ aloneBelow rest n s l = true) s₀ s)
    (h₀ : ∀ q, n ≤ q → rest (s₀.procs q) = true) :
    Reaches P (fun s l => ok s l ∧ Alone (fun l => rest l = true) s l) s₀ s := by
  refine (Reaches.strengthen (I := fun s => ∀ q, n ≤ q → rest (s.procs q) = true) ?_ h h₀).mono ?_
  · rintro s l s' hI ⟨-, hcheck⟩ hstep q hq
    cases l with
    | proc p c =>
        obtain ⟨sh, l', -, rfl⟩ := Program.step_proc hstep
        have hp : p < n := of_decide_eq_true (Bool.and_eq_true_iff.mp hcheck).1
        have hqp : q ≠ p := by omega
        simpa [hqp] using hI q hq
    | env e =>
        obtain ⟨sh, -, rfl⟩ := Program.step_env hstep
        exact hI q hq
  · rintro s l ⟨⟨hok, hcheck⟩, hI⟩
    refine ⟨hok, ?_⟩
    cases l with
    | proc p c =>
        intro q hqp
        by_cases hq : q < n
        · have hall := List.all_eq_true.mp (Bool.and_eq_true_iff.mp hcheck).2 q (List.mem_range.mpr hq)
          simpa [hqp] using hall
        · exact hI q (by omega)
    | env e => trivial

variable {rest : π → Prop} {J : σ → Prop} {A : σ → π → Prop}

/-- In a serial run one process carries the assertion `A` and the others are at rest, where `A` is the
assertion `J` on the shared state alone. -/
theorem serial_invariant (halone : ∀ s l, ok s l → Alone rest s l)
    (hrest : ∀ sh l, rest l → (A sh l ↔ J sh))
    (hact : ∀ s p c sh l, ok s (.proc p c) → A s.shared (s.procs p) →
      P.act p c s.shared (s.procs p) = some (sh, l) → A sh l)
    (henv : ∀ s e sh l, ok s (.env e) → P.env e s.shared = some sh → A s.shared l → A sh l)
    {s₀ s : System σ π} (h : Reaches P ok s₀ s)
    (h₀ : ∃ p, (∀ q, q ≠ p → rest (s₀.procs q)) ∧ A s₀.shared (s₀.procs p)) :
    ∃ p, (∀ q, q ≠ p → rest (s.procs q)) ∧ A s.shared (s.procs p) := by
  refine Reaches.invariant (I := fun s => ∃ p, (∀ q, q ≠ p → rest (s.procs q)) ∧
    A s.shared (s.procs p)) ?_ h h₀
  rintro s l s' ⟨p, hothers, hp⟩ hok hstep
  cases l with
  | proc r c =>
      have hr : ∀ q, q ≠ r → rest (s.procs q) := halone s _ hok
      obtain ⟨sh, l, hl, rfl⟩ := Program.step_proc hstep
      -- Whoever carried the assertion so far, the process that moves carries it now.
      have hcarry : A s.shared (s.procs r) := by
        by_cases hpr : r = p
        · exact hpr ▸ hp
        · exact (hrest _ _ (hothers r hpr)).mpr ((hrest _ _ (hr p (fun h => hpr h.symm))).mp hp)
      refine ⟨r, fun q hq => ?_, ?_⟩
      · simpa [hq] using hr q hq
      · simpa using hact s r c sh l hok hcarry hl
  | env e =>
      obtain ⟨sh, hsh, rfl⟩ := Program.step_env hstep
      exact ⟨p, hothers, henv s e sh _ hok hsh hp⟩

/-- Where everything is at rest, a serial run ends in the assertion on the shared state. -/
theorem serial_at_rest (hrest : ∀ sh l, rest l → (A sh l ↔ J sh)) {s : System σ π}
    (hs : ∃ p, (∀ q, q ≠ p → rest (s.procs q)) ∧ A s.shared (s.procs p)) (hat : AtRest rest s) :
    J s.shared := by
  obtain ⟨p, -, hp⟩ := hs
  exact (hrest _ _ (hat p)).mp hp

end Serial

/-! ## Runs on record -/

section Record

variable {δ : Type*}

/-- A run with what its steps emit, newest first. -/
inductive Records (P : Program σ π χ ε) (ok : System σ π → Label χ ε → Prop)
    (emits : System σ π → System σ π → List δ) (s₀ : System σ π) : List δ → System σ π → Prop
  | refl : Records P ok emits s₀ [] s₀
  | tail {record : List δ} {s s' : System σ π} {l : Label χ ε} (h : Records P ok emits s₀ record s)
      (hok : ok s l) (hstep : P.step s l = some s') : Records P ok emits s₀ (emits s s' ++ record) s'

namespace Program

/-- Replay a schedule whose every step passes a check, with its record. -/
def recordIf (P : Program σ π χ ε) (check : System σ π → Label χ ε → Bool)
    (emits : System σ π → System σ π → List δ) (s : System σ π) (ls : List (Label χ ε)) :
    Option (List δ × System σ π) :=
  ls.foldlM (fun r l =>
    if check r.2 l then (P.step r.2 l).map fun s' => (emits r.2 s' ++ r.1, s') else none) ([], s)

/-- The last step of a replay. -/
theorem recordIf_append {P : Program σ π χ ε} {check : System σ π → Label χ ε → Bool}
    {emits : System σ π → System σ π → List δ} {s s' : System σ π} {ls : List (Label χ ε)} {l : Label χ ε}
    {record : List δ} (h : P.recordIf check emits s (ls ++ [l]) = some (record, s')) :
    ∃ before t, P.recordIf check emits s ls = some (before, t) ∧ check t l = true ∧
      P.step t l = some s' ∧ record = emits t s' ++ before := by
  obtain ⟨⟨before, t⟩, hpre, hlast⟩ : ∃ r, P.recordIf check emits s ls = some r ∧
      (if check r.2 l = true then (P.step r.2 l).map fun s' => (emits r.2 s' ++ r.1, s') else none) =
        some (record, s') := by
    simpa [recordIf, List.foldlM_append, Option.bind_eq_some_iff] using h
  simp only at hlast
  split at hlast
  · rename_i hl
    obtain ⟨t', hstep, heq⟩ := Option.map_eq_some_iff.mp hlast
    obtain ⟨rfl, rfl⟩ := Prod.mk.inj heq
    exact ⟨before, t, hpre, hl, hstep, rfl⟩
  · cases hlast

/-- A replay, with its record forgotten. -/
theorem runIf_of_recordIf {P : Program σ π χ ε} {check : System σ π → Label χ ε → Bool}
    {emits : System σ π → System σ π → List δ} {s s' : System σ π} {ls : List (Label χ ε)} {record : List δ}
    (h : P.recordIf check emits s ls = some (record, s')) : P.runIf check s ls = some s' := by
  induction ls using List.reverseRecOn generalizing record s' with
  | nil =>
      obtain ⟨rfl, rfl⟩ : [] = record ∧ s = s' := by simpa [recordIf] using h
      rfl
  | append_singleton ls l ih =>
      obtain ⟨before, t, hpre, hl, hstep, rfl⟩ := recordIf_append h
      have hrun := ih hpre
      unfold runIf at hrun ⊢
      rw [List.foldlM_append, hrun]
      simp [hl, hstep]

end Program

namespace Records

variable {P : Program σ π χ ε} {ok : System σ π → Label χ ε → Prop}
variable {emits : System σ π → System σ π → List δ} {s₀ s : System σ π} {record : List δ}

/-- A run, with its record forgotten. -/
theorem reaches (h : Records P ok emits s₀ record s) : Reaches P ok s₀ s := by
  induction h with
  | refl => exact Reaches.refl s₀
  | tail _ hok hstep ih => exact Relation.ReflTransGen.tail ih ⟨_, hok, hstep⟩

/-- What holds at the start of the record and is kept by every step holds throughout. -/
theorem invariant {I : List δ → System σ π → Prop}
    (hstep : ∀ record s l s', I record s → ok s l → P.step s l = some s' → I (emits s s' ++ record) s')
    (h : Records P ok emits s₀ record s) (h₀ : I [] s₀) : I record s := by
  induction h with
  | refl => exact h₀
  | tail _ hok hl ih => exact hstep _ _ _ _ ih hok hl

/-- A weaker side condition allows at least the same records. -/
theorem mono {ok' : System σ π → Label χ ε → Prop} (hok : ∀ s l, ok s l → ok' s l)
    (h : Records P ok emits s₀ record s) : Records P ok' emits s₀ record s := by
  induction h with
  | refl => exact .refl
  | tail _ hl hstep ih => exact .tail ih (hok _ _ hl) hstep

/-- A schedule replayed under a check, with its record. -/
theorem of_recordIf {check : System σ π → Label χ ε → Bool} {ls : List (Label χ ε)}
    (h : P.recordIf check emits s₀ ls = some (record, s)) :
    Records P (fun s l => check s l = true) emits s₀ record s := by
  induction ls using List.reverseRecOn generalizing record s with
  | nil =>
      obtain ⟨rfl, rfl⟩ : [] = record ∧ s₀ = s := by simpa [Program.recordIf] using h
      exact .refl
  | append_singleton ls l ih =>
      obtain ⟨before, t, hpre, hl, hstep, rfl⟩ := Program.recordIf_append h
      exact .tail (ih hpre) hl hstep

end Records

end Record

end ESignSoft.Lib.Interleaving
