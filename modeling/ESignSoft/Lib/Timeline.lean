import Mathlib.Data.List.Basic
import Mathlib.Data.List.Induction

/-!
# Undo and redo

A timeline holds what is shown now, what was shown before it and what was undone.  Doing something new puts
what is shown on record and gives up what was undone; a record is kept up to a limit.

* `undo_act`, `redo_undo` — what undo and redo give back;
* `eq_of_alike` — two timelines that look alike however often undo and redo are pressed are the same;
* `kept_iff` — when doing something without putting it on record makes no difference.
-/

namespace ESignSoft.Lib

variable {α : Type*}

/-- What was shown stands oldest first, what was undone in the order it comes back. -/
@[ext]
structure Timeline (α : Type*) where
  before : List α
  now : α
  after : List α

inductive Move
  | undo
  | redo

namespace Timeline

def start (now : α) : Timeline α := ⟨[], now, []⟩

/-- Something new is shown; of the record the last `limit` are kept. -/
def act (limit : ℕ) (next : α) (t : Timeline α) : Timeline α where
  before := (t.before ++ [t.now]).drop (t.before.length + 1 - limit)
  now := next
  after := []

def undo (t : Timeline α) : Timeline α :=
  match t.before.getLast? with
  | none => t
  | some last => ⟨t.before.dropLast, last, t.now :: t.after⟩

def redo (t : Timeline α) : Timeline α :=
  match t.after with
  | [] => t
  | next :: rest => ⟨t.before ++ [t.now], next, rest⟩

def move (t : Timeline α) : Move → Timeline α
  | .undo => t.undo
  | .redo => t.redo

def play (t : Timeline α) (moves : List Move) : Timeline α := moves.foldl move t

variable {t t' : Timeline α} {limit : ℕ} {next : α}

/-! ## What undo and redo give back -/

theorem undo_concat (before : List α) (last now : α) (after : List α) :
    undo ⟨before ++ [last], now, after⟩ = ⟨before, last, now :: after⟩ := by
  simp [undo]

theorem redo_cons (before : List α) (now next : α) (rest : List α) :
    redo ⟨before, now, next :: rest⟩ = ⟨before ++ [now], next, rest⟩ := rfl

/-- What was shown is the last on record. -/
theorem before_act (hlimit : 0 < limit) :
    (t.act limit next).before = t.before.drop (t.before.length + 1 - limit) ++ [t.now] :=
  List.drop_append_of_le_length (by omega)

/-- **Undo** gives back what was shown before something was done. -/
theorem undo_act (hlimit : 0 < limit) : (t.act limit next).undo.now = t.now := by
  unfold undo
  rw [before_act hlimit, List.getLast?_concat]

/-- **Redo** after undo gives back what was undone. -/
theorem redo_undo (h : t.before ≠ []) : t.undo.redo = t := by
  obtain ⟨before, now, after⟩ := t
  obtain ⟨earlier, last, rfl⟩ := (List.eq_nil_or_concat' before).resolve_left h
  rw [undo_concat, redo_cons]

/-! ## Looking alike -/

/-- The same is shown, and undo and redo are offered alike. -/
structure Alike (t t' : Timeline α) : Prop where
  now : t.now = t'.now
  undo : t.before = [] ↔ t'.before = []
  redo : t.after = [] ↔ t'.after = []

/-- Alike however undo and redo are pressed. -/
def AlwaysAlike (t t' : Timeline α) : Prop := ∀ moves : List Move, Alike (t.play moves) (t'.play moves)

theorem AlwaysAlike.move (h : AlwaysAlike t t') (m : Move) : AlwaysAlike (t.move m) (t'.move m) :=
  fun moves => h (m :: moves)

private theorem AlwaysAlike.before_eq (h : AlwaysAlike t t') : t.before = t'.before := by
  obtain ⟨before, now, after⟩ := t
  induction before using List.reverseRecOn generalizing now after t' with
  | nil => exact (((h []).undo).mp rfl).symm
  | append_singleton earlier last ih =>
      obtain ⟨before', now', after'⟩ := t'
      have hsome : before' ≠ [] := by
        intro hnil
        have hnone : earlier ++ [last] = [] := (h []).undo.mpr hnil
        simp at hnone
      obtain ⟨earlier', last', rfl⟩ := (List.eq_nil_or_concat' before').resolve_left hsome
      -- One undo shows the last of both records, the others are alike from there.
      have hundo := h.move .undo
      simp only [Timeline.move, undo_concat] at hundo
      have hlast : last = last' := (hundo []).now
      have hearlier : earlier = earlier' := ih last (now :: after) hundo
      show earlier ++ [last] = earlier' ++ [last']
      rw [hlast, hearlier]

private theorem AlwaysAlike.after_eq (h : AlwaysAlike t t') : t.after = t'.after := by
  obtain ⟨before, now, after⟩ := t
  induction after generalizing before now t' with
  | nil => exact (((h []).redo).mp rfl).symm
  | cons next rest ih =>
      obtain ⟨before', now', after'⟩ := t'
      cases after' with
      | nil =>
          have hnone : next :: rest = [] := (h []).redo.mpr rfl
          cases hnone
      | cons next' rest' =>
          have hredo := h.move .redo
          simp only [Timeline.move, redo_cons] at hredo
          have hnext : next = next' := (hredo []).now
          have hrest : rest = rest' := ih (before ++ [now]) next hredo
          show next :: rest = next' :: rest'
          rw [hnext, hrest]

/-- **Timelines that always look alike** are the same. -/
theorem eq_of_alike (h : AlwaysAlike t t') : t = t' := by
  apply Timeline.ext
  · exact h.before_eq
  · exact (h []).now
  · exact h.after_eq

theorem alwaysAlike_iff : AlwaysAlike t t' ↔ t = t' := by
  constructor
  · exact eq_of_alike
  · rintro rfl moves
    exact ⟨rfl, Iff.rfl, Iff.rfl⟩

/-! ## Doing something off the record -/

theorem concat_eq_cons_iff {l : List α} {x y : α} :
    l ++ [x] = y :: l ↔ y = x ∧ l = List.replicate l.length x := by
  induction l generalizing y with
  | nil => simp [eq_comm]
  | cons z l ih =>
      rw [List.cons_append, List.cons.injEq, ih, List.length_cons, List.replicate_succ, List.cons.injEq]
      constructor
      · rintro ⟨rfl, rfl, hall⟩
        exact ⟨rfl, rfl, hall⟩
      · rintro ⟨rfl, rfl, hall⟩
        exact ⟨rfl, rfl, hall⟩

/-- A record that loses its first entry to a new one is the same only where it is full of the new one. -/
theorem drop_concat_eq_iff {l : List α} {x : α} (hlimit : 0 < limit) :
    (l ++ [x]).drop (l.length + 1 - limit) = l ↔ l = List.replicate limit x := by
  constructor
  · intro h
    have hlength := congrArg List.length h
    rw [List.length_drop, List.length_append, List.length_singleton] at hlength
    have hfull : l.length = limit := by omega
    cases l with
    | nil =>
        rw [List.length_nil] at hfull
        omega
    | cons y l =>
        have hone : (y :: l).length + 1 - limit = 1 := by omega
        rw [hone] at h
        obtain ⟨rfl, hall⟩ := concat_eq_cons_iff.mp h
        rw [← hfull, List.length_cons, List.replicate_succ, ← hall]
  · rintro rfl
    rw [List.length_replicate, Nat.add_sub_cancel_left, ← List.replicate_succ', List.drop_replicate,
      Nat.add_sub_cancel]

/-- **Off the record** something is shown as if it had been done in the open exactly when nothing was undone
and the record is full of what was shown. -/
theorem kept_iff (hlimit : 0 < limit) :
    { t with now := next } = t.act limit next ↔ t.after = [] ∧ t.before = List.replicate limit t.now := by
  rw [Timeline.ext_iff, ← drop_concat_eq_iff hlimit]
  constructor
  · rintro ⟨hbefore, -, hafter⟩
    exact ⟨hafter, hbefore.symm⟩
  · rintro ⟨hafter, hbefore⟩
    exact ⟨hbefore.symm, rfl, hafter⟩

end Timeline

end ESignSoft.Lib
